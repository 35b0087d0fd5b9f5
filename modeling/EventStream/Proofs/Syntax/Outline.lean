import EventStream.Proofs.Syntax.Grammar

namespace EventStream

open EventStream.Parser

/-- How close a token binds to what stands before it. -/
def Token.reach : Token → Nat
  | .symbol .leftParen => 0
  | .symbol .dot | .symbol .leftBracket => 1
  | .symbol .times | .symbol .divide | .symbol .modulus => 2
  | .symbol .plus | .symbol .minus => 3
  | .symbol .equal | .symbol .notEqual | .symbol .less | .symbol .lessEqual | .symbol .greater
  | .symbol .greaterEqual | .keyword .inWord => 4
  | .symbol .and => 5
  | .symbol .or => 6
  | .symbol .question => 7
  | _ => 8

def Parser.Level.number : Level → Nat
  | .or => 6
  | .and => 5
  | .comparison => 4
  | .sum => 3
  | .product => 2

theorem BinaryOp.reach_token (op : BinaryOp) : op.token.reach = op.level.number := by
  cases op <;> rfl

/-- Whether a primary expression can begin with a token. -/
def Token.starts : Token → Bool
  | .symbol .leftParen | .symbol .leftBracket | .symbol .leftBrace => true
  | .symbol _ | .keyword .inWord | .invalid _ | .ending => false
  | .keyword _ | .integer _ | .double _ | .string _ | .identifier _ => true

/-- Symbols after which no expression goes on. -/
def Symbol.closes (s : Symbol) : Prop :=
  s = .rightParen ∨ s = .rightBracket ∨ s = .rightBrace

/-- The first token is one of a kind. -/
def Headed (kind : Token → Prop) (us : List Token) : Prop :=
  ∃ t tail, us = t :: tail ∧ kind t

theorem Headed.append {kind : Token → Prop} {us : List Token} (h : Headed kind us)
    (vs : List Token) : Headed kind (us ++ vs) := by
  obtain ⟨t, tail, rfl, ht⟩ := h
  exact ⟨t, tail ++ vs, rfl, ht⟩

theorem Headed.length_pos {kind : Token → Prop} {us : List Token} (h : Headed kind us) :
    0 < us.length := by
  obtain ⟨t, tail, rfl, _⟩ := h
  exact Nat.zero_lt_succ _

theorem Headed.peek {kind : Token → Prop} {us : List Token} {ts rest : Tokens}
    (h : Headed kind us) (hs : Spans us ts rest) : kind (peek ts) := by
  obtain ⟨t, tail, rfl, ht⟩ := h
  exact hs.1 ▸ ht

def Token.startsSigned (t : Token) : Prop :=
  t.starts ∨ ∃ op : UnaryOp, op.token = t

/-- How the tokens of a phrase begin. -/
def Phrase.Begins : Phrase → List Token → Prop
  | .selection _, us | .primary _, us => Headed (·.starts) us
  | .arguments _, _ | .entries _, _ => True
  | .expression _, us | .chain _ _, us | .signed _, us | .items _, us | .pairs _, us =>
    Headed Token.startsSigned us

theorem Derives.begins {p : Phrase} {us : List Token} (h : Derives p us) : p.Begins us := by
  induction h with
  | unconditional _ ih | item _ ih => exact ih
  | conditional _ _ _ ih => exact (ih.append _).append _
  | @operand level e us _ ih => cases level <;> exact ih
  | operator _ _ _ ih | comma _ _ ih => exact ih.append _
  | unsigned _ ih =>
    obtain ⟨t, tail, rfl, ht⟩ := ih
    exact ⟨t, tail, rfl, .inl ht⟩
  | sign op _ _ => exact ⟨_, _, rfl, .inr ⟨op, rfl⟩⟩
  | primary _ ih => exact ih
  | member _ _ ih | method _ _ _ ih | index _ _ ih => exact ih.append _
  | null | yes | no | int | double | string | «variable» | call | has | paren | list | map =>
    exact ⟨_, _, rfl, rfl⟩
  | noArguments | someArguments | argumentsComma | noEntries | someEntries | entriesComma =>
    trivial
  | pair | pairsComma => exact ⟨_, _, rfl, .inl rfl⟩

namespace Parser

section
variable {level : Level} {close : Symbol} {ts mid rest : Tokens} {us : List Token}

theorem operator?_eq_none {t : Token} (h : level.number < t.reach) : level.operator? t = none := by
  cases ho : level.operator? t with
  | none => rfl
  | some op =>
    obtain ⟨rfl, rfl⟩ := operator?_eq_some.mp ho
    have := op.reach_token
    omega

theorem sign?_eq_none {t : Token} (h : t.starts) : sign? t = none := by
  cases ho : sign? t with
  | none => rfl
  | some op =>
    rw [← sign?_eq_some.mp ho] at h
    cases op <;> cases h

theorem peek_ne_of_reach {ts : Tokens} {t : Token} {n : Nat} (h : n < (peek ts).reach)
    (ht : t.reach ≤ n) : peek ts ≠ t := by
  rintro rfl
  omega

theorem peek_of_closed (h : Closed close mid rest) :
    peek mid = .symbol close ∨ peek mid = .symbol .comma ∧ peek (mid.drop 1) = .symbol close :=
  h.imp (fun h => h.1) fun h => ⟨h.1, h.2.2.1⟩

theorem closed_of_comma {comma : List Token} (hcomma : comma = [] ∨ comma = [.symbol .comma])
    (h : Spans comma ts mid) (hclose : Spans [.symbol close] mid rest) : Closed close ts rest := by
  rcases hcomma with rfl | rfl
  · cases h
    exact .inl hclose
  · exact .inr (h.trans hclose)

theorem reach_of_closed (h : Closed close mid rest) (hc : close.closes) :
    7 < (peek mid).reach := by
  rcases peek_of_closed h with h | ⟨h, _⟩ <;> rw [h]
  · rcases hc with rfl | rfl | rfl <;> decide
  · decide

theorem not_more_of_closed (h : Closed close mid rest) (hc : close.closes) :
    ¬(peek mid = .symbol .comma ∧ peek (mid.drop 1) ≠ .symbol close) := by
  rcases peek_of_closed h with h | ⟨_, h⟩
  · rw [h]
    rcases hc with rfl | rfl | rfl <;> simp
  · exact fun hn => hn.2 h

theorem expect_of_peek {s : Symbol} (h : peek ts = .symbol s) : expect s ts = .ok (ts.drop 1) :=
  if_pos h

theorem name_of_peek {n : String} (h : peek ts = .identifier n) :
    name ts = .ok (n, ts.drop 1) := by
  unfold name
  rw [h]

theorem expect_of_closed (h : Closed close mid rest) (hc : close.closes) :
    expect close (if peek mid = .symbol .comma then mid.drop 1 else mid) = .ok rest := by
  rcases h with ⟨h, _, rfl⟩ | ⟨h, _, hclose, _, rfl⟩
  · rw [if_neg, expect_of_peek h]
    rw [h]
    rcases hc with rfl | rfl | rfl <;> simp
  · rw [if_pos h, expect_of_peek hclose]

theorem peek_ne_close {ts : Tokens} (hb : Headed Token.startsSigned us) (hs : Spans us ts rest)
    (hc : close.closes) : peek ts ≠ .symbol close := by
  intro h
  have hstart := hb.peek hs
  rw [h] at hstart
  rcases hc with rfl | rfl | rfl <;> rcases hstart with hstart | ⟨op, hop⟩ <;>
    first | cases hstart | (cases op <;> cases hop)

end

end Parser

end EventStream
