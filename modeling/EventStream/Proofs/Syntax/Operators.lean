import EventStream.Proofs.Syntax.Outline

namespace EventStream

open EventStream.Parser

namespace Parser

section
variable {α β : Type} {p q : Prop} {x y : Except Failure α} {z : Except Failure β} {a : α}
  {f : α → Except Failure β}

/-- Two outcomes are the same, or the first is that the tree gets too deep, for want of room. -/
def SameUnless (short : Prop) (x y : Except Failure α) : Prop :=
  x = y ∨ x = tooDeep ∧ short

theorem SameUnless.trans {w : Except Failure α} (h : SameUnless p x y) (hpq : p → q)
    (h' : SameUnless q y w) : SameUnless q x w := by
  rcases h with rfl | ⟨rfl, hp⟩
  · exact h'
  · exact .inr ⟨rfl, hpq hp⟩

theorem SameUnless.bind (h : SameUnless p x (.ok a)) (hpq : p → q)
    (h' : SameUnless q (f a) z) : SameUnless q (x >>= f) z := by
  rcases h with rfl | ⟨rfl, hp⟩
  · exact h'
  · exact .inr ⟨rfl, hpq hp⟩

theorem SameUnless.eq_tooDeep (h : SameUnless p x tooDeep) : x = tooDeep :=
  h.elim id And.left

theorem bind_of_ok (h : x = .ok a) (h' : SameUnless q (f a) z) : SameUnless q (x >>= f) z := by
  subst h
  exact h'

/-- What a loop makes of an outcome so far, with the fuel and the room that some tokens leave. -/
def GoesOn (fuel room length : Nat) (x : Except Failure α) (loop : Nat → Nat → Except Failure α) :
    Prop :=
  ∃ fuel' room', fuel ≤ fuel' + length ∧ room + 1 ≤ room' + length ∧
    SameUnless (room + 1 < length) x (loop fuel' room')

/-- A loop that takes one level of room in each round. -/
theorem GoesOn.round {fuel room n m : Nat} {loop next : Nat → Nat → Except Failure α}
    (h : GoesOn fuel room n x loop) (hfuel : n < fuel) (hnm : n + 1 < m)
    (deep : ∀ fuel', loop (fuel' + 1) 0 = tooDeep)
    (step : ∀ fuel' room', fuel ≤ fuel' + 1 + n → room ≤ room' + n →
      SameUnless (room + 1 < m) (loop (fuel' + 1) (room' + 1)) (next fuel' room')) :
    GoesOn fuel room m x next := by
  obtain ⟨fuel', room', hf, hr, hx⟩ := h
  obtain _ | fuel' := fuel'
  · omega
  -- without room the loop fails, whatever it would have gone on with
  obtain _ | room' := room'
  · rw [deep] at hx
    exact ⟨fuel, room, by omega, by omega, .inr ⟨hx.eq_tooDeep, by omega⟩⟩
  · exact ⟨fuel', room', by omega, by omega,
      hx.trans (by omega) (step fuel' room' (by omega) (by omega))⟩

end

end Parser

namespace Phrase

/-- What the functions of the parser read where a phrase lies before tokens that do not continue it.
Chains and selections go on with what has been read so far. Each token in front is worth sixteen
steps; a tree needs no more room than it has tokens. -/
def IsRead : Phrase → List Token → Prop
  | .expression e, us => ∀ {fuel room ts rest}, Spans us ts rest → 16 * ts.length + 14 ≤ fuel →
      7 < (peek rest).reach →
      SameUnless (room < us.length) (Parser.expression fuel room ts) (.ok (e, rest))
  | .chain level e, us => ∀ {fuel room ts rest}, Spans us ts rest →
      16 * ts.length + 2 * level.number + 1 ≤ fuel → level.number ≤ (peek rest).reach →
      GoesOn fuel room us.length (Parser.chain fuel level room ts) fun fuel room =>
        chainFrom fuel level e room rest
  | .signed e, us => ∀ {fuel room ts rest}, Spans us ts rest → 16 * ts.length + 3 ≤ fuel →
      1 < (peek rest).reach →
      SameUnless (room + 1 < us.length) (Parser.signed fuel room ts) (.ok (e, rest))
  | .selection e, us => ∀ {fuel room ts rest}, Spans us ts rest → 16 * ts.length + 2 ≤ fuel →
      0 < (peek rest).reach →
      GoesOn fuel room us.length (Parser.selection fuel room ts) fun fuel room =>
        selectionFrom fuel e room rest
  | .primary e, us => ∀ {fuel room ts rest}, Spans us ts rest → 16 * ts.length + 1 ≤ fuel →
      0 < (peek rest).reach →
      SameUnless (room + 1 < us.length) (Parser.primary fuel room ts) (.ok (e, rest))
  | .items es, us => ∀ {fuel room close done ts mid rest}, Spans us ts mid →
      Closed close mid rest → close.closes → 16 * ts.length + 15 ≤ fuel →
      SameUnless (room < us.length) (elementsFrom fuel close done room ts)
        (.ok (done.reverse ++ es, rest))
  | .arguments es, us => ∀ {fuel room close ts mid rest}, Spans us ts mid →
      Spans [.symbol close] mid rest → close.closes → 16 * ts.length + 16 ≤ fuel →
      SameUnless (room < us.length) (elements fuel close room ts) (.ok (es, rest))
  | .pairs es, us => ∀ {fuel room done ts mid rest}, Spans us ts mid →
      Closed .rightBrace mid rest → 16 * ts.length + 15 ≤ fuel →
      SameUnless (room < us.length) (entriesFrom fuel done room ts)
        (.ok (done.reverse ++ es, rest))
  | .entries es, us => ∀ {fuel room ts mid rest}, Spans us ts mid →
      Spans [.symbol .rightBrace] mid rest → 16 * ts.length + 16 ≤ fuel →
      SameUnless (room < us.length) (Parser.entries fuel room ts) (.ok (es, rest))

end Phrase

namespace Parser

section
variable {fuel room : Nat} {level : Level} {ts mid rest : Tokens} {us vs ws : List Token}
  {e left : Expr}

theorem chainFrom_stop (h : level.number < (peek ts).reach) :
    chainFrom (fuel + 1) level left room ts = .ok (left, ts) := by
  unfold chainFrom
  rw [operator?_eq_none h]

theorem chainFrom_tooDeep {op : BinaryOp} (h : level.operator? (peek ts) = some op) :
    chainFrom (fuel + 1) level left 0 ts = tooDeep := by
  unfold chainFrom
  rw [h]

theorem chainFrom_operator {op : BinaryOp} {p q : Prop} (h : level.operator? (peek ts) = some op)
    (ho : SameUnless p (operand fuel level room (ts.drop 1)) (.ok (e, rest))) (hpq : p → q) :
    SameUnless q (chainFrom (fuel + 1) level left (room + 1) ts)
      (chainFrom fuel level (.binary op left e) room rest) := by
  generalize hz : chainFrom fuel level (.binary op left e) room rest = z
  unfold chainFrom
  rw [h]
  exact ho.bind hpq (.inl hz)

theorem selectionFrom_stop (h : 1 < (peek ts).reach) :
    selectionFrom (fuel + 1) left room ts = .ok (left, ts) := by
  unfold selectionFrom
  split
  case h_5 => rfl
  all_goals
    next hp =>
      rw [hp] at h
      exact absurd h (by decide)

theorem chain_reads (h : (Phrase.chain level e).IsRead us) (hs : Spans us ts rest)
    (hf : 16 * ts.length + 2 * level.number + 1 ≤ fuel) (hr : level.number < (peek rest).reach) :
    SameUnless (room + 1 < us.length) (chain fuel level room ts) (.ok (e, rest)) := by
  obtain ⟨more, left, hm, _, hx⟩ :=
    @h fuel room ts rest hs hf (Nat.le_of_lt hr)
  have := hs.length_eq
  obtain ⟨more, rfl⟩ : ∃ n, more = n + 1 := ⟨more - 1, by omega⟩
  exact hx.trans id (.inl (chainFrom_stop hr))

theorem selection_reads (h : (Phrase.selection e).IsRead us) (hs : Spans us ts rest)
    (hf : 16 * ts.length + 2 ≤ fuel) (hr : 1 < (peek rest).reach) :
    SameUnless (room + 1 < us.length) (selection fuel room ts) (.ok (e, rest)) := by
  obtain ⟨more, left, hm, _, hx⟩ := @h fuel room ts rest hs hf (by omega)
  have := hs.length_eq
  obtain ⟨more, rfl⟩ : ∃ n, more = n + 1 := ⟨more - 1, by omega⟩
  exact hx.trans id (.inl (selectionFrom_stop hr))

theorem operand_reads (h : (Phrase.operand level e).IsRead us) (hs : Spans us ts rest)
    (hf : 16 * ts.length + 2 * level.number ≤ fuel) (hr : level.number ≤ (peek rest).reach) :
    SameUnless (room + 1 < us.length) (operand fuel level room ts) (.ok (e, rest)) := by
  obtain _ | fuel := fuel
  · cases level <;> simp [Level.number] at hf
  cases level with
  | product => exact h hs (by simp only [Level.number] at hf; omega) (Nat.lt_of_succ_le hr)
  | or | and | comparison | sum =>
    exact chain_reads h hs (by simp only [Level.number] at hf ⊢; omega) (Nat.lt_of_succ_le hr)

end

section
variable {level : Level} {us vs ws : List Token} {e c y n d : Expr}

theorem unconditional_reads (h : (Phrase.chain .or e).IsRead us)
    (hb : Headed Token.startsSigned us) : (Phrase.expression e).IsRead us := by
  intro fuel room ts rest hs hf hr
  obtain _ | fuel := fuel
  · omega
  obtain _ | room := room
  · exact .inr ⟨rfl, hb.length_pos⟩
  refine (chain_reads h hs (by simp only [Level.number]; omega) (Nat.lt_of_succ_lt hr)).bind
    (by omega) ?_
  exact .inl (if_neg (peek_ne_of_reach hr (by decide)))

theorem conditional_reads (hc : (Phrase.chain .or c).IsRead us)
    (hy : (Phrase.chain .or y).IsRead vs) (hn : (Phrase.expression n).IsRead ws) :
    (Phrase.expression (.conditional c y n)).IsRead
      (us ++ .symbol .question :: vs ++ .symbol .colon :: ws) := by
  intro fuel room ts rest hs hf hr
  obtain ⟨mid, hspan, hcolon, _, hws⟩ := spans_append.mp hs
  obtain ⟨before, hus, hquestion, _, hvs⟩ := spans_append.mp hspan
  have := hs.length_eq
  have := hspan.length_eq
  have := hvs.length_eq
  have := hws.length_eq
  simp only [List.length_append, List.length_cons] at *
  obtain _ | fuel := fuel
  · omega
  obtain _ | room := room
  · exact .inr ⟨rfl, by omega⟩
  refine (chain_reads hc hus (by simp only [Level.number]; omega) (by rw [hquestion]; decide)).bind
    (by omega) ?_
  dsimp only
  rw [if_pos hquestion]
  refine (chain_reads hy hvs (by simp only [Level.number]; omega) (by rw [hcolon]; decide)).bind
    (by omega) ?_
  refine bind_of_ok (expect_of_peek hcolon) ?_
  exact (hn hws (by omega) hr).bind (by omega) (.inl rfl)

theorem operand_length_pos (hb : (Phrase.operand level e).Begins us) : 0 < us.length := by
  cases level <;> exact hb.length_pos

/-- The first operand of a chain. -/
theorem operand_chain_reads (h : (Phrase.operand level e).IsRead us)
    (hb : (Phrase.operand level e).Begins us) : (Phrase.chain level e).IsRead us := by
  intro fuel room ts rest hs hf hr
  have hpos : 0 < us.length := operand_length_pos hb
  obtain _ | fuel := fuel
  · omega
  refine ⟨fuel, room, by omega, by omega, ?_⟩
  exact (operand_reads h hs (by omega) hr).bind id (.inl rfl)

theorem operator_reads {op : BinaryOp} (he : (Phrase.chain op.level e).IsRead us)
    (hd : (Phrase.operand op.level d).IsRead vs) (hb : (Phrase.operand op.level d).Begins vs) :
    (Phrase.chain op.level (.binary op e d)).IsRead (us ++ op.token :: vs) := by
  intro fuel room ts rest hs hf hr
  obtain ⟨mid, hus, hop, _, hvs⟩ := spans_append.mp hs
  have := hs.length_eq
  have := hvs.length_eq
  have hpos : 0 < vs.length := operand_length_pos hb
  simp only [List.length_append, List.length_cons] at *
  have hsome : op.level.operator? (peek mid) = some op := operator?_eq_some.mpr ⟨rfl, hop.symm⟩
  have hreach : op.level.number ≤ (peek mid).reach := by rw [hop, op.reach_token]
  refine (he hus hf hreach).round (by omega) (by omega) (fun _ => chainFrom_tooDeep hsome) ?_
  intro fuel' room' _ _
  exact chainFrom_operator hsome (operand_reads hd hvs (by omega) hr) (by omega)

theorem unsigned_reads (h : (Phrase.selection e).IsRead us) (hb : Headed (·.starts) us) :
    (Phrase.signed e).IsRead us := by
  intro fuel room ts rest hs hf hr
  obtain _ | fuel := fuel
  · omega
  have hnone : sign? (peek ts) = none := sign?_eq_none (hb.peek hs)
  unfold signed
  rw [hnone]
  exact selection_reads h hs (by omega) hr

theorem sign_reads {op : UnaryOp} (h : (Phrase.signed e).IsRead us)
    (hb : Headed Token.startsSigned us) :
    (Phrase.signed (.unary op e)).IsRead (op.token :: us) := by
  intro fuel room ts rest hs hf hr
  have hpos := hb.length_pos
  have := hs.length_eq
  obtain ⟨hop, _, hus⟩ := hs
  have := hus.length_eq
  simp only [List.length_cons] at *
  have hsome : sign? (peek ts) = some op := sign?_eq_some.mpr hop.symm
  obtain _ | fuel := fuel
  · omega
  unfold signed
  rw [hsome]
  obtain _ | room := room
  · exact .inr ⟨rfl, by omega⟩
  exact (h hus (by omega) hr).bind (by omega) (.inl rfl)

end

end Parser

end EventStream
