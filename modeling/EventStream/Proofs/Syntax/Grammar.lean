import EventStream.Expr.Parser
import EventStream.Proofs.Traversal

namespace EventStream

open EventStream.Parser

/-- What a backslash and a character stand for in a string. -/
def escapes : List (Char × Char) :=
  [('n', '\n'), ('t', '\t'), ('r', '\r'), ('\\', '\\'), ('"', '"'), ('\'', '\'')]

/-- The body of a string and what it stands for. -/
inductive Escaped : List Char → List Char → Prop
  | nil : Escaped [] []
  | plain {c raw s} : c ≠ '\\' → Escaped raw s → Escaped (c :: raw) (c :: s)
  | escape {c d raw s} : (c, d) ∈ escapes → Escaped raw s → Escaped ('\\' :: c :: raw) (d :: s)

def UnaryOp.token : UnaryOp → Token
  | .not => .symbol .not
  | .negate => .symbol .minus

def BinaryOp.token : BinaryOp → Token
  | .or => .symbol .or
  | .and => .symbol .and
  | .equal => .symbol .equal
  | .notEqual => .symbol .notEqual
  | .less => .symbol .less
  | .lessEqual => .symbol .lessEqual
  | .greater => .symbol .greater
  | .greaterEqual => .symbol .greaterEqual
  | .isIn => .keyword .inWord
  | .add => .symbol .plus
  | .subtract => .symbol .minus
  | .multiply => .symbol .times
  | .divide => .symbol .divide
  | .modulus => .symbol .modulus

def BinaryOp.level : BinaryOp → Level
  | .or => .or
  | .and => .and
  | .equal | .notEqual | .less | .lessEqual | .greater | .greaterEqual | .isIn => .comparison
  | .add | .subtract => .sum
  | .multiply | .divide | .modulus => .product

/-- What tokens can be, and what they stand for. -/
inductive Phrase where
  | expression (e : Expr)
  /-- Operands of a level with its operators between them. -/
  | chain (level : Level) (e : Expr)
  | signed (e : Expr)
  | selection (e : Expr)
  | primary (e : Expr)
  /-- At least one expression, with commas between them. -/
  | items (es : List Expr)
  | arguments (es : List Expr)
  /-- At least one key with its value, with commas between them. -/
  | pairs (entries : List (String × Expr))
  | entries (entries : List (String × Expr))

/-- The operands of a level are of the next tighter one. -/
def Phrase.operand (level : Level) (e : Expr) : Phrase :=
  match level with
  | .or => .chain .and e
  | .and => .chain .comparison e
  | .comparison => .chain .sum e
  | .sum => .chain .product e
  | .product => .signed e

inductive Derives : Phrase → List Token → Prop
  | unconditional {e us} : Derives (.chain .or e) us → Derives (.expression e) us
  | conditional {c y n us vs ws} : Derives (.chain .or c) us → Derives (.chain .or y) vs →
      Derives (.expression n) ws →
      Derives (.expression (.conditional c y n))
        (us ++ .symbol .question :: vs ++ .symbol .colon :: ws)
  | operand {level e us} : Derives (.operand level e) us → Derives (.chain level e) us
  | operator (op) {e d us vs} : Derives (.chain op.level e) us → Derives (.operand op.level d) vs →
      Derives (.chain op.level (.binary op e d)) (us ++ op.token :: vs)
  | unsigned {e us} : Derives (.selection e) us → Derives (.signed e) us
  | sign (op) {e us} : Derives (.signed e) us → Derives (.signed (.unary op e)) (op.token :: us)
  | primary {e us} : Derives (.primary e) us → Derives (.selection e) us
  | member (field) {e us} : Derives (.selection e) us →
      Derives (.selection (.member e field)) (us ++ [.symbol .dot, .identifier field])
  | method (function) {e es us vs} : Derives (.selection e) us → Derives (.arguments es) vs →
      Derives (.selection (.call function (some e) es))
        (us ++ .symbol .dot :: .identifier function :: .symbol .leftParen ::
          (vs ++ [.symbol .rightParen]))
  | index {e p us vs} : Derives (.selection e) us → Derives (.expression p) vs →
      Derives (.selection (.index e p))
        (us ++ .symbol .leftBracket :: (vs ++ [.symbol .rightBracket]))
  | null : Derives (.primary .null) [.keyword .nullWord]
  | yes : Derives (.primary (.bool true)) [.keyword .trueWord]
  | no : Derives (.primary (.bool false)) [.keyword .falseWord]
  | int (n) : Derives (.primary (.int n)) [.integer n]
  | double (d) : Derives (.primary (.double d)) [.double d]
  | string {raw s} : Escaped raw s → Derives (.primary (.string (String.ofList s))) [.string raw]
  | variable (name) : Derives (.primary (.variable name)) [.identifier name]
  | call {function es us} : function ≠ "has" → Derives (.arguments es) us →
      Derives (.primary (.call function none es))
        (.identifier function :: .symbol .leftParen :: (us ++ [.symbol .rightParen]))
  | has {e field us} : Derives (.arguments [.member e field]) us →
      Derives (.primary (.has e field))
        (.identifier "has" :: .symbol .leftParen :: (us ++ [.symbol .rightParen]))
  | paren {e us} : Derives (.expression e) us →
      Derives (.primary e) (.symbol .leftParen :: (us ++ [.symbol .rightParen]))
  | list {es us} : Derives (.arguments es) us →
      Derives (.primary (.list es)) (.symbol .leftBracket :: (us ++ [.symbol .rightBracket]))
  | map {es us} : Derives (.entries es) us →
      Derives (.primary (.map es)) (.symbol .leftBrace :: (us ++ [.symbol .rightBrace]))
  | item {e us} : Derives (.expression e) us → Derives (.items [e]) us
  | comma {e es us vs} : Derives (.expression e) us → Derives (.items es) vs →
      Derives (.items (e :: es)) (us ++ .symbol .comma :: vs)
  | noArguments : Derives (.arguments []) []
  | someArguments {es us} : Derives (.items es) us → Derives (.arguments es) us
  | argumentsComma {es us} : Derives (.items es) us →
      Derives (.arguments es) (us ++ [.symbol .comma])
  | pair {raw s e us} : Escaped raw s → Derives (.expression e) us →
      Derives (.pairs [(String.ofList s, e)]) (.string raw :: .symbol .colon :: us)
  | pairsComma {raw s e es us vs} : Escaped raw s → Derives (.expression e) us →
      Derives (.pairs es) vs →
      Derives (.pairs ((String.ofList s, e) :: es))
        (.string raw :: .symbol .colon :: (us ++ .symbol .comma :: vs))
  | noEntries : Derives (.entries []) []
  | someEntries {es us} : Derives (.pairs es) us → Derives (.entries es) us
  | entriesComma {es us} : Derives (.pairs es) us → Derives (.entries es) (us ++ [.symbol .comma])

/-- The tokens before the end. -/
def sentence (ts : Tokens) : List Token :=
  (ts.map Lexeme.token).takeWhile (· ≠ .ending)

/-- The tokens that lie before some of the last ones, the end not among them. -/
def Spans : List Token → Tokens → Tokens → Prop
  | [], ts, rest => ts = rest
  | t :: us, ts, rest => peek ts = t ∧ t ≠ .ending ∧ Spans us (ts.drop 1) rest

/-- A list may have one more comma before its closing symbol. -/
def Closed (close : Symbol) (ts rest : Tokens) : Prop :=
  Spans [.symbol close] ts rest ∨ Spans [.symbol .comma, .symbol close] ts rest

section
variable {us vs : List Token} {t : Token} {ts mid rest : Tokens}

theorem spans_append : Spans (us ++ vs) ts rest ↔ ∃ mid, Spans us ts mid ∧ Spans vs mid rest := by
  induction us generalizing ts with
  | nil => simp [Spans]
  | cons t us ih => simp [Spans, ih, and_assoc]

theorem Spans.trans (h : Spans us ts mid) (h' : Spans vs mid rest) : Spans (us ++ vs) ts rest :=
  spans_append.mpr ⟨mid, h, h'⟩

theorem Spans.length_eq (h : Spans us ts rest) : ts.length = us.length + rest.length := by
  induction us generalizing ts with
  | nil => simpa using congrArg List.length h
  | cons t us ih =>
    obtain ⟨hp, ht, h⟩ := h
    cases ts with
    | nil => exact absurd hp.symm ht
    | cons l ts =>
      have := ih h
      simp only [List.length_cons]
      simp only [List.drop_succ_cons, List.drop_zero] at this
      omega

theorem Spans.unique (h : Spans us ts rest) (h' : Spans vs ts rest) : us = vs := by
  have hlength := h.length_eq
  have hlength' := h'.length_eq
  induction us generalizing vs ts with
  | nil =>
    simp only [List.length_nil] at hlength
    exact (List.length_eq_zero_iff.mp (by omega)).symm
  | cons t us ih =>
    cases vs with
    | nil => simp only [List.length_nil, List.length_cons] at *; omega
    | cons u vs =>
      obtain ⟨rfl, _, h⟩ := h
      obtain ⟨rfl, _, h'⟩ := h'
      rw [ih h h' h.length_eq h'.length_eq]

theorem Spans.uncons (h : Spans (t :: us) ts rest) :
    peek ts = t ∧ Spans us (ts.drop 1) rest ∧ (ts.drop 1).length + 1 = ts.length := by
  have hlength := h.length_eq
  obtain ⟨ht, _, h⟩ := h
  have := h.length_eq
  rw [List.length_cons] at hlength
  exact ⟨ht, h, by omega⟩

theorem Spans.split (h : Spans (us ++ vs) ts rest) :
    ∃ mid, Spans us ts mid ∧ Spans vs mid rest ∧ mid.length ≤ ts.length := by
  obtain ⟨mid, hus, hvs⟩ := spans_append.mp h
  have := hus.length_eq
  exact ⟨mid, hus, hvs, by omega⟩

/-- What stands between an opening and a closing token. -/
theorem Spans.inside {u : Token} (h : Spans (t :: (us ++ [u])) ts rest) :
    peek ts = t ∧ ∃ mid, Spans us (ts.drop 1) mid ∧ Spans [u] mid rest ∧
      (ts.drop 1).length + 1 = ts.length := by
  obtain ⟨ht, h, hlength⟩ := h.uncons
  obtain ⟨mid, hus, hu⟩ := spans_append.mp h
  exact ⟨ht, mid, hus, hu, hlength⟩

theorem sentence_cons {l : Lexeme} (ht : l.token ≠ .ending) :
    sentence (l :: ts) = l.token :: sentence ts :=
  List.takeWhile_cons_of_pos (by simpa using ht)

theorem sentence_eq (h : Spans us ts rest) (hr : peek rest = .ending) : sentence ts = us := by
  induction us generalizing ts with
  | nil =>
    cases h
    cases rest with
    | nil => rfl
    | cons l rest =>
      have hl : l.token = .ending := hr
      exact List.takeWhile_cons_of_neg (by simpa using hl)
  | cons t us ih =>
    obtain ⟨rfl, ht, h⟩ := h
    cases ts with
    | nil => exact absurd rfl ht
    | cons l ts => exact (sentence_cons ht).trans (congrArg (l.token :: ·) (ih h))

theorem sentence_append (h : ∀ l ∈ ts, l.token ≠ .ending) (hr : peek rest = .ending) :
    sentence (ts ++ rest) = ts.map Lexeme.token := by
  induction ts with
  | nil => exact sentence_eq (show Spans [] rest rest from rfl) hr
  | cons l ts ih =>
    rw [List.cons_append, sentence_cons (h l List.mem_cons_self),
      ih fun k hk => h k (List.mem_cons_of_mem l hk), List.map_cons]

theorem spans_sentence (ts : Tokens) : ∃ rest, Spans (sentence ts) ts rest ∧ peek rest = .ending := by
  induction ts with
  | nil => exact ⟨[], rfl, rfl⟩
  | cons l ts ih =>
    by_cases ht : l.token = .ending
    · exact ⟨l :: ts, by simp [sentence, ht, Spans], ht⟩
    · obtain ⟨rest, hs, hr⟩ := ih
      exact ⟨rest, sentence_cons ht ▸ ⟨rfl, ht, hs⟩, hr⟩

end

theorem lookup_eq_some_of_nodup {α β : Type} [BEq α] [LawfulBEq α] {entries : List (α × β)}
    (h : (entries.map Prod.fst).Nodup) {k : α} {v : β} :
    entries.lookup k = some v ↔ (k, v) ∈ entries := by
  induction entries with
  | nil => simp
  | cons e entries ih =>
    obtain ⟨n, w⟩ := e
    obtain ⟨hn, hr⟩ := List.nodup_cons.mp h
    rw [List.lookup_cons, List.mem_cons]
    by_cases hk : k = n
    · subst hk
      have hnot : (k, v) ∉ entries := fun hm => hn (List.mem_map.mpr ⟨(k, v), hm, rfl⟩)
      simp [hnot, eq_comm]
    · rw [beq_false_of_ne hk]
      simpa [hk] using ih hr

theorem unescape_eq_ok {raw s : List Char} : unescape raw = .ok s ↔ Escaped raw s := by
  constructor
  · intro h
    fun_induction unescape raw generalizing s with
    | case1 c r d hd ih =>
      obtain ⟨tail, ht, rfl⟩ := map_eq_ok.mp h
      exact .escape ((lookup_eq_some_of_nodup (by decide)).mp hd) (ih ht)
    | case2 => cases h
    | case3 => cases h
    | case4 c r hpair hlast ih =>
      obtain ⟨tail, ht, rfl⟩ := map_eq_ok.mp h
      refine .plain ?_ (ih ht)
      rintro rfl
      cases r with
      | nil => exact hlast rfl rfl
      | cons d r => exact hpair d r rfl rfl
    | case5 =>
      cases h
      exact .nil
  · intro h
    induction h with
    | nil => rfl
    | @plain c raw s hc _ ih =>
      rw [unescape, ih]
      · rfl
      · exact fun _ _ h _ => hc h
      · exact fun h _ => hc h
    | @escape c d raw s hd _ ih =>
      have hl : escapes.lookup c = some d := (lookup_eq_some_of_nodup (by decide)).mpr hd
      unfold escapes at hl
      rw [unescape, hl, ih]
      rfl

namespace Parser

theorem stringOf_eq_ok {raw : List Char} {s : String} :
    stringOf raw = .ok s ↔ ∃ cs, Escaped raw cs ∧ String.ofList cs = s := by
  simp only [← unescape_eq_ok, stringOf]
  cases unescape raw <;> simp

theorem operator?_eq_some {level : Level} {t : Token} {op : BinaryOp} :
    level.operator? t = some op ↔ op.level = level ∧ op.token = t := by
  constructor
  · intro h
    unfold Level.operator? at h
    split at h <;> cases h <;> exact ⟨rfl, rfl⟩
  · rintro ⟨rfl, rfl⟩
    cases op <;> rfl

theorem sign?_eq_some {t : Token} {op : UnaryOp} : sign? t = some op ↔ op.token = t := by
  constructor
  · intro h
    unfold sign? at h
    split at h <;> cases h <;> rfl
  · rintro rfl
    cases op <;> rfl

end Parser

end EventStream
