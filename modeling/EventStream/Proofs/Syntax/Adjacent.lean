import EventStream.Proofs.Syntax.Tiling

namespace EventStream

namespace Lexer

/-- What prolongs no word that stands before it. -/
def Apart (x : List Char) : Prop :=
  ∀ c ∈ x.head?, isNamePart c = false ∧ c ∉ ['.', '+', '-', '=', '|', '&']

section
variable {c : Char} {r s x : List Char}

theorem isNamePart_of_isDigit (h : c.isDigit = true) : isNamePart c = true := by
  simp [isNamePart, Char.isAlphanum, h]

theorem takeWhile_append_of_stop {p : Char → Bool} (hx : ∀ c ∈ x.head?, p c = false) :
    (r ++ x).takeWhile p = r.takeWhile p := by
  induction r with
  | nil => exact (takeWhile_append_of_head (s := []) (by simp) hx).1
  | cons c r ih => rw [List.cons_append, List.takeWhile_cons, List.takeWhile_cons, ih]

/-- The second character of a symbol. -/
theorem symbol_second (s : Symbol) :
    ∃ a, s.chars = [a] ∨ ∃ b ∈ ['=', '|', '&'], s.chars = [a, b] := by
  cases s <;> simp [Symbol.chars]

section
variable (hx : Apart x)

include hx

theorem Apart.isDigit : ∀ c ∈ x.head?, c.isDigit = false := fun c hc =>
  Bool.eq_false_iff.mpr fun hd => by simpa [isNamePart_of_isDigit hd] using (hx c hc).1

theorem fraction_append : fraction (s ++ x) = fraction s := by
  cases s with
  | nil =>
    cases x with
    | nil => rfl
    | cons d x =>
      have hd : d ≠ '.' := fun h => by simpa [h] using (hx d rfl).2
      simp [fraction, hd]
  | cons c r =>
    by_cases hc : c = '.'
    · subst hc
      simp [fraction, takeWhile_append_of_stop hx.isDigit]
    · simp [fraction, hc]

theorem exponent_append : exponent (s ++ x) = exponent s := by
  have hdigits (r : List Char) : (r ++ x).takeWhile Char.isDigit = r.takeWhile Char.isDigit :=
    takeWhile_append_of_stop hx.isDigit
  obtain _ | ⟨c, _ | ⟨d, r⟩⟩ := s
  · cases x with
    | nil => rfl
    | cons d x =>
      have hd : d ≠ 'e' ∧ d ≠ 'E' := by
        constructor <;> rintro rfl <;> exact absurd (hx _ rfl).1 (by decide)
      simp [exponent, hd]
  · cases x with
    | nil => rfl
    | cons d x =>
      have hd := hx d rfl
      have hplus : d ≠ '+' := fun h => by simp [h] at hd
      have hminus : d ≠ '-' := fun h => by simp [h] at hd
      have hdigit : d.isDigit = false := hx.isDigit d rfl
      simp [exponent, hplus, hminus, hdigit]
  · by_cases hplus : d = '+'
    · subst hplus
      simp [exponent, hdigits]
    · by_cases hminus : d = '-'
      · subst hminus
        simp [exponent, hdigits]
      · have := hdigits (d :: r)
        rw [List.cons_append] at this
        simp [exponent, hplus, hminus, this]

theorem number_append : number c (r ++ x) = number c r := by
  obtain ⟨_, _, rest, hr, _, _⟩ := numeral_split r
  have hlength := congrArg List.length hr
  simp only [numeral, List.length_append] at hlength
  have hwhole : wholeOf (r ++ x) = wholeOf r := takeWhile_append_of_stop hx.isDigit
  have hpoint : pointOf (r ++ x) = pointOf r := by
    rw [pointOf, hwhole, List.drop_append_of_le_length (by omega), fraction_append hx, pointOf]
  refine number_congr hwhole hpoint ?_
  rw [powerOf, hwhole, hpoint, List.drop_append_of_le_length (by omega), exponent_append hx, powerOf]

theorem symbol_append : symbol c (r ++ x) = symbol c r := by
  have hfront (s : Symbol) : s.chars.isPrefixOf (c :: (r ++ x)) = s.chars.isPrefixOf (c :: r) := by
    obtain ⟨a, hs | ⟨b, hb, hs⟩⟩ := symbol_second s
    · simp [hs, List.isPrefixOf]
    · rw [hs]
      cases r with
      | cons d r => simp [List.isPrefixOf]
      | nil =>
        cases x with
        | nil => rfl
        | cons d x =>
          have hne : b ≠ d := by
            rintro rfl
            simp only [List.mem_cons, List.not_mem_nil, or_false] at hb
            exact (hx b rfl).2 (by simp [hb])
          simp [List.isPrefixOf, hne]
  unfold symbol
  simp only [hfront]

theorem name_append : name c (r ++ x) = name c r := by
  unfold name
  simp only [takeWhile_append_of_stop fun c hc => (hx c hc).1]

end

/-- A string ends with its quote, whatever follows. -/
theorem string_append (hq : IsQuote c) (h : ∀ text, (string c r).1 ≠ .invalid text) :
    string c (r ++ x) = string c r := by
  obtain ⟨hunits, rest, hr, hclosed⟩ := stringBody_split c r
  unfold string at h ⊢
  split at h
  next body hbody =>
    rw [hbody] at hunits hr hclosed
    obtain ⟨more, rfl⟩ := hclosed rfl
    have hmore : stringBody c (r ++ x) = (body, true) := by
      rw [hr, List.append_assoc, List.cons_append, stringBody_append hunits, stringBody_quote hq,
        List.append_nil]
    rw [hmore]
  next body _ => exact absurd rfl (h (c :: body))

theorem longest_append (hx : Apart x) (h : ∀ text, (longest c r).1 ≠ .invalid text) :
    longest c (r ++ x) = longest c r := by
  unfold longest at h ⊢
  split
  next => exact name_append hx
  next hname =>
    split
    next => exact number_append hx
    next hdigit =>
      split
      next hq =>
        rw [if_neg hname, if_neg hdigit, if_pos hq] at h
        exact string_append hq h
      next => exact symbol_append hx

end

end Lexer

section
variable {start start' : Nat} {c : Char} {r s x : List Char}

theorem lexemes_gap (h : Lexer.isGap c = true) :
    Lexer.lexemes start (c :: x) = Lexer.lexemes (start + c.utf8Size) x := by
  rw [Lexer.lexemes, if_pos h]

theorem lexemes_token (h : Lexer.isGap c = false) :
    Lexer.lexemes start (c :: x) =
      ⟨(Lexer.longest c x).1, start, start + byteSize (c :: (Lexer.longest c x).2)⟩ ::
        Lexer.lexemes (start + byteSize (c :: (Lexer.longest c x).2))
          (x.drop (Lexer.longest c x).2.length) := by
  rw [Lexer.lexemes, if_neg (by simp [h])]

/-- The tokens of a text that holds valid ones only are the same anywhere, before what prolongs
none. -/
theorem spans_lexemes (hx : Lexer.Apart x)
    (h : ∀ text, .invalid text ∉ sentence (Lexer.lexemes start s)) :
    Spans (sentence (Lexer.lexemes start s)) (Lexer.lexemes start' (s ++ x))
      (Lexer.lexemes (start' + byteSize s) x) := by
  fun_induction Lexer.lexemes start s generalizing start' with
  | case1 start => exact rfl
  | case2 start c r hc ih =>
    rw [List.cons_append, lexemes_gap hc, byteSize, ← Nat.add_assoc]
    exact ih h
  | case3 start c r hc token tail hm stop =>
    rename_i ih
    have hgap := Bool.eq_false_iff.mpr hc
    obtain ⟨rest, hr, htakes⟩ := Lexer.longest_taken (r := r) hgap
    rw [hm] at hr htakes
    have htoken : token ≠ .ending := htakes.ne_ending
    rw [sentence_cons htoken] at h ⊢
    have hlongest : Lexer.longest c (r ++ x) = (token, tail) := by
      rw [← hm]
      refine Lexer.longest_append hx fun text ht => h text ?_
      rw [hm] at ht
      exact ht ▸ List.mem_cons_self
    have hdrop : (r ++ x).drop tail.length = r.drop tail.length ++ x := by
      rw [hr, List.append_assoc, List.drop_left, List.drop_left]
    have hsize : start' + byteSize (c :: tail) + byteSize (r.drop tail.length) =
        start' + byteSize (c :: r) := by
      rw [hr, List.drop_left, ← List.cons_append, byteSize_append, Nat.add_assoc]
    rw [List.cons_append, lexemes_token hgap, hlongest]
    refine ⟨rfl, htoken, ?_⟩
    rw [List.drop_succ_cons, List.drop_zero, hdrop, ← hsize]
    exact ih fun text ht => h text (List.mem_cons_of_mem _ ht)

theorem spans_token {u : Token} (start : Nat) (hc : Lexer.isGap c = false) (h : Lexer.longest c (r ++ x) = (u, r))
    (hu : u ≠ .ending) :
    Spans [u] (Lexer.lexemes start (c :: (r ++ x)))
      (Lexer.lexemes (start + byteSize (c :: r)) x) := by
  rw [lexemes_token hc, h]
  refine ⟨rfl, hu, ?_⟩
  rw [List.drop_succ_cons, List.drop_zero, List.drop_left]
  exact rfl

/-- A name before anything that cannot be a part of it. -/
theorem spans_name {name : String} (h : isIdentifier name = true)
    (hx : ∀ c ∈ x.head?, Lexer.isNamePart c = false) :
    Spans [.identifier name] (Lexer.lexemes start (name.toList ++ x))
      (Lexer.lexemes (start + byteSize name.toList) x) := by
  obtain ⟨c, r, hname, hstart, _⟩ := isIdentifier_iff.mp h
  obtain ⟨hgap, hlongest⟩ := Lexer.longest_of_isIdentifier h hname
  rw [hname]
  refine spans_token start hgap ?_ (by simp)
  unfold Lexer.longest Lexer.name at hlongest ⊢
  rw [if_pos hstart] at hlongest ⊢
  rw [Lexer.takeWhile_append_of_stop hx]
  exact hlongest

/-- A symbol that no character prolongs. -/
theorem spans_symbol {s : Symbol} (hc : Lexer.isGap c = false)
    (h : Lexer.longest c x = (.symbol s, [])) :
    Spans [.symbol s] (Lexer.lexemes start (c :: x)) (Lexer.lexemes (start + c.utf8Size) x) :=
  spans_token (r := []) start hc h (by simp)

end

end EventStream
