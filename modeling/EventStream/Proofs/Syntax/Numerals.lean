import EventStream.Expr.Lexer
import EventStream.Proofs.Json.Numerals

namespace EventStream

open EventStream.Json (IsDigits FractionText SignText ExponentText withSign)

section
variable {p : Char → Bool} {s t : List Char}

theorem takeWhile_append_of_head (hs : ∀ c ∈ s, p c = true) (ht : ∀ c ∈ t.head?, p c = false) :
    (s ++ t).takeWhile p = s ∧ (s ++ t).dropWhile p = t := by
  rw [List.takeWhile_append_of_pos hs, List.dropWhile_append_of_pos hs]
  cases t with
  | nil => simp
  | cons c t => simp [ht c rfl]

theorem length_le_takeWhile_append (hs : ∀ c ∈ s, p c = true) :
    s.length ≤ ((s ++ t).takeWhile p).length := by
  rw [List.takeWhile_append_of_pos hs]
  simp

end

/-- A digit is no letter, sign, point or other mark. -/
theorem ne_of_isDigit {c d : Char} (hc : c.isDigit = true) (hd : d.isDigit = false) : c ≠ d := by
  rintro rfl
  rw [hc] at hd
  cases hd

section
variable {whole f e : List Char} {fraction : Option (List Char)} {exponent : Option Int}

theorem numeral?_of_isDigits (h : IsDigits whole) : numeral? whole = some (ofDigits whole) := by
  unfold numeral?
  rw [if_pos ⟨h.1, List.all_eq_true.mpr h.2⟩]

theorem signed?_of_text {negative : Bool} {sign ds : List Char} (hs : SignText negative sign)
    (hd : IsDigits ds) : signed? (sign ++ ds) = some (withSign negative ds) := by
  cases hs with
  | absent =>
    obtain ⟨d, r, rfl⟩ := List.exists_cons_of_ne_nil hd.1
    have hdigit := hd.2 d List.mem_cons_self
    rw [List.nil_append, signed?.eq_3, numeral?_of_isDigits hd]
    · rfl
    · rintro t ⟨⟩
      cases hdigit
    · rintro t ⟨⟩
      cases hdigit
  | plus | minus =>
    simp only [signed?, List.singleton_append, numeral?_of_isDigits hd]
    rfl

theorem exponentPart?_of_text (h : ExponentText exponent e) :
    exponentPart? e = some (exponent.getD 0) := by
  cases h with
  | absent => rfl
  | present hm hs hd =>
    rw [exponentPart?, if_pos hm, signed?_of_text hs hd]
    rfl

theorem head_exponent (h : ExponentText exponent e) :
    ∀ c ∈ e.head?, c.isDigit = false ∧ c ≠ '.' := by
  cases h with
  | absent => simp
  | present hm => rcases hm with rfl | rfl <;> simp

theorem decimal?_of_parts (hw : IsDigits whole) (hf : FractionText fraction f)
    (he : ExponentText exponent e) :
    decimal? (whole ++ f ++ e) =
      some (Decimal.ofParts whole (fraction.getD []) (exponent.getD 0)) := by
  have hmark := head_exponent he
  have hsplit : (whole ++ f ++ e).takeWhile Char.isDigit = whole ∧
      (whole ++ f ++ e).dropWhile Char.isDigit = f ++ e := by
    rw [List.append_assoc]
    apply takeWhile_append_of_head hw.2
    cases hf with
    | absent => exact fun c hc => (hmark c hc).1
    | present => simp
  unfold decimal?
  simp only [hsplit.1, hsplit.2]
  cases hf with
  | absent =>
    cases he with
    | absent => simp [hw.1, exponentPart?]
    | present hm hs hd =>
      have hpart := exponentPart?_of_text (.present hm hs hd)
      rcases hm with rfl | rfl <;> simp [hw.1, hpart]
  | @present ds hd =>
    have hds := takeWhile_append_of_head hd.2 fun c hc => (hmark c hc).1
    simp [hw.1, hds.1, hds.2, exponentPart?_of_text he]

theorem Double.read?_of_parts (hw : IsDigits whole) (hf : FractionText fraction f)
    (he : ExponentText exponent e) :
    Double.read? (whole ++ f ++ e) =
      some ((Decimal.ofParts whole (fraction.getD []) (exponent.getD 0)).toDouble false) := by
  have hdecimal := decimal?_of_parts hw hf he
  obtain ⟨c, r, rfl⟩ := List.exists_cons_of_ne_nil hw.1
  have hc := hw.2 c List.mem_cons_self
  have hlower : c.toLower = c := by
    have := Json.char_isDigit_iff.mp hc
    rw [Char.toLower, dif_neg]
    rintro ⟨h, _⟩
    have : 65 ≤ c.toNat := h
    omega
  have hword : Double.word? false (c :: r ++ f ++ e) = none := by
    simp only [Double.word?, List.cons_append, List.map_cons, hlower]
    split
    case h_4 => rfl
    all_goals
      next h =>
        obtain ⟨rfl, _⟩ := List.cons.inj h
        cases hc
  rw [Double.read?.eq_3, Double.magnitude?, hword, hdecimal]
  · rfl
  · rintro t ⟨⟩
    cases hc
  · rintro t ⟨⟩
    cases hc

end

theorem le_of_word?_eq_none {n : Nat} (h : word? n = none) : 9223372036854775808 ≤ n := by
  unfold word? at h
  split at h
  next => cases h
  next hn => omega

namespace Lexer

section
variable {c : Char} {r s : List Char}

theorem fraction_split (s : List Char) :
    ∃ f, FractionText f (fraction s) ∧ ∃ r, s = fraction s ++ r := by
  unfold fraction
  split
  next r =>
    split
    next => exact ⟨none, .absent, '.' :: r, rfl⟩
    next hne =>
      refine ⟨_, .present ⟨hne, fun _ => List.mem_takeWhile_imp⟩, r.dropWhile Char.isDigit, ?_⟩
      simp
  next => exact ⟨none, .absent, s, rfl⟩

theorem exponent_split (s : List Char) :
    ∃ e, ExponentText e (exponent s) ∧ ∃ r, s = exponent s ++ r := by
  cases s with
  | nil => exact ⟨none, .absent, [], rfl⟩
  | cons c r =>
    obtain ⟨negative, sign, rest, hsign, hr, hmatch⟩ : ∃ negative sign rest,
        SignText negative sign ∧ r = sign ++ rest ∧
        exponent (c :: r) = if (c = 'e' ∨ c = 'E') ∧ rest.takeWhile Char.isDigit ≠ [] then
          c :: (sign ++ rest.takeWhile Char.isDigit) else [] := by
      simp only [exponent]
      split
      next r => exact ⟨false, ['+'], r, .plus, rfl, rfl⟩
      next r => exact ⟨true, ['-'], r, .minus, rfl, rfl⟩
      next => exact ⟨false, [], r, .absent, rfl, rfl⟩
    rw [hmatch]
    split
    next hc =>
      refine ⟨_, .present hc.1 hsign ⟨hc.2, fun _ => List.mem_takeWhile_imp⟩,
        rest.dropWhile Char.isDigit, ?_⟩
      simp [hr]
    next => exact ⟨none, .absent, c :: r, rfl⟩

/-- An exponent at the front of a text is taken whole. -/
theorem length_le_exponent {e : Option Int} (h : ExponentText e s) :
    s.length ≤ (exponent (s ++ r)).length := by
  cases h with
  | absent => exact Nat.zero_le _
  | @present mark negative sign ds hm hs hd =>
    have hmore := length_le_takeWhile_append (t := r) hd.2
    have hne : (ds ++ r).takeWhile Char.isDigit ≠ [] := by
      refine List.ne_nil_of_length_pos (Nat.lt_of_lt_of_le ?_ hmore)
      exact List.length_pos_iff.mpr hd.1
    have heq : exponent (mark :: (sign ++ ds) ++ r) =
        mark :: (sign ++ (ds ++ r).takeWhile Char.isDigit) := by
      cases hs with
      | absent =>
        obtain ⟨d, ds, rfl⟩ := List.exists_cons_of_ne_nil hd.1
        have hdigit := hd.2 d List.mem_cons_self
        have hplus : d ≠ '+' := ne_of_isDigit hdigit rfl
        have hminus : d ≠ '-' := ne_of_isDigit hdigit rfl
        simp_all [exponent]
      | plus => simp_all [exponent]
      | minus => simp_all [exponent]
    rw [heq]
    simpa using hmore

theorem fraction_of_digits {ds t : List Char} (hd : IsDigits ds)
    (ht : ∀ c ∈ t.head?, c.isDigit = false) : fraction ('.' :: (ds ++ t)) = '.' :: ds := by
  simp [fraction, (takeWhile_append_of_head hd.2 ht).1, hd.1]

theorem length_le_fraction {f : Option (List Char)} (h : FractionText f s) :
    s.length ≤ (fraction (s ++ r)).length := by
  cases h with
  | absent => exact Nat.zero_le _
  | @present ds hd =>
    have hmore := length_le_takeWhile_append (t := r) hd.2
    have hpos := List.length_pos_iff.mpr hd.1
    have hne : (ds ++ r).takeWhile Char.isDigit ≠ [] :=
      List.ne_nil_of_length_pos (Nat.lt_of_lt_of_le hpos hmore)
    simpa [fraction, hne] using hmore

def wholeOf (s : List Char) : List Char :=
  s.takeWhile Char.isDigit

def pointOf (s : List Char) : List Char :=
  fraction (s.drop (wholeOf s).length)

def powerOf (s : List Char) : List Char :=
  exponent (s.drop ((wholeOf s).length + (pointOf s).length))

/-- The digits at the front of a text, with their fraction and their exponent. -/
def numeral (s : List Char) : List Char :=
  wholeOf s ++ pointOf s ++ powerOf s

theorem number_snd : (number c r).2 = numeral r := by
  unfold number
  simp only
  split <;> split <;> rfl

theorem number_congr {r' : List Char} (hw : wholeOf r = wholeOf r') (hp : pointOf r = pointOf r')
    (he : powerOf r = powerOf r') : number c r = number c r' := by
  unfold powerOf pointOf wholeOf at he
  unfold pointOf wholeOf at hp
  unfold wholeOf at hw
  unfold number
  simp only [he]
  simp only [hp]
  simp only [hw]

theorem drop_of_eq_append {a b : List Char} (h : s = a ++ b) : s.drop a.length = b := by
  rw [h, List.drop_left]

theorem numeral_split (s : List Char) :
    ∃ fr ex rest, s = numeral s ++ rest ∧ FractionText fr (pointOf s) ∧
      ExponentText ex (powerOf s) := by
  have hs : s = wholeOf s ++ s.dropWhile Char.isDigit := s.takeWhile_append_dropWhile.symm
  obtain ⟨fr, hf, r, hr⟩ := fraction_split (s.dropWhile Char.isDigit)
  rw [← drop_of_eq_append hs] at hf hr
  have hpoint : s = wholeOf s ++ pointOf s ++ r := by
    rw [List.append_assoc, pointOf, ← hr, drop_of_eq_append hs, ← hs]
  obtain ⟨ex, he, rest, hrest⟩ := exponent_split r
  rw [← drop_of_eq_append hpoint, List.length_append] at he hrest
  refine ⟨fr, ex, rest, ?_, hf, he⟩
  rw [numeral, List.append_assoc, powerOf, ← hrest, ← List.length_append, drop_of_eq_append hpoint,
    ← hpoint]

/-- What has the form of a number at the front of a text is no longer than what is taken. -/
theorem length_le_numeral {whole f e x : List Char} {fr : Option (List Char)} {ex : Option Int}
    (hw : ∀ c ∈ whole, c.isDigit = true) (hf : FractionText fr f) (he : ExponentText ex e) :
    (whole ++ f ++ e).length ≤ (numeral (whole ++ f ++ e ++ x)).length := by
  have hmark : ∀ c ∈ e.head?, c.isDigit = false := fun c hc => (head_exponent he c hc).1
  by_cases hnone : f = [] ∧ e = []
  · obtain ⟨rfl, rfl⟩ := hnone
    have := length_le_takeWhile_append (t := x) hw
    simp only [numeral, wholeOf, List.append_nil, List.length_append]
    omega
  have hwhole : (whole ++ (f ++ (e ++ x))).takeWhile Char.isDigit = whole := by
    refine (takeWhile_append_of_head hw ?_).1
    cases hf with
    | absent => cases he <;> simp_all
    | present => simp
  simp only [numeral, powerOf, pointOf, wholeOf, List.append_assoc, hwhole, List.drop_left,
    List.length_append]
  cases he with
  | absent =>
    have := length_le_fraction (r := x) hf
    simp only [List.nil_append, List.length_nil]
    omega
  | @present mark negative sign ds hm hs hd =>
    have hpoint : fraction (f ++ (mark :: (sign ++ ds) ++ x)) = f := by
      cases hf with
      | absent => rcases hm with rfl | rfl <;> rfl
      | present hd => exact fraction_of_digits hd (by simpa using hmark)
    have := length_le_exponent (r := x) (.present hm hs hd)
    have hpower (t : List Char) : (whole ++ (f ++ t)).drop (whole.length + f.length) = t := by
      rw [← List.length_append, ← List.append_assoc, List.drop_left]
    rw [hpoint, hpower]
    omega

end

end Lexer

end EventStream
