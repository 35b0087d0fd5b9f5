import EventStream.Config.Fraction
import EventStream.Proofs.Config.Segments
import EventStream.Proofs.Double.Values

namespace EventStream.Duration

open Double (rounded)

/-- What the digits before and after a point write. -/
def decimalValue (whole fraction : List Char) : ℚ :=
  ofDigits (whole ++ fraction) / 10 ^ fraction.length

/-- The nanoseconds of a number of units: the number nearest to the product of the nearest number
and the unit, then the nearest whole one that 64 bits hold. -/
def roundedNanos (q : ℚ) (u : TimeUnit) : Nat :=
  min ⌊rounded (rounded q * u.nanos) + 1 / 2⌋.toNat (limit - 1)

section
variable {number unit whole fraction name : List Char} {c : Char} {v : Double} {n scale : Nat}

theorem isNumeral_iff : isNumeral c = true ↔ c.isDigit = true ∨ c = '.' := by
  simp [isNumeral]

theorem isNumeral_of_isDigit (h : c.isDigit = true) : isNumeral c = true :=
  isNumeral_iff.mpr (.inl h)

theorem code_of_isNumeral (h : isNumeral c = true) :
    c.toNat = 46 ∨ (48 ≤ c.toNat ∧ c.toNat ≤ 57) := by
  rcases isNumeral_iff.mp h with h | rfl
  · exact .inr (Json.char_isDigit_iff.mp h)
  · exact .inl rfl

theorem read?_of_numerals (hn : ∀ c ∈ number, isNumeral c = true) :
    Double.read? number = (decimal? number).map (Decimal.toDouble false) := by
  cases number with
  | nil => rfl
  | cons c r =>
    have hcode := code_of_isNumeral (hn c List.mem_cons_self)
    have hne (d : Char) (hd : d.toNat < 46 ∨ 57 < d.toNat) : c ≠ d := by
      rintro rfl
      omega
    have hlower : c.toLower = c := by
      rw [Char.toLower, dif_neg]
      rintro ⟨h, _⟩
      have : 65 ≤ c.toNat := h
      omega
    have hword : Double.word? false (c :: r) = none := by
      simp only [Double.word?, List.map_cons, hlower]
      split
      case h_4 => rfl
      all_goals
        next h =>
          exact absurd (List.cons.inj h).1 (hne _ (by decide))
    rw [Double.read?.eq_3, Double.magnitude?, hword]
    · rfl
    · rintro t h
      exact hne '-' (by decide) (List.cons.inj h).1
    · rintro t h
      exact hne '+' (by decide) (List.cons.inj h).1

theorem decimal?_point (hw : ∀ c ∈ whole, c.isDigit = true) (r : List Char) :
    decimal? (whole ++ '.' :: r) =
      if whole = [] ∧ r.takeWhile Char.isDigit = [] then none
      else (exponentPart? (r.dropWhile Char.isDigit)).map
        (Decimal.ofParts whole (r.takeWhile Char.isDigit)) := by
  have hsplit := takeWhile_append_of_head hw (t := '.' :: r) (by simp)
  unfold decimal?
  simp only [hsplit.1, hsplit.2]

theorem read?_of_point (hd : ∀ c ∈ whole ++ fraction, c.isDigit = true)
    (hne : whole ++ fraction ≠ []) :
    Double.read? (whole ++ '.' :: fraction) =
      some ((Decimal.ofParts whole fraction 0).toDouble false) := by
  have hw : ∀ c ∈ whole, c.isDigit = true := fun c hc => hd c (List.mem_append_left _ hc)
  have hf : ∀ c ∈ fraction, c.isDigit = true := fun c hc => hd c (List.mem_append_right _ hc)
  have hall := takeWhile_append_of_head hf (t := []) (by simp)
  rw [List.append_nil] at hall
  rw [read?_of_numerals, decimal?_point hw, hall.1, hall.2, if_neg]
  · rfl
  · rintro ⟨rfl, rfl⟩
    exact hne rfl
  · intro c hc
    rcases List.mem_append.mp hc with hc | hc
    · exact isNumeral_of_isDigit (hw c hc)
    · rcases List.mem_cons.mp hc with rfl | hc
      · rfl
      · exact isNumeral_of_isDigit (hf c hc)

/-- Of a number with points only the one with digits around one point is read. -/
theorem point_of_read? (hn : ∀ c ∈ number, isNumeral c = true) (hdot : '.' ∈ number)
    (h : Double.read? number = some v) : ∃ whole fraction, number = whole ++ '.' :: fraction ∧
      (∀ c ∈ whole ++ fraction, c.isDigit = true) ∧ whole ++ fraction ≠ [] := by
  obtain ⟨whole, c, r, rfl, hw, hc⟩ := exists_first_not (p := Char.isDigit) fun hall =>
    absurd (hall '.' hdot) (by decide)
  obtain rfl : c = '.' := by simpa [hc] using isNumeral_iff.mp (hn c (by simp))
  rw [read?_of_numerals hn, decimal?_point hw] at h
  obtain ⟨d, hd, _⟩ := Option.map_eq_some_iff.mp h
  obtain ⟨hne, hd⟩ := Option.ite_none_left_eq_some.mp hd
  have hr : ∀ c ∈ r, c.isDigit = true := by
    by_contra hnot
    obtain ⟨f, c, t, rfl, hf, hc⟩ := exists_first_not hnot
    obtain rfl : c = '.' := by simpa [hc] using isNumeral_iff.mp (hn c (by simp))
    have hsplit := takeWhile_append_of_head hf (t := '.' :: t) (by simp)
    rw [hsplit.2] at hd
    cases hd
  refine ⟨whole, r, rfl, fun c hc => (List.mem_append.mp hc).elim (hw c) (hr c), fun hnil => hne ?_⟩
  obtain ⟨rfl, rfl⟩ := List.append_eq_nil_iff.mp hnil
  exact ⟨rfl, rfl⟩

theorem toDouble_ofParts (whole fraction : List Char) :
    (Decimal.ofParts whole fraction 0).toDouble false =
      Double.ofRat (decimalValue whole fraction) := by
  have hten : 0 < 10 ^ fraction.length := Nat.pow_pos (by omega)
  rw [Decimal.toDouble_eq, Decimal.ofParts]
  simp only
  rw [show ((0 : Int) - fraction.length).toNat = 0 by omega,
    show (-((0 : Int) - fraction.length)).toNat = fraction.length by omega, pow_zero, Nat.mul_one,
    Double.ofQuotient_eq_ofRat hten, decimalValue, Nat.cast_pow, Nat.cast_ofNat]

/-- The names of units that take a fraction are among the names of units. -/
theorem unit_of_fractionScale? (h : fractionScale? name = some scale) :
    ∃ u, TimeUnit.ofName? (String.ofList name) = some u ∧ scale = u.nanos ∧
      u.nanos ≤ 2 ^ 53 := by
  unfold fractionScale? at h
  obtain ⟨u, hu, rfl⟩ := Option.map_eq_some_iff.mp h
  obtain ⟨_, _, hlist, _⟩ := List.lookup_eq_some_iff.mp hu
  have hnames : ∀ x ∈ [(['n', 's'], TimeUnit.nanosecond), (['u', 's'], .microsecond),
      (['m', 's'], .millisecond), (['s'], .second), (['m'], .minute), (['h'], .hour)],
      TimeUnit.ofName? (String.ofList x.1) = some x.2 ∧ x.2.nanos ≤ 2 ^ 53 := by decide
  obtain ⟨hname, hle⟩ := hnames (name, u) (by simp [hlist])
  exact ⟨u, hname, rfl, hle⟩

theorem decimalValue_nonneg (whole fraction : List Char) : 0 ≤ decimalValue whole fraction :=
  div_nonneg (Nat.cast_nonneg _) (by positivity)

theorem round?_product {q : ℚ} {m : Int} {u : TimeUnit} (hq : 0 ≤ q)
    (hunit : u.nanos ≤ 2 ^ 53)
    (h : ((Double.ofRat q).mul (.ofNat u.nanos)).round? = some m) :
    m = ⌊rounded (rounded q * u.nanos) + 1 / 2⌋ := by
  rcases Double.ofRat_of_nonneg hq with ⟨k, hk, hvalue⟩ | hvalue
  · have hnonneg : 0 ≤ rounded q * u.nanos := by
      rw [rounded, hvalue, Double.value_of_nonneg]
      exact mul_nonneg (div_nonneg (Nat.cast_nonneg _) (Nat.cast_nonneg _)) (Nat.cast_nonneg _)
    rw [hvalue, Double.mul_ofNat_eq_ofRat hk hunit, ← hvalue, ← rounded] at h
    rcases Double.ofRat_of_nonneg hnonneg with ⟨l, hl, hproduct⟩ | hproduct
    · rw [hproduct, Double.round?_finite, ← hproduct, ← rounded] at h
      exact (Option.some.inj h).symm
    · rw [hproduct] at h
      cases h
  · rw [hvalue] at h
    cases hscale : Double.ofNat u.nanos with
    | nan | infinity =>
      rw [hscale] at h
      cases h
    | finite s k hk =>
      rw [hscale, Double.mul] at h
      split at h <;> cases h

/-- The whole nanoseconds put for a number with a point. -/
theorem fractionNanos_eq_ok (hn : ∀ c ∈ number, isNumeral c = true) (hdot : '.' ∈ number)
    (h : fractionNanos number unit = .ok n) :
    ∃ whole fraction u, number = whole ++ '.' :: fraction ∧
      (∀ c ∈ whole ++ fraction, c.isDigit = true) ∧ whole ++ fraction ≠ [] ∧
      TimeUnit.ofName? (String.ofList (trim unit)) = some u ∧
      n = roundedNanos (decimalValue whole fraction) u := by
  unfold fractionNanos at h
  simp only at h
  split at h
  next => split at h <;> cases h
  next scale hscale =>
    obtain ⟨u, hu, rfl, hle⟩ := unit_of_fractionScale? hscale
    split at h
    next => cases h
    next value hvalue =>
      obtain ⟨whole, fraction, rfl, hd, hne⟩ := point_of_read? hn hdot hvalue
      rw [read?_of_point hd hne, toDouble_ofParts] at hvalue
      obtain rfl := Option.some.inj hvalue
      refine ⟨whole, fraction, u, rfl, hd, hne, hu, ?_⟩
      split at h
      next => cases h
      next m hm =>
        obtain ⟨_, h⟩ := refused_unless_eq_ok h
        rw [← Except.ok.inj h, roundedNanos,
          round?_product (decimalValue_nonneg _ _) hle hm]

theorem fractionNanos_half_second : fractionNanos ['0', '.', '5'] ['s'] = .ok 500000000 := by
  have h : (fractionNanos ['0', '.', '5'] ['s']).toOption = some 500000000 := by decide +kernel
  cases hnanos : fractionNanos ['0', '.', '5'] ['s'] with
  | error e =>
    rw [hnanos] at h
    cases h
  | ok n =>
    rw [hnanos] at h
    exact congrArg Except.ok (Option.some.inj h)

theorem read?_zero_cons (hn : ∀ c ∈ number, isNumeral c = true) (hdot : '.' ∈ number)
    (h : Double.read? number = some v) : Double.read? ('0' :: number) = some v := by
  obtain ⟨whole, fraction, rfl, hd, hne⟩ := point_of_read? hn hdot h
  have hzero : Decimal.ofParts ('0' :: whole) fraction 0 = Decimal.ofParts whole fraction 0 := by
    rw [Decimal.ofParts, Decimal.ofParts, List.cons_append]
    exact congrArg (Decimal.mk · _) (Json.ofDigits_zeros_append 1 _)
  have hdigits : ∀ c ∈ '0' :: whole ++ fraction, c.isDigit = true :=
    List.forall_mem_cons.mpr ⟨by decide, hd⟩
  rw [read?_of_point hd hne] at h
  rw [← List.cons_append, read?_of_point hdigits (by simp), hzero, h]

/-- A zero in front of a number with a point does not change it. -/
theorem fractionNanos_zero_cons (hn : ∀ c ∈ number, isNumeral c = true) (hdot : '.' ∈ number)
    (h : fractionNanos number unit = .ok n) : fractionNanos ('0' :: number) unit = .ok n := by
  unfold fractionNanos at h ⊢
  simp only at h ⊢
  cases hscale : fractionScale? (trim unit) with
  | none =>
    rw [hscale] at h
    simp only at h
    split at h <;> cases h
  | some scale =>
    rw [hscale] at h
    simp only at h ⊢
    cases hread : Double.read? number with
    | none =>
      rw [hread] at h
      cases h
    | some value =>
      rw [hread] at h
      rw [read?_zero_cons hn hdot hread]
      exact h

end

end EventStream.Duration
