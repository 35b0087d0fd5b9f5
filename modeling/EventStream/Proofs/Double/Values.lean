import EventStream.Proofs.Double.Nearest

namespace EventStream.Double

/-- The number that a finite double stands for. -/
def value : Double → ℚ
  | .finite s u _ => signed s u / one
  | _ => 0

/-- The double nearest to a number. -/
def ofRat (q : ℚ) : Double :=
  ofQuotient (q < 0) (q.num.natAbs * one) q.den

/-- A number as the nearest double has it. -/
def rounded (q : ℚ) : ℚ :=
  (ofRat q).value

/-- A double stands for this number. -/
def IsExact (q : ℚ) : Prop :=
  ∃ d : Double, d.value = q

theorem signed_natAbs (n : Int) : signed (n < 0) n.natAbs = n := by
  unfold signed
  split
  next h =>
    have := of_decide_eq_true h
    omega
  next h =>
    have := of_decide_eq_false (Bool.not_eq_true _ ▸ h)
    omega

theorem natAbs_signed (s : Bool) (u : Nat) : (signed s u).natAbs = u := by
  cases s <;> simp [signed]

theorem one_pos_rat : (0 : ℚ) < one :=
  Nat.cast_pos.mpr one_pos

theorem value_finite (s : Bool) {u : Nat} (hu : Fits u) :
    (finite s u hu).value = signed s u / one :=
  rfl

theorem ofRat_intCast (n : Int) : ofRat n = ofInt n := by
  rw [ofRat, ofInt, Rat.num_intCast, Rat.den_intCast]
  simp

section
variable {n : Int} {u : Nat} {q : ℚ}

theorem value_finite_of_signed (hu : Fits u) (h : n.natAbs = u) :
    (finite (n < 0) u hu).value = n / one := by
  subst h
  rw [value_finite, signed_natAbs]

theorem ofRat_of_units (hu : Fits n.natAbs) (h : n / one = q) :
    ofRat q = .finite (n < 0) n.natAbs hu := by
  have hsign : q < 0 ↔ n < 0 := by
    rw [← h, div_lt_iff₀ one_pos_rat, zero_mul, Int.cast_lt_zero]
  have hunits : q.num.natAbs * one = n.natAbs * q.den := by
    have hq : |(q.num : ℚ)| * one = |(n : ℚ)| * q.den := by
      rw [← Rat.mul_den_eq_num, abs_mul, ← h, abs_div, Nat.abs_cast, Nat.abs_cast, mul_right_comm,
        div_mul_cancel₀ _ one_pos_rat.ne']
    have hcast : ((q.num.natAbs * one : Nat) : ℚ) = (n.natAbs * q.den : Nat) := by
      push_cast [Nat.cast_natAbs]
      exact hq
    exact Nat.cast_injective hcast
  rw [ofRat, hunits, ← Nat.one_mul q.den, ← Nat.mul_assoc, Nat.mul_one, ofQuotient_mul q.den_pos]
  simp only [hsign]
  exact ofQuotient_eq hu (nearest_of_fits hu)

theorem rounded_value (d : Double) : rounded d.value = d.value := by
  have hall (m : Int) (hu : Fits m.natAbs) : rounded (m / one) = m / one := by
    rw [rounded, ofRat_of_units hu rfl]
    exact value_finite_of_signed hu rfl
  cases d with
  | nan | infinity =>
    have hzero := hall 0 fits_zero
    rwa [Int.cast_zero, zero_div] at hzero
  | finite s u hu =>
    have := hall (signed s u) ((natAbs_signed s u).symm ▸ hu)
    exact this

theorem rounded_eq_self : rounded q = q ↔ IsExact q := by
  constructor
  · exact fun h => ⟨_, h⟩
  · rintro ⟨d, rfl⟩
    exact rounded_value d

theorem signed_mul (s : Bool) (u v : Nat) : signed s (u * v) = signed s u * v := by
  cases s <;> simp [signed]

theorem fits_of_natAbs_le (h : n.natAbs ≤ 2 ^ 53) : Fits (n.natAbs * one) := by
  obtain ⟨k, _, hone, hbound⟩ := exists_powers
  have hlt : n.natAbs * one < bound := by
    rw [hbound, hone]
    calc n.natAbs * 2 ^ k ≤ 2 ^ 53 * 2 ^ k := Nat.mul_le_mul_right _ h
      _ = 2 ^ (53 + k) := (pow_add 2 53 k).symm
      _ < 2 ^ (1024 + k) := Nat.pow_lt_pow_right (by omega) (by omega)
  have hdvd : spacing (n.natAbs * one) ∣ n.natAbs * one := by
    rw [hone]
    exact spacing_mul_two_pow_dvd h
  exact ⟨hdvd, hlt⟩

theorem isExact_of_natAbs_le (h : n.natAbs ≤ 2 ^ 53) : IsExact n := by
  refine ⟨finite (n < 0) (n.natAbs * one) (fits_of_natAbs_le h), ?_⟩
  rw [value_finite, signed_mul, signed_natAbs, Int.cast_mul, Int.cast_natCast,
    mul_div_cancel_right₀ _ one_pos_rat.ne']

/-- The place of a whole number is that many times the place of one. -/
theorem place?_of_whole? {d : Double} (h : d.whole? = some n) : d.place? = some (n * one) := by
  cases d with
  | nan => cases h
  | infinity => cases h
  | finite s u hu =>
    rw [whole?_finite] at h
    split at h
    next hone =>
      obtain ⟨k, hk⟩ := hone
      rw [hk, Nat.mul_div_cancel_left k one_pos] at h
      rw [place?_finite, ← Option.some.inj h, ← signed_mul, hk, Nat.mul_comm]
    next => cases h

theorem place?_ofInt_of_natAbs_le (h : n.natAbs ≤ 2 ^ 53) :
    (ofInt n).place? = some (n * one) := by
  have hfits := fits_of_natAbs_le h
  rw [ofInt, ofQuotient_eq hfits (nearest_of_fits hfits), place?_finite, signed_mul, signed_natAbs]

theorem nearest_one_le (m : Nat) : nearest m 1 ≤ 2 * m + 1 := by
  have hstep : spacing m ≤ m + 1 := by
    by_cases hm : m = 0
    · subst hm
      exact Nat.le_refl 1
    · calc spacing m = 2 ^ (m.log2 - 52) := spacing_eq_two_pow m
        _ ≤ 2 ^ m.log2 := Nat.pow_le_pow_right (by omega) (Nat.sub_le _ _)
        _ ≤ m := Nat.log2_self_le hm
        _ ≤ m + 1 := Nat.le_succ m
  have hround : roundHalfEven m (spacing m) ≤ m / spacing m + 1 := by
    rcases roundHalfEven_eq_or m (spacing m) with h | h <;> omega
  unfold nearest
  simp only [Nat.div_one, Nat.one_mul]
  calc roundHalfEven m (spacing m) * spacing m ≤ (m / spacing m + 1) * spacing m :=
        Nat.mul_le_mul_right _ hround
    _ = m / spacing m * spacing m + spacing m := Nat.succ_mul _ _
    _ ≤ 2 * m + 1 := by
      have := Nat.div_mul_le_self m (spacing m)
      omega

/-- Integers of 64 bits are far below the largest double. -/
theorem isFinite_ofInt (h : n.natAbs ≤ 2 ^ 64) : (ofInt n).isFinite = true := by
  obtain ⟨k, _, hone, hbound⟩ := exists_powers
  have hlt : nearest (n.natAbs * one) 1 < bound := by
    calc nearest (n.natAbs * one) 1 ≤ 2 * (n.natAbs * one) + 1 := nearest_one_le _
      _ ≤ 2 * (2 ^ 64 * one) + 1 := by
        have := Nat.mul_le_mul_right one h
        omega
      _ < 2 ^ 66 * one := by
        have := one_pos
        omega
      _ = 2 ^ (66 + k) := by rw [hone, pow_add]
      _ ≤ 2 ^ (1024 + k) := Nat.pow_le_pow_right (by omega) (by omega)
      _ = bound := hbound.symm
  unfold ofInt ofQuotient
  rw [dif_pos hlt]
  rfl

theorem value_of_whole? {d : Double} (h : d.whole? = some n) : d.value = n := by
  cases d with
  | nan => cases h
  | infinity => cases h
  | finite s u hu =>
    rw [whole?_finite] at h
    split at h
    next hone =>
      obtain ⟨k, hk⟩ := hone
      rw [hk, Nat.mul_div_cancel_left k one_pos] at h
      rw [← Option.some.inj h, value_finite, hk, Nat.mul_comm, signed_mul, Int.cast_mul,
        Int.cast_natCast, mul_div_cancel_right₀ _ one_pos_rat.ne']
    next => cases h

end

section
variable {n d u v : Nat} {q : ℚ}

/-- A quotient that is not reduced. -/
theorem ofQuotient_eq_ofRat (hd : 0 < d) : ofQuotient false (n * one) d = ofRat (n / d) := by
  have hd' : (d : ℚ) ≠ 0 := Nat.cast_ne_zero.mpr hd.ne'
  have hq : (0 : ℚ) ≤ n / d := div_nonneg (Nat.cast_nonneg n) (Nat.cast_nonneg d)
  generalize hquot : (n / d : ℚ) = q at hq
  have hcross : n * q.den = q.num.natAbs * d := by
    have hnum : (q.num.natAbs : ℚ) = q.num := by
      rw [Nat.cast_natAbs, abs_of_nonneg (Rat.num_nonneg.mpr hq)]
    have hmul : (n : ℚ) * q.den = q.num * d := by
      rw [← Rat.mul_den_eq_num, ← hquot]
      field_simp
    rw [← hnum] at hmul
    exact_mod_cast hmul
  have hcommon : n * one * q.den = q.num.natAbs * one * d := by
    rw [Nat.mul_right_comm, hcross, Nat.mul_right_comm]
  rw [ofRat, decide_eq_false (not_lt.mpr hq), ← ofQuotient_mul q.den_pos, hcommon,
    Nat.mul_comm d, ofQuotient_mul hd]

/-- What is not negative is rounded to a number without a sign, or is too large. -/
theorem ofRat_of_nonneg (hq : 0 ≤ q) :
    (∃ u hu, ofRat q = .finite false u hu) ∨ ofRat q = .infinity false := by
  rw [ofRat, decide_eq_false (not_lt.mpr hq), ofQuotient]
  split
  next h => exact .inl ⟨_, ⟨spacing_nearest_dvd _ _, h⟩, rfl⟩
  next => exact .inr rfl

theorem value_of_nonneg (hu : Fits u) : (finite false u hu).value = u / one := by
  rw [value_finite, signed, if_neg Bool.false_ne_true, Int.cast_natCast]

theorem mul_eq_ofRat (hu : Fits u) (hv : Fits v) :
    (finite false u hu).mul (finite false v hv) =
      ofRat ((finite false u hu).value * (finite false v hv).value) := by
  have hquot : (finite false u hu).value * (finite false v hv).value =
      (u * v : Nat) / (one * one : Nat) := by
    rw [value_of_nonneg, value_of_nonneg, div_mul_div_comm, Nat.cast_mul, Nat.cast_mul]
  rw [hquot, ← ofQuotient_eq_ofRat (Nat.mul_pos one_pos one_pos), ofQuotient_mul one_pos]
  rfl

/-- The nearest whole number, a half going up. -/
theorem round?_finite (hu : Fits u) :
    (finite false u hu).round? = some ⌊(finite false u hu).value + 1 / 2⌋ := by
  have hone := one_pos_rat.ne'
  have hround : (finite false u hu).value + 1 / 2 = (2 * u + one : Nat) / (2 * one : Nat) := by
    rw [value_of_nonneg]
    push_cast
    field_simp
  rw [hround, Rat.floor_natCast_div_natCast]
  rfl

theorem mul_ofNat_eq_ofRat (hu : Fits u) (hn : n ≤ 2 ^ 53) :
    (finite false u hu).mul (ofNat n) = ofRat ((finite false u hu).value * n) := by
  have hexact : rounded ((n : Int) : ℚ) = (n : Int) :=
    rounded_eq_self.mpr (isExact_of_natAbs_le (by omega))
  have hfinite := isFinite_ofInt (n := n) (by omega)
  have hcases := ofRat_of_nonneg (q := ((n : Int) : ℚ)) (by positivity)
  rw [rounded, ofRat_intCast, Int.cast_natCast] at hexact
  rw [ofRat_intCast] at hcases
  rcases hcases with ⟨v, hv, h⟩ | h
  · rw [h] at hexact
    rw [ofNat, h, mul_eq_ofRat, hexact]
  · rw [h] at hfinite
    cases hfinite

end

end EventStream.Double
