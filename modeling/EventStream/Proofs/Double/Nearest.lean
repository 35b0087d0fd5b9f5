import EventStream.Double.Arithmetic
import Mathlib

namespace EventStream

theorem roundHalfEven_eq {n d k : Nat} (hd : 0 < d) (low : 2 * (k * d) ≤ 2 * n + d)
    (high : 2 * n ≤ 2 * (k * d) + d)
    (tie : k % 2 = 0 ∨ 2 * (k * d) < 2 * n + d ∧ 2 * n < 2 * (k * d) + d) :
    roundHalfEven n d = k := by
  have hn := Nat.div_add_mod n d
  have hr := Nat.mod_lt n hd
  have hq : k = n / d ∨ k = n / d + 1 := by
    rcases Nat.lt_trichotomy k (n / d) with h | h | h
    · have := Nat.mul_le_mul_left d (Nat.succ_le_of_lt h)
      rw [Nat.mul_succ, Nat.mul_comm d k] at this
      omega
    · exact .inl h
    · by_contra hne
      have := Nat.mul_le_mul_left d (show n / d + 2 ≤ k by omega)
      rw [Nat.mul_add, Nat.mul_comm d k] at this
      omega
  unfold roundHalfEven
  simp only []
  generalize n / d = q at *
  generalize n % d = r at *
  rcases hq with rfl | rfl
  · rw [Nat.mul_comm d k] at hn
    split
    · rfl
    · split <;> omega
  · rw [Nat.add_mul, Nat.mul_comm q d, Nat.one_mul] at low high tie
    split
    · omega
    · split <;> omega

theorem roundHalfEven_mul {n d k : Nat} (hk : 0 < k) :
    roundHalfEven (n * k) (d * k) = roundHalfEven n d := by
  have hlt : ∀ a b : Nat, a * k < b * k ↔ a < b := fun a b => Nat.mul_lt_mul_right hk
  unfold roundHalfEven
  simp only [Nat.mul_div_mul_right n d hk, Nat.mul_mod_mul_right k n d, ← Nat.mul_assoc, hlt]

namespace Double

theorem nearest_mul {n d k : Nat} (hk : 0 < k) : nearest (n * k) (d * k) = nearest n d := by
  unfold nearest
  simp only [Nat.mul_div_mul_right n d hk, Nat.mul_right_comm d k, roundHalfEven_mul hk]

theorem ofQuotient_mul {negative : Bool} {n d k : Nat} (hk : 0 < k) :
    ofQuotient negative (n * k) (d * k) = ofQuotient negative n d := by
  unfold ofQuotient
  simp only [nearest_mul hk]

theorem ofQuotient_eq {negative : Bool} {n d u : Nat} (hu : Fits u) (h : nearest n d = u) :
    ofQuotient negative n d = .finite negative u hu := by
  subst h
  exact dif_pos hu.2

theorem spacing_eq {v e : Nat} (low : 2 ^ 52 * 2 ^ e ≤ v) (high : v < 2 ^ 53 * 2 ^ e) :
    spacing v = 2 ^ e := by
  rw [← Nat.pow_add] at low high
  have hv : v ≠ 0 := by have := Nat.two_pow_pos (52 + e); omega
  have hlog : v.log2 = 52 + e := (Nat.log2_eq_iff hv).mpr ⟨low, by rwa [Nat.add_right_comm]⟩
  rw [spacing, hlog, Nat.add_sub_cancel_left, Nat.pow_eq]

/-- Among the numbers as wide apart as `step`. -/
theorem nearest_eq {n d m step : Nat} (hd : 0 < d) (hs : spacing (n / d) = step)
    (low : 2 * (m * (d * step)) ≤ 2 * n + d * step) (high : 2 * n ≤ 2 * (m * (d * step)) + d * step)
    (tie : m % 2 = 0 ∨
      2 * (m * (d * step)) < 2 * n + d * step ∧ 2 * n < 2 * (m * (d * step)) + d * step) :
    nearest n d = m * step := by
  have hpos : 0 < d * step := Nat.mul_pos hd (hs ▸ spacing_pos _)
  unfold nearest
  simp only [hs, roundHalfEven_eq hpos low high tie]

section
variable {u n d : Nat}

theorem spacing_eq_two_pow (u : Nat) : spacing u = 2 ^ (u.log2 - 52) :=
  rfl

/-- A number is a multiple of its spacing by less than `2 ^ 53`, and by `2 ^ 52` at least where the
spacing is more than one unit. -/
theorem exists_significand (hu : spacing u ∣ u) :
    ∃ m, u = m * spacing u ∧ m < 2 ^ 53 ∧ (spacing u = 1 ∨ 2 ^ 52 ≤ m) := by
  obtain ⟨m, hm⟩ := hu
  refine ⟨m, by rw [Nat.mul_comm]; exact hm, ?_, ?_⟩
  · have hlt := div_spacing_lt u
    rwa [show u / spacing u = m from Nat.div_eq_of_eq_mul_right (spacing_pos u) hm] at hlt
  · by_cases hlog : u.log2 < 53
    · left
      rw [spacing_eq_two_pow, show u.log2 - 52 = 0 by omega, pow_zero]
    · right
      have hne : u ≠ 0 := by rintro rfl; simp at hlog
      have hle := Nat.log2_self_le hne
      rw [spacing_eq_two_pow] at hm
      have hsplit : 2 ^ u.log2 = 2 ^ (u.log2 - 52) * 2 ^ 52 := by
        rw [← pow_add]; congr 1; omega
      rw [hsplit] at hle
      conv at hle => rhs; rw [hm]
      exact Nat.le_of_mul_le_mul_left hle (Nat.two_pow_pos _)

end

theorem nearest_eq_zero {n d : Nat} (h : 2 * n < d) : nearest n d = 0 := by
  have hq : n / d = 0 := Nat.div_eq_of_lt (by omega)
  unfold nearest
  rw [hq, show spacing 0 = 1 from rfl, Nat.mul_one, Nat.mul_one]
  exact roundHalfEven_eq (by omega) (by omega) (by omega) (.inl rfl)

/-- Rounding does not go below a power of two. -/
theorem le_nearest_one {n k : Nat} (hk : 52 ≤ k) (h : 2 ^ k ≤ n) : 2 ^ k ≤ nearest n 1 := by
  have hn : n ≠ 0 := by have := Nat.two_pow_pos k; omega
  have hlog : k ≤ n.log2 := (Nat.le_log2 hn).mpr h
  have hstep : spacing n * 2 ^ 52 = 2 ^ n.log2 := by
    rw [spacing_eq_two_pow, ← pow_add]
    congr 1
    omega
  have hround : 2 ^ 52 ≤ roundHalfEven n (1 * spacing n) := by
    have hq : 2 ^ 52 ≤ n / spacing n := by
      rw [Nat.le_div_iff_mul_le (spacing_pos n), Nat.mul_comm, hstep]
      exact Nat.log2_self_le hn
    rw [Nat.one_mul]
    rcases roundHalfEven_eq_or n (spacing n) with h | h <;> omega
  calc 2 ^ k ≤ 2 ^ n.log2 := Nat.pow_le_pow_right (by omega) hlog
    _ = 2 ^ 52 * spacing n := by rw [← hstep, Nat.mul_comm]
    _ ≤ nearest n 1 := by
      unfold nearest
      simp only [Nat.div_one]
      exact Nat.mul_le_mul_right _ hround

/-- The units as powers of two, with an exponent that is not computed with. -/
theorem exists_powers : ∃ k : Nat, k = 1074 ∧ one = 2 ^ k ∧ bound = 2 ^ (1024 + k) := by
  obtain ⟨k, hk⟩ : ∃ k : Nat, k = 1074 := ⟨_, rfl⟩
  refine ⟨k, hk, ?_, ?_⟩
  · unfold one
    rw [← hk]
    rfl
  · unfold bound
    rw [show 2098 = 1024 + k by omega]
    rfl

theorem ofQuotient_zero (negative : Bool) {d : Nat} (hd : 0 < d) :
    ofQuotient negative 0 d = .finite negative 0 fits_zero :=
  ofQuotient_eq fits_zero (nearest_eq_zero hd)

/-- A number is rounded to itself. -/
theorem nearest_of_fits {u : Nat} (hu : Fits u) : nearest u 1 = u := by
  obtain ⟨m, hm⟩ := hu.1
  have hdiv : u / spacing u = m := Nat.div_eq_of_eq_mul_right (spacing_pos u) hm
  have hmod : u % spacing u = 0 := Nat.mod_eq_zero_of_dvd hu.1
  have hround : roundHalfEven u (spacing u) = m := by
    simp [roundHalfEven, hdiv, hmod, spacing_pos u]
  unfold nearest
  simp only [Nat.div_one, Nat.one_mul, hround]
  rw [Nat.mul_comm]
  exact hm.symm

theorem eq_of_place? {a b : Double} {x : Int} (ha : a.place? = some x) (hb : b.place? = some x) :
    a.eq b = true := by
  unfold eq
  rw [ha, hb]
  exact beq_self_eq_true x

theorem exists_place? {d : Double} (h : d ≠ .nan) : ∃ x, d.place? = some x := by
  cases d with
  | nan => exact absurd rfl h
  | infinity s => cases s <;> exact ⟨_, rfl⟩
  | finite s u _ => cases s <;> exact ⟨_, rfl⟩

theorem eq_self {d : Double} (h : d ≠ .nan) : d.eq d = true := by
  obtain ⟨x, hx⟩ := exists_place? h
  exact eq_of_place? hx hx

theorem ofInt_ne_nan (n : Int) : ofInt n ≠ .nan := by
  unfold ofInt ofQuotient
  split <;> exact nofun

theorem place?_finite (s : Bool) {u : Nat} (hu : Fits u) :
    (finite s u hu).place? = some (signed s u) := by
  cases s <;> rfl

theorem whole?_finite (s : Bool) {u : Nat} (hu : Fits u) :
    (finite s u hu).whole? = if one ∣ u then some (signed s (u / one)) else none :=
  rfl

/-- A whole number is the nearest one to the integer that it is. -/
theorem eq_ofInt_of_whole? {d : Double} {n : Int} (h : d.whole? = some n) :
    d.eq (ofInt n) = true := by
  cases d with
  | nan => cases h
  | infinity s => cases h
  | finite s u hu =>
    rw [whole?_finite] at h
    by_cases hone : one ∣ u
    · rw [if_pos hone] at h
      obtain ⟨k, hk⟩ := hone
      have hdiv : u / one = k := by rw [hk, Nat.mul_div_cancel_left k one_pos]
      rw [hdiv] at h
      have hn := Option.some.inj h
      have habs : n.natAbs * one = u := by
        rw [hk, Nat.mul_comm, ← hn]
        congr 1
        cases s <;> simp [signed]
      have hof : ofInt n = .finite (n < 0) u hu := by
        rw [ofInt, habs]
        exact ofQuotient_eq hu (nearest_of_fits hu)
      have hsign : signed (n < 0) u = signed s u := by
        cases s with
        | false => simp [← hn, signed]
        | true =>
          rcases Nat.eq_zero_or_pos k with rfl | hpos
          · simp [hk, signed]
          · simp [← hn, signed, hpos]
      rw [hof]
      exact eq_of_place? (place?_finite s hu) (hsign ▸ place?_finite (n < 0) hu)
    · rw [if_neg hone] at h
      cases h

end Double

end EventStream
