import EventStream.Double.Shortest
import EventStream.Proofs.Double.Nearest

namespace EventStream

namespace Decimal

open Double

theorem two_pow_le_ten_pow {j k : Nat} (h : j ≤ 3 * k) : 2 ^ j ≤ 10 ^ k :=
  calc 2 ^ j ≤ 2 ^ (3 * k) := Nat.pow_le_pow_right (by omega) h
    _ = (2 ^ 3) ^ k := pow_mul 2 3 k
    _ ≤ 10 ^ k := Nat.pow_le_pow_left (by omega) k

theorem nearest_below_range {n k : Nat} (h : range + n.log2 < k) :
    nearest (n * one) (10 ^ k) = 0 := by
  obtain ⟨m, hm, hone, _⟩ := exists_powers
  apply nearest_eq_zero
  have hn : n < 2 ^ (n.log2 + 1) := Nat.lt_log2_self
  calc 2 * (n * one) < 2 * (2 ^ (n.log2 + 1) * one) := by
        have := Nat.mul_lt_mul_of_pos_right hn Double.one_pos
        omega
    _ = 2 ^ (n.log2 + 2 + m) := by rw [hone]; ring
    _ ≤ 10 ^ k := two_pow_le_ten_pow (by simp only [range] at h; omega)

theorem bound_le_above_range {n k : Nat} (hn : n ≠ 0) (h : range < k) :
    bound ≤ nearest (n * 10 ^ k * one) 1 := by
  obtain ⟨m, _, hone, hbound⟩ := exists_powers
  rw [hbound]
  apply le_nearest_one (by omega)
  rw [pow_add, ← hone]
  apply Nat.mul_le_mul_right
  calc 2 ^ 1024 ≤ 10 ^ k := two_pow_le_ten_pow (by simp only [range] at h; omega)
    _ ≤ n * 10 ^ k := Nat.le_mul_of_pos_left _ (Nat.pos_of_ne_zero hn)

/-- The shortcuts for what is far outside the range change nothing. -/
theorem toDouble_eq (negative : Bool) (d : Decimal) :
    d.toDouble negative =
      ofQuotient negative (d.digits * 10 ^ d.exponent.toNat * one) (10 ^ (-d.exponent).toNat) := by
  obtain ⟨n, e⟩ := d
  unfold toDouble
  simp only
  split
  next hzero =>
    symm
    rcases hzero with rfl | he
    · rw [Nat.zero_mul, Nat.zero_mul]
      exact ofQuotient_zero negative (Nat.pow_pos (by omega))
    · rw [show e.toNat = 0 by omega, pow_zero, Nat.mul_one]
      exact ofQuotient_eq fits_zero (nearest_below_range (by omega))
  next hn =>
    split
    next he =>
      have := bound_le_above_range (n := n) (k := e.toNat) (by tauto) (by omega)
      rw [show (-e).toNat = 0 by omega, pow_zero, ofQuotient, dif_neg (by omega)]
    next =>
      cases e with
      | ofNat e => simp
      | negSucc e => simp [Int.neg_negSucc]

/-- Zeros at the end of the digits do not matter. -/
theorem toDouble_mul_ten_pow (negative : Bool) (n k : Nat) (e : Int) :
    toDouble negative ⟨n * 10 ^ k, e - k⟩ = toDouble negative ⟨n, e⟩ := by
  rw [toDouble_eq, toDouble_eq]
  simp only
  obtain ⟨j, hden, hnum⟩ : ∃ j, (-(e - k)).toNat = (-e).toNat + j ∧
      k + (e - k).toNat = e.toNat + j := ⟨(-(e - k)).toNat - (-e).toNat, by omega, by omega⟩
  have hn : n * 10 ^ k * 10 ^ (e - k).toNat * one = n * 10 ^ e.toNat * one * 10 ^ j := by
    rw [Nat.mul_assoc n, ← pow_add, hnum, pow_add]
    ring
  rw [hn, hden, pow_add 10 (-e).toNat j]
  exact ofQuotient_mul (Nat.pow_pos (by omega))

end Decimal

namespace Double

section
variable {u n d : Nat}

/-- The bounds of a catchment, the lower one as wide as it is below most numbers. -/
theorem bounds_of_contains {m : Nat} (hm : u = m * spacing u)
    (h : (catchment u).contains (4 * n) d = true) :
    2 * (u * d) ≤ 2 * n + d * spacing u ∧ 2 * n ≤ 2 * (u * d) + d * spacing u ∧
    (m % 2 = 0 ∨
      2 * (u * d) < 2 * n + d * spacing u ∧ 2 * n < 2 * (u * d) + d * spacing u) ∧
    (1 < spacing u → u = 2 ^ 52 * spacing u → 4 * (u * d) ≤ 4 * n + d * spacing u) := by
  have hdiv : u / spacing u = m := by
    conv_lhs => lhs; rw [hm]
    exact Nat.mul_div_cancel m (spacing_pos u)
  simp only [Catchment.contains, catchment, hdiv, Nat.pow_eq, Nat.sub_mul, Nat.add_mul,
    Nat.mul_assoc, Nat.mul_comm (spacing u) d, beq_iff_eq, ite_mul] at h
  generalize spacing u = s at *
  split at h
  next heven =>
    simp only [decide_eq_true_eq] at h
    obtain ⟨hlow, hhigh⟩ := h
    refine ⟨?_, by omega, .inl heven, fun hs hp => ?_⟩
    · split at hlow <;> omega
    · rw [if_pos ⟨hs, hp⟩] at hlow
      omega
  next =>
    simp only [decide_eq_true_eq] at h
    obtain ⟨hlow, hhigh⟩ := h
    have hlow' : 2 * (u * d) < 2 * n + d * s := by split at hlow <;> omega
    refine ⟨by omega, by omega, .inr ⟨hlow', by omega⟩, fun hs hp => ?_⟩
    rw [if_pos ⟨hs, hp⟩] at hlow
    omega

/-- Below a power of two the numbers lie twice as dense, and so does what is rounded to it. -/
theorem nearest_below_power {k : Nat} (hd : 0 < d) (hhalf : spacing u = 2 * 2 ^ k)
    (hu : u = 2 ^ 52 * spacing u) (hn : n < 2 ^ 52 * (d * spacing u))
    (hlow : 4 * (u * d) ≤ 4 * n + d * spacing u) : nearest n d = u := by
  have hdense : d * spacing u = 2 * (d * 2 ^ k) := by rw [hhalf]; ring
  have hud : u * d = 2 ^ 52 * (2 * (d * 2 ^ k)) := by
    rw [← hdense]
    conv_lhs => rw [hu]
    ring
  rw [hud, hdense] at hlow
  rw [hdense] at hn
  have hspacing : spacing (n / d) = 2 ^ k := by
    apply spacing_eq
    · rw [Nat.le_div_iff_mul_le hd, Nat.mul_assoc, Nat.mul_comm (2 ^ k) d]
      omega
    · rw [Nat.div_lt_iff_lt_mul hd, Nat.mul_assoc, Nat.mul_comm (2 ^ k) d]
      omega
  have htwice : u = 2 ^ 53 * 2 ^ k := by
    conv_lhs => rw [hu, hhalf]
    ring
  conv_rhs => rw [htwice]
  exact nearest_eq hd hspacing (by omega) (by omega) (.inl (by norm_num))

/-- What lies in the catchment of a number is rounded to it. -/
theorem nearest_of_contains (hs : spacing u ∣ u) (hd : 0 < d)
    (h : (catchment u).contains (4 * n) d = true) : nearest n d = u := by
  obtain ⟨m, hm, hlt, hwide⟩ := exists_significand hs
  obtain ⟨hlow, hhigh, htie, hpower⟩ := bounds_of_contains hm h
  have hud : u * d = m * (d * spacing u) := by
    conv_lhs => rw [hm]
    ring
  have same : spacing (n / d) = spacing u → nearest n d = u := by
    intro hv
    conv_rhs => rw [hm]
    rw [hud] at hlow hhigh htie
    exact nearest_eq hd hv hlow hhigh htie
  by_cases hone : spacing u = 1
  · apply same
    rw [hone] at hm hhigh ⊢
    apply spacing_eq_one
    rw [Nat.div_lt_iff_lt_mul hd]
    have : u * d ≤ (2 ^ 53 - 1) * d := Nat.mul_le_mul_right d (by omega)
    omega
  have hm52 : 2 ^ 52 ≤ m := hwide.resolve_left hone
  obtain ⟨e, he⟩ : ∃ e, spacing u = 2 ^ e := ⟨_, spacing_eq_two_pow u⟩
  have hpos : 0 < d * spacing u := Nat.mul_pos hd (spacing_pos u)
  have hmle := Nat.mul_le_mul_right (d * spacing u) (show m ≤ 2 ^ 53 - 1 by omega)
  by_cases hv : 2 ^ 52 * spacing u ≤ n / d
  · apply same
    have hn : n / d < 2 ^ 53 * spacing u := by
      rw [Nat.div_lt_iff_lt_mul hd, Nat.mul_assoc, Nat.mul_comm (spacing u) d]
      omega
    rw [he] at hv hn ⊢
    exact spacing_eq hv hn
  have hn : n < 2 ^ 52 * (d * spacing u) := by
    rw [Nat.not_le, Nat.div_lt_iff_lt_mul hd, Nat.mul_assoc, Nat.mul_comm (spacing u) d] at hv
    exact hv
  have hm52 : m = 2 ^ 52 := by
    by_contra hne
    have := Nat.mul_le_mul_right (d * spacing u) (show 2 ^ 52 + 1 ≤ m by omega)
    omega
  subst hm52
  obtain ⟨k, rfl⟩ := Nat.exists_eq_succ_of_ne_zero (show e ≠ 0 by rintro rfl; exact hone he)
  have hhalf : spacing u = 2 * 2 ^ k := by rw [he, Nat.pow_succ, Nat.mul_comm]
  have htwo := Nat.two_pow_pos k
  exact nearest_below_power hd hhalf hm hn (hpower (by omega) hm)

end

section
variable {c : Catchment} {tie : Tie} {e : Int} {p n : Nat}

theorem Catchment.contains_of_point? (h : c.point? tie e = some p) :
    c.contains (p * (4 * one * 10 ^ e.toNat)) (10 ^ (-e).toNat) = true := by
  unfold point? at h
  simp only [Nat.pow_eq] at h
  split at h <;> cases h
  next hlow hhigh =>
    split_ifs
    · exact hhigh
    · exact hlow
  next hlow _ => exact hlow
  next _ hhigh => exact hhigh

theorem Catchment.search_eq {k : Nat} (hk : k < n) (h : (c.point? tie (e - k)).isSome) :
    ∃ p f, c.search tie n e = ⟨p, f⟩ ∧ c.point? tie f = some p := by
  induction n generalizing k e with
  | zero => omega
  | succ n ih =>
    unfold search
    split
    next p hp => exact ⟨p, e, rfl, hp⟩
    next hp =>
      cases k with
      | zero => simp [hp] at h
      | succ k =>
        exact ih (k := k) (by omega) (by rwa [show e - 1 - k = e - (k + 1 : Nat) by omega])

theorem contains_middle {u d : Nat} (hu : u ≠ 0) (hd : 0 < d) :
    (catchment u).contains (4 * u * d) d = true := by
  have hs := spacing_pos u
  have hlow : (catchment u).low < 4 * u := by
    simp only [catchment]
    split <;> omega
  have hhigh : 4 * u < (catchment u).high := by
    simp only [catchment]
    omega
  have := Nat.mul_lt_mul_of_pos_right hlow hd
  have := Nat.mul_lt_mul_of_pos_right hhigh hd
  unfold Catchment.contains
  split <;> simp only [decide_eq_true_eq] <;> omega

/-- Every number is a multiple of `10 ^ (-1074)`. -/
theorem point?_finest {u : Nat} (hu : u ≠ 0) : ((catchment u).point? tie (-1074)).isSome := by
  obtain ⟨k, hk, hone, _⟩ := exists_powers
  have hten : 0 < 10 ^ k := Nat.pow_pos (by omega)
  have hexact : 4 * u * 10 ^ k = u * 5 ^ k * (4 * one) := by
    rw [hone, show 10 = 2 * 5 from rfl, mul_pow]
    ring
  have hmiddle : (catchment u).middle = 4 * u := rfl
  have hpoint : (catchment u).contains (u * 5 ^ k * (4 * one)) (10 ^ k) = true :=
    hexact ▸ contains_middle hu hten
  rw [show (1074 : Int) = k by omega]
  unfold Catchment.point?
  simp only [hmiddle, Nat.pow_eq, Int.toNat_neg_natCast, pow_zero, mul_one, neg_neg,
    Int.toNat_natCast, hexact]
  rw [Nat.mul_div_cancel _ (Nat.mul_pos (by omega) Double.one_pos), hpoint]
  generalize (catchment u).contains ((u * 5 ^ k + 1) * (4 * one)) (10 ^ k) = next
  cases next <;> rfl

/-- The digits found for a number lie in its catchment. -/
theorem shortest_contains {u : Nat} (hu : u ≠ 0) :
    (catchment u).contains
      ((shortest tie u).digits * (4 * one * 10 ^ (shortest tie u).exponent.toNat))
      (10 ^ (-(shortest tie u).exponent).toNat) = true := by
  unfold shortest
  simp only
  generalize (digitsOf (u / one)).length = start
  have hfinest : ((catchment u).point? tie (start - (start + 1074 : Nat))).isSome := by
    rw [show (start : Int) - (start + 1074 : Nat) = -1074 by omega]
    exact point?_finest hu
  obtain ⟨p, f, heq, hp⟩ := Catchment.search_eq (show start + 1074 < start + 1075 by omega) hfinest
  rw [heq]
  exact Catchment.contains_of_point? hp

/-- The digits found for a number read back as it. -/
theorem toDouble_shortest (negative : Bool) {u : Nat} (hu : u ≠ 0) (hf : Fits u) :
    (shortest tie u).toDouble negative = .finite negative u hf := by
  rw [Decimal.toDouble_eq]
  apply ofQuotient_eq
  apply nearest_of_contains hf.1 (Nat.pow_pos (by omega))
  have h : (catchment u).contains ((shortest tie u).digits * _) _ = true := shortest_contains hu
  rwa [show ∀ a b : Nat, a * (4 * one * b) = 4 * (a * b * one) by intro a b; ring] at h

theorem shortest_digits_ne_zero {u : Nat} (hu : u ≠ 0) (hf : Fits u) :
    (shortest tie u).digits ≠ 0 := by
  intro h
  have := @toDouble_shortest tie false u hu hf
  rw [Decimal.toDouble, if_pos (.inl h)] at this
  cases this
  exact hu rfl

end

end Double

end EventStream
