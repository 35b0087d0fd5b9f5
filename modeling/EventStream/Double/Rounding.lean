import EventStream.Double.Basic

namespace EventStream

/-- The whole number nearest to `n / d`, a half going to the even one. -/
def roundHalfEven (n d : Nat) : Nat :=
  let q := n / d
  let r := 2 * (n % d)
  if r < d then q else if d < r then q + 1 else q + q % 2

/-- The whole number nearest to `n / d`, a half going up. -/
def roundHalfUp (n d : Nat) : Nat :=
  (2 * n + d) / (2 * d)

theorem roundHalfEven_eq_or (n d : Nat) :
    roundHalfEven n d = n / d ∨ roundHalfEven n d = n / d + 1 := by
  unfold roundHalfEven
  simp only []
  split
  · exact .inl rfl
  · split
    · exact .inr rfl
    · rcases Nat.mod_two_eq_zero_or_one (n / d) with h | h <;> simp [h]

namespace Double

/-- The units nearest to `n / d` units, as if there were no largest number. -/
def nearest (n d : Nat) : Nat :=
  let step := spacing (n / d)
  roundHalfEven n (d * step) * step

theorem nearest_one_of_lt {n : Nat} (h : n < 9007199254740992) : nearest n 1 = n := by
  simp [nearest, spacing_eq_one h, roundHalfEven, Nat.mod_one]

theorem spacing_mul_two_pow_dvd {m k : Nat} (h : m ≤ 9007199254740992) :
    spacing (m * Nat.pow 2 k) ∣ m * Nat.pow 2 k := by
  rw [show 9007199254740992 = 2 ^ 53 from rfl] at h
  rw [Nat.pow_eq]
  by_cases hm : m = 0
  · subst hm; simp
  rcases Nat.lt_or_eq_of_le h with h | h
  · have hlt : m * 2 ^ k < 2 ^ (53 + k) := by
      rw [Nat.pow_add]; exact Nat.mul_lt_mul_of_pos_right h (Nat.two_pow_pos k)
    have hne : m * 2 ^ k ≠ 0 := Nat.mul_ne_zero hm (Nat.ne_of_gt (Nat.two_pow_pos k))
    have := (Nat.log2_lt hne).2 hlt
    exact Nat.dvd_trans (Nat.pow_dvd_pow 2 (by omega)) (Nat.dvd_mul_left _ _)
  · subst h
    rw [← Nat.pow_add]
    have : (2 ^ (53 + k)).log2 = 53 + k := Nat.log2_two_pow
    rw [spacing, this]
    exact Nat.pow_dvd_pow 2 (by omega)

theorem spacing_nearest_dvd (n d : Nat) : spacing (nearest n d) ∣ nearest n d := by
  have hd := div_spacing_lt (n / d)
  rw [Nat.div_div_eq_div_mul] at hd
  have h : roundHalfEven n (d * spacing (n / d)) ≤ 9007199254740992 := by
    rcases roundHalfEven_eq_or n (d * spacing (n / d)) with h | h <;> omega
  exact spacing_mul_two_pow_dvd h

/-- The number nearest to `± n / d` units. -/
def ofQuotient (negative : Bool) (n d : Nat) : Double :=
  if h : nearest n d < bound then
    .finite negative (nearest n d) ⟨spacing_nearest_dvd n d, h⟩
  else .infinity negative

def ofInt (n : Int) : Double :=
  ofQuotient (decide (n < 0)) (n.natAbs * one) 1

def ofNat (n : Nat) : Double :=
  ofInt n

end Double

end EventStream
