import EventStream.Proofs.Double.Values

namespace EventStream

theorem roundHalfEven_mono {m n d : Nat} (h : m ≤ n) : roundHalfEven m d ≤ roundHalfEven n d := by
  have hq : m / d ≤ n / d := Nat.div_le_div_right h
  rcases Nat.lt_or_eq_of_le hq with hlt | heq
  · rcases roundHalfEven_eq_or m d with hm | hm <;> rcases roundHalfEven_eq_or n d with hn | hn <;>
      omega
  · have hr : m % d ≤ n % d := by
      have hm := Nat.div_add_mod m d
      have hn := Nat.div_add_mod n d
      rw [heq] at hm
      omega
    unfold roundHalfEven
    simp only [heq]
    split_ifs <;> omega

namespace Double

section
variable {m n k : Nat}

/-- Rounding does not go above a power of two. -/
theorem nearest_one_le_two_pow (h : n < 2 ^ k) : nearest n 1 ≤ 2 ^ k := by
  by_cases hsmall : n < 9007199254740992
  · rw [nearest_one_of_lt hsmall]
    exact h.le
  · have hn : n ≠ 0 := by omega
    have hlog : n.log2 < k := (Nat.log2_lt hn).mpr h
    have hlow : 53 ≤ n.log2 := (Nat.le_log2 hn).mpr (by omega)
    have hround : roundHalfEven n (spacing n) ≤ 2 ^ 53 := by
      have hq := div_spacing_lt n
      rcases roundHalfEven_eq_or n (spacing n) with h | h <;> omega
    unfold nearest
    simp only [Nat.div_one, Nat.one_mul]
    calc roundHalfEven n (spacing n) * spacing n ≤ 2 ^ 53 * spacing n :=
          Nat.mul_le_mul_right _ hround
      _ = 2 ^ (n.log2 + 1) := by
        rw [spacing_eq_two_pow, ← pow_add]
        congr 1
        omega
      _ ≤ 2 ^ k := Nat.pow_le_pow_right (by omega) hlog

theorem nearest_one_mono (h : m ≤ n) : nearest m 1 ≤ nearest n 1 := by
  by_cases hlog : m.log2 = n.log2
  · have hs : spacing m = spacing n := by rw [spacing_eq_two_pow, spacing_eq_two_pow, hlog]
    unfold nearest
    simp only [Nat.div_one, hs]
    exact Nat.mul_le_mul_right _ (roundHalfEven_mono h)
  · by_cases hsmall : n < 9007199254740992
    · rw [nearest_one_of_lt hsmall, nearest_one_of_lt (by omega)]
      exact h
    · -- a power of two lies between the two numbers
      have hn : n ≠ 0 := by omega
      obtain ⟨k, hk, hm, hkn⟩ : ∃ k, 52 ≤ k ∧ m < 2 ^ k ∧ 2 ^ k ≤ n := by
        by_cases hm : m < 2 ^ 53
        · exact ⟨53, by omega, hm, by omega⟩
        · have hm0 : m ≠ 0 := by omega
          have hle : 2 ^ m.log2 ≤ n := (Nat.log2_self_le hm0).trans h
          have hnext : m.log2 + 1 ≤ n.log2 := by
            have := (Nat.le_log2 hn).mpr hle
            omega
          have hlow : 53 ≤ m.log2 := (Nat.le_log2 hm0).mpr (by omega)
          exact ⟨m.log2 + 1, by omega, Nat.lt_log2_self, (Nat.le_log2 hn).mp hnext⟩
      exact (nearest_one_le_two_pow hm).trans (le_nearest_one hk hkn)

end

theorem place?_ofQuotient (s : Bool) (n d : Nat) :
    (ofQuotient s n d).place? = some (signed s (min (nearest n d) bound)) := by
  unfold ofQuotient
  split
  next h =>
    rw [Nat.min_eq_left h.le]
    cases s <;> rfl
  next h =>
    rw [Nat.min_eq_right (by omega)]
    cases s <;> rfl

theorem place?_ofInt_mono {a b x y : Int} (h : a ≤ b) (ha : (ofInt a).place? = some x)
    (hb : (ofInt b).place? = some y) : x ≤ y := by
  rw [ofInt, place?_ofQuotient] at ha hb
  have hmono {m n : Nat} (h : m ≤ n) :
      min (nearest (m * one) 1) bound ≤ min (nearest (n * one) 1) bound :=
    min_le_min_right _ (nearest_one_mono (Nat.mul_le_mul_right _ h))
  have hle := @hmono a.natAbs b.natAbs
  have hge := @hmono b.natAbs a.natAbs
  have hx := Option.some.inj ha
  have hy := Option.some.inj hb
  generalize min (nearest (a.natAbs * one) 1) bound = u at *
  generalize min (nearest (b.natAbs * one) 1) bound = v at *
  unfold signed at hx hy
  simp only [decide_eq_true_eq] at hx hy
  split_ifs at hx hy <;> omega

end Double

end EventStream
