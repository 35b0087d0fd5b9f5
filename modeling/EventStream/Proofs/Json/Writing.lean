import EventStream.Proofs.Double.Decimals
import EventStream.Proofs.Json.Splicing

namespace EventStream.Json

section
variable {ds : List Char} {e : Int}

theorem isDigits_digitsOf (n : Nat) : IsDigits (digitsOf n) :=
  ⟨Nat.toDigits_ne_nil, fun _ h => Nat.isDigit_of_mem_toDigits (by decide) (by decide) h⟩

theorem ofDigits_digitsOf (n : Nat) : ofDigits (digitsOf n) = n :=
  Nat.ofDigitChars_ten_toDigits

theorem ofDigits_append_zeros (ds : List Char) (k : Nat) :
    ofDigits (ds ++ List.replicate k '0') = ofDigits ds * 10 ^ k := by
  change Nat.ofDigitChars 10 _ 0 = _
  rw [Nat.ofDigitChars_append, Nat.ofDigitChars_replicate_zero, Nat.mul_comm]
  rfl

theorem ofDigits_zeros_append (k : Nat) (ds : List Char) :
    ofDigits (List.replicate k '0' ++ ds) = ofDigits ds := by
  change Nat.ofDigitChars 10 _ 0 = _
  rw [Nat.ofDigitChars_append, Nat.ofDigitChars_replicate_zero, Nat.mul_zero]
  rfl

/-- Digits start with a zero only where the number is zero. -/
theorem eq_zero_of_head?_digitsOf {n : Nat} (h : (digitsOf n).head? = some '0') : n = 0 := by
  induction n using Nat.strong_induction_on with
  | _ n ih =>
    unfold digitsOf at h ih
    rcases Nat.lt_or_ge n 10 with hn | hn
    · rw [Nat.toDigits_of_lt_base hn] at h
      exact Nat.digitChar_eq_zero.mp (Option.some.inj h)
    · rw [Nat.toDigits_of_base_le (by omega) hn,
        List.head?_append_of_ne_nil _ Nat.toDigits_ne_nil] at h
      have := ih (n / 10) (by omega) h
      omega

theorem isDigits_append {ds' : List Char} (h : IsDigits ds) (h' : ∀ c ∈ ds', c.isDigit = true) :
    IsDigits (ds ++ ds') :=
  ⟨by simp [h.1], fun c hc => (List.mem_append.mp hc).elim (h.2 c) (h' c)⟩

theorem isDigit_of_mem_zeros {c : Char} {k : Nat} (h : c ∈ List.replicate k '0') :
    c.isDigit = true := by
  rw [List.eq_of_mem_replicate h]
  rfl

/-- All places of a decimal, as digits before and after a point. -/
theorem positional_parts (hd : IsDigits ds) (hz : ds.head? = some '0' → ds = ['0'] ∧ e = 0) :
    ∃ whole fraction, NumberFormat.positional true ds e = whole ++ '.' :: fraction ∧
      IsDigits whole ∧ ¬(whole.head? = some '0' ∧ 1 < whole.length) ∧ IsDigits fraction ∧
      ∀ negative, (Decimal.ofParts whole fraction 0).toDouble negative =
        Decimal.toDouble negative ⟨ofDigits ds, e⟩ := by
  have hlength : 0 < ds.length := List.length_pos_iff.mpr hd.1
  unfold NumberFormat.positional
  simp only
  split
  next he =>
    refine ⟨ds ++ List.replicate e.toNat '0', ['0'], by simp,
      isDigits_append hd fun _ => isDigit_of_mem_zeros, ?_, ⟨by simp, by simp⟩, fun negative => ?_⟩
    · rintro ⟨hhead, hlong⟩
      rw [List.head?_append_of_ne_nil _ hd.1] at hhead
      obtain ⟨rfl, rfl⟩ := hz hhead
      simp at hlong
    · have hdigits : ofDigits (ds ++ List.replicate e.toNat '0' ++ ['0']) =
          ofDigits ds * 10 ^ (e.toNat + 1) := by
        rw [List.append_assoc, ← List.replicate_succ', ofDigits_append_zeros]
      have hexponent : (0 : Int) - ['0'].length = e - (e.toNat + 1 : Nat) := by
        rw [List.length_singleton]
        omega
      rw [Decimal.ofParts, hdigits, hexponent]
      exact Decimal.toDouble_mul_ten_pow negative _ _ e
  next he =>
    split
    next hw =>
      refine ⟨ds.take (ds.length + e).toNat, ds.drop (ds.length + e).toNat, rfl, ⟨?_, ?_⟩, ?_,
        ⟨?_, ?_⟩, fun negative => ?_⟩
      · exact List.ne_nil_of_length_pos (by rw [List.length_take]; omega)
      · exact fun c hc => hd.2 c (List.mem_of_mem_take hc)
      · rintro ⟨hhead, _⟩
        rw [List.head?_take, if_neg (by omega)] at hhead
        have := (hz hhead).2
        omega
      · exact List.ne_nil_of_length_pos (by rw [List.length_drop]; omega)
      · exact fun c hc => hd.2 c (List.mem_of_mem_drop hc)
      · rw [Decimal.ofParts, List.take_append_drop]
        congr 2
        rw [List.length_drop]
        omega
    next hw =>
      refine ⟨['0'], List.replicate (-(ds.length + e)).toNat '0' ++ ds, rfl, ⟨by simp, by simp⟩,
        by simp, ⟨by simp [hd.1], ?_⟩, fun negative => ?_⟩
      · exact fun c hc => (List.mem_append.mp hc).elim isDigit_of_mem_zeros (hd.2 c)
      · have hdigits : ofDigits (['0'] ++ (List.replicate (-(ds.length + e)).toNat '0' ++ ds)) =
            ofDigits ds := by
          rw [← List.append_assoc, List.singleton_append, ← List.replicate_succ,
            ofDigits_zeros_append]
        rw [Decimal.ofParts, hdigits]
        congr 2
        rw [List.length_append, List.length_replicate]
        omega

theorem withSign_natAbs (n : Int) : withSign (n < 0) (digitsOf n.natAbs) = n := by
  rw [withSign, ofDigits_digitsOf]
  split
  next h =>
    have := of_decide_eq_true h
    omega
  next h =>
    have := of_decide_eq_false (Bool.not_eq_true _ ▸ h)
    omega

/-- The text of a number with a fraction or an exponent. -/
def IsPlaced (negative : Bool) (s : List Char) (d : Decimal) : Prop :=
  ∃ n, NumeralText n ((if negative then ['-'] else []) ++ s) ∧
    (n.fraction.isSome ∨ n.exponent.isSome) ∧ n.double = d.toDouble negative

theorem positional_placed (negative : Bool) (hd : IsDigits ds)
    (hz : ds.head? = some '0' → ds = ['0'] ∧ e = 0) :
    IsPlaced negative (NumberFormat.positional true ds e) ⟨ofDigits ds, e⟩ := by
  obtain ⟨whole, fraction, htext, hw, hzero, hf, hdouble⟩ := positional_parts hd hz
  refine ⟨⟨negative, whole, some fraction, none⟩, ?_, .inl rfl, hdouble negative⟩
  rw [htext]
  simpa using NumeralText.intro hw hzero (.present hf) .absent

theorem scientific_placed (negative : Bool) (hd : IsDigits ds) :
    IsPlaced negative (NumberFormat.scientific ds e) ⟨ofDigits ds, e⟩ := by
  obtain ⟨d, r, rfl⟩ := List.exists_cons_of_ne_nil hd.1
  obtain ⟨power, hpower⟩ : ∃ power : Int, power = (d :: r).length + e - 1 := ⟨_, rfl⟩
  have hsign : SignText (power < 0) [if power < 0 then '-' else '+'] := by
    by_cases h : power < 0
    · simpa [h] using SignText.minus
    · simpa [h] using SignText.plus
  have hexponent : ExponentText (some power)
      ('e' :: ([if power < 0 then '-' else '+'] ++ digitsOf power.natAbs)) := by
    have := ExponentText.present (.inl rfl) hsign (isDigits_digitsOf power.natAbs)
    rwa [withSign_natAbs] at this
  have hfirst : IsDigits [d] := ⟨by simp, fun c hc => hd.2 c (by simp_all)⟩
  have hone : ¬([d].head? = some '0' ∧ 1 < [d].length) := by simp
  have hvalue : Decimal.ofParts [d] r power = ⟨ofDigits (d :: r), e⟩ := by
    rw [Decimal.ofParts, hpower, List.length_cons]
    congr 1
    omega
  cases r with
  | nil =>
    refine ⟨⟨negative, [d], none, some power⟩, ?_, .inr rfl, congrArg _ hvalue⟩
    rw [hpower] at hexponent ⊢
    exact .intro hfirst hone .absent hexponent
  | cons c r =>
    have hfraction : IsDigits (c :: r) := ⟨by simp, fun x hx => hd.2 x (List.mem_cons_of_mem d hx)⟩
    refine ⟨⟨negative, [d], some (c :: r), some power⟩, ?_, .inl rfl, congrArg _ hvalue⟩
    rw [hpower] at hexponent ⊢
    have htext : NumberFormat.scientific (d :: c :: r) e = [d] ++ (('.' :: c :: r) ++ _) :=
      List.append_assoc _ _ _
    rw [htext]
    exact .intro hfirst hone (.present hfraction) hexponent

theorem decimal_placed (negative : Bool) {d : Decimal} (h : d.digits = 0 → d.exponent = 0) :
    IsPlaced negative (numberFormat.decimal d) d := by
  have hd := isDigits_digitsOf d.digits
  have hz : (digitsOf d.digits).head? = some '0' → digitsOf d.digits = ['0'] ∧ d.exponent = 0 := by
    intro hhead
    have hzero := eq_zero_of_head?_digitsOf hhead
    exact ⟨by rw [hzero]; rfl, h hzero⟩
  have hpositional := positional_placed negative hd hz
  have hscientific := @scientific_placed _ d.exponent negative hd
  rw [ofDigits_digitsOf] at hpositional hscientific
  unfold NumberFormat.decimal
  simp only []
  split_ifs
  · exact hpositional
  · exact hscientific

/-- A written number is read as itself. -/
theorem double_atom (negative : Bool) {u : Nat} (hf : Double.Fits u) :
    IsAtom scalar (ascii (numberFormat.write (.finite negative u hf)))
      (.double (.finite negative u hf)) := by
  have hread : ∀ d : Decimal, (d.digits = 0 → d.exponent = 0) →
      d.toDouble negative = .finite negative u hf →
      IsAtom scalar (ascii ((if negative then ['-'] else []) ++ numberFormat.decimal d))
        (.double (.finite negative u hf)) := by
    intro d hd hdouble
    obtain ⟨n, htext, hplaced, hn⟩ := decimal_placed negative hd
    apply scalar_of_numeralText htext
    have hparts : ¬(n.fraction.isNone = true ∧ n.exponent.isNone = true) := by
      rcases hplaced with h | h <;> simp [Option.isNone_eq_false_iff.mpr h]
    rw [Numeral.json?, if_neg (by tauto), if_neg (by tauto), hn, hdouble]
    rfl
  by_cases hu : u = 0
  · subst hu
    exact hread ⟨0, 0⟩ (fun _ => rfl) rfl
  · have hwrite : numberFormat.write (.finite negative u hf) =
        (if negative then ['-'] else []) ++ numberFormat.decimal (Double.shortest .even u) := by
      rw [NumberFormat.write]
      simp only [if_neg hu]
      rfl
    rw [hwrite]
    exact hread _ (fun h => absurd h (Double.shortest_digits_ne_zero hu hf))
      (Double.toDouble_shortest negative hu hf)

/-- A written integer is read as itself. -/
theorem integer_atom {n : Int} (low : -9223372036854775808 ≤ n) (high : n < 18446744073709551616) :
    IsAtom scalar (ascii (integerText n)) (.integer n) := by
  have hd := isDigits_digitsOf n.natAbs
  have hz : ¬((digitsOf n.natAbs).head? = some '0' ∧ 1 < (digitsOf n.natAbs).length) := by
    rintro ⟨hhead, hlong⟩
    rw [eq_zero_of_head?_digitsOf hhead] at hlong
    exact absurd hlong (by decide)
  have htext : NumeralText ⟨n < 0, digitsOf n.natAbs, none, none⟩ (integerText n) := by
    have := @NumeralText.intro (n < 0) _ _ _ _ _ hd hz .absent .absent
    by_cases h : n < 0 <;> simpa [integerText, h] using this
  apply scalar_of_numeralText htext
  unfold Numeral.json?
  simp only [ofDigits_digitsOf, Option.isNone_none, true_and]
  by_cases h : n < 0
  · rw [if_neg (by simp [h]), if_pos ⟨by simpa using h, by omega, by omega⟩]
    congr 2
    omega
  · rw [if_pos ⟨by simpa using h, by omega⟩]
    congr 2
    omega

end

/-- JSON with at most `d` arrays and objects one within another, as reading and conversion make it:
integers of 64 bits, finite numbers, and objects with their keys in order. -/
inductive Writable : Nat → Json → Prop
  | null {d} : Writable d .null
  | bool {d b} : Writable d (.bool b)
  | integer {d n} : -9223372036854775808 ≤ n → n < 18446744073709551616 → Writable d (.integer n)
  | double {d x} : x.isFinite = true → Writable d (.double x)
  | string {d s} : Writable d (.string s)
  | array {d items} : (∀ j ∈ items, Writable d j) → Writable (d + 1) (.array items)
  | object {d entries} : (keys entries).Pairwise (· < ·) → (∀ e ∈ entries, Writable d e.2) →
      Writable (d + 1) (.object entries)

section
variable {d : Nat} {j : Json}

theorem string_atom (s : String) : IsAtom scalar (quoted s) (.string s) :=
  scalar_of_quotedText (quoted_atom s)

theorem isValue_of_atom {s : Bytes} (h : IsAtom scalar s j) : ∃ n ≤ d, data.IsValue n s j :=
  ⟨0, Nat.zero_le d, .of_atom h⟩

theorem Writable.isValue (h : Writable d j) : ∃ n ≤ d, data.IsValue n j.write j := by
  induction h with
  | null => exact isValue_of_atom null_atom
  | @bool d b =>
    cases b with
    | true => exact isValue_of_atom true_atom
    | false => exact isValue_of_atom false_atom
  | integer low high => exact isValue_of_atom (integer_atom low high)
  | @double d x hx =>
    cases x with
    | nan => cases hx
    | infinity s => cases hx
    | finite s u hu => exact isValue_of_atom (double_atom s hu)
  | @string d s => exact isValue_of_atom (string_atom s)
  | @array d items _ ih =>
    have hitems : List.Forall₂ (fun b j => ∃ n ≤ d, Spaced data.IsValue n b j)
        (items.map write) items := by
      rw [List.forall₂_map_left_iff, List.forall₂_same]
      intro j hj
      obtain ⟨n, hn, h⟩ := ih j hj
      exact ⟨n, hn, spaced_of_isValue h⟩
    obtain ⟨n, hn, h⟩ := isValue_jsonArray hitems
    rw [write, writeItems_eq]
    exact ⟨n + 1, Nat.succ_le_succ hn, h⟩
  | @object d entries hsorted _ ih =>
    have hentries : List.Forall₂ (fun b e => ∃ n ≤ d, Spaced data.IsMember n b e)
        (entries.map fun e => quoted e.1 ++ 0x3A :: e.2.write) entries := by
      rw [List.forall₂_map_left_iff, List.forall₂_same]
      intro e he
      obtain ⟨n, hn, h⟩ := ih e he
      exact spaced_member e.1 ⟨n, hn, spaced_of_isValue h⟩
    obtain ⟨n, hn, h⟩ := isValue_object hentries
    rw [ofEntries, sortedEntries_of_sorted entries hsorted] at h
    rw [write, writeEntries_eq]
    exact ⟨n + 1, Nat.succ_le_succ hn, h⟩

/-- What is written is read as what it was. -/
theorem parse?_write (h : Writable depthLimit j) : parse? j.write = some j := by
  obtain ⟨n, hn, hvalue⟩ := h.isValue
  exact parse?_eq_some_iff.mpr ⟨n, hn, spaced_of_isValue hvalue⟩

/-- Different values have different texts, however deep they are. -/
theorem write_injective {m n : Nat} {i j : Json} (hi : Writable m i) (hj : Writable n j)
    (h : i.write = j.write) : i = j := by
  obtain ⟨a, _, hi⟩ := hi.isValue
  obtain ⟨b, _, hj⟩ := hj.isValue
  have hends : Ends [] := nofun
  have hread := hi.reads i.write.length (max a b) [] le_rfl (le_max_left a b) hends
  have hread' := hj.reads j.write.length (max a b) [] le_rfl (le_max_right a b) hends
  rw [h] at hread
  exact (Prod.mk.inj (Option.some.inj (hread.symm.trans hread'))).1

end

end EventStream.Json
