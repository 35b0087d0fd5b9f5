import EventStream.Config.Duration
import EventStream.Proofs.Json.Writing
import EventStream.Proofs.Syntax.Numerals
import EventStream.Proofs.Traversal

namespace EventStream

section
variable {c : Char}

/-- The first character that is not of a class. -/
theorem exists_first_not {p : Char → Bool} {s : List Char} (h : ¬∀ c ∈ s, p c = true) :
    ∃ w c r, s = w ++ c :: r ∧ (∀ d ∈ w, p d = true) ∧ p c = false := by
  obtain ⟨c, hc⟩ : ∃ c, s.find? (!p ·) = some c := by
    rw [← Option.isSome_iff_exists, List.find?_isSome]
    simpa using h
  obtain ⟨hp, w, r, hs, hw⟩ := List.find?_eq_some_iff_append.mp hc
  exact ⟨w, c, r, hs, by simpa using hw, by simpa using hp⟩

theorem not_isDigit_of_isBlank (h : isBlank c = true) : c.isDigit = false := by
  rw [Bool.eq_false_iff]
  intro hd
  have := Json.char_isDigit_iff.mp hd
  simp only [isBlank, Bool.or_eq_true, Bool.and_eq_true, decide_eq_true_eq, beq_iff_eq] at h
  omega

theorem inNumber_of_isAlpha (h : c.isAlpha = true) : Duration.inNumber c = false := by
  have hletter : (65 ≤ c.toNat ∧ c.toNat ≤ 90) ∨ (97 ≤ c.toNat ∧ c.toNat ≤ 122) := by
    simpa [Char.isAlpha, Char.isUpper, Char.isLower, UInt32.le_iff_toNat_le] using h
  rw [Bool.eq_false_iff, Duration.inNumber]
  intro hn
  rcases Bool.or_eq_true_iff.mp hn with hd | hb
  · have := Json.char_isDigit_iff.mp hd
    omega
  · simp only [isBlank, Bool.or_eq_true, Bool.and_eq_true, decide_eq_true_eq, beq_iff_eq] at hb
    omega

end

namespace TimeUnit

theorem nanos_pos (u : TimeUnit) : 0 < u.nanos := by
  cases u <;> decide

theorem letters_of_mem_names {u : TimeUnit} :
    ∀ s ∈ u.names, s.toList ≠ [] ∧ ∀ c ∈ s.toList, c.isAlpha = true := by
  cases u <;> simp [names]

/-- A unit has a name of letters only. -/
theorem letters_of_ofName? {name : List Char} {u : TimeUnit}
    (h : ofName? (String.ofList name) = some u) :
    name ≠ [] ∧ ∀ c ∈ name, c.isAlpha = true := by
  unfold ofName? at h
  have hmem : String.ofList name ∈ u.names := by simpa using List.find?_some h
  simpa using letters_of_mem_names _ hmem

end TimeUnit

namespace Duration

/-- Numbers of digits with blanks between them, each with the name of its unit. -/
inductive Segments : List Char → List (Nat × TimeUnit) → Prop
  | blank {w : List Char} : (∀ c ∈ w, isBlank c = true) → Segments w []
  | cons {d name t : List Char} {u : TimeUnit} {xs : List (Nat × TimeUnit)} :
      (∀ c ∈ d, inNumber c = true) → d.filter Char.isDigit ≠ [] →
      TimeUnit.ofName? (String.ofList name) = some u → (∀ c ∈ t.head?, inNumber c = true) →
      Segments t xs → Segments (d ++ (name ++ t)) ((ofDigits (d.filter Char.isDigit), u) :: xs)

/-- Numbers with units, added one after another. -/
def addAll? (total : Duration) (xs : List (Nat × TimeUnit)) : Option Duration :=
  xs.foldlM (fun sum x => if x.1 < limit then sum.add? x.1 x.2 else none) total

/-- The nanoseconds of numbers with units. -/
def nanosOf (xs : List (Nat × TimeUnit)) : Nat :=
  (xs.map fun x => x.1 * x.2.nanos).sum

section
variable {total d : Duration} {n : Nat} {u : TimeUnit} {xs ys : List (Nat × TimeUnit)}

theorem addAll?_cons (total : Duration) (n : Nat) (u : TimeUnit) (xs : List (Nat × TimeUnit)) :
    addAll? total ((n, u) :: xs) =
      (if n < limit then total.add? n u else none).bind (addAll? · xs) :=
  List.foldlM_cons

theorem nanosOf_append (xs ys : List (Nat × TimeUnit)) :
    nanosOf (xs ++ ys) = nanosOf xs + nanosOf ys := by
  simp [nanosOf]

theorem nanos_of_add? (h : total.add? n u = some d) : d.nanos = total.nanos + n * u.nanos := by
  unfold add? at h
  obtain ⟨_, h⟩ := Option.ite_none_right_eq_some.mp h
  rw [← Option.some.inj h]

theorem add?_of_lt (h : total.nanos + n * u.nanos < limit) :
    total.add? n u = some ⟨total.nanos + n * u.nanos⟩ := by
  have hsub : total.subsecond ≤ total.nanos := Nat.mod_le _ _
  have hdiv := Nat.div_le_self (total.nanos + n * u.nanos) second
  have hlimit : limit ≤ limit * second := Nat.le_mul_of_pos_right _ (by decide)
  unfold add?
  simp only
  rw [if_pos]
  refine ⟨?_, by omega⟩
  split <;> omega

theorem nanos_of_addAll? (h : addAll? total xs = some d) :
    d.nanos = total.nanos + nanosOf xs := by
  induction xs generalizing total with
  | nil =>
    obtain rfl := Option.some.inj h
    rfl
  | cons x xs ih =>
    obtain ⟨n, u⟩ := x
    rw [addAll?_cons] at h
    obtain ⟨sum, hsum, h⟩ := Option.bind_eq_some_iff.mp h
    split at hsum
    next =>
      rw [ih h, nanos_of_add? hsum]
      simp [nanosOf, Nat.add_assoc]
    next => cases hsum

theorem addAll?_of_lt (h : total.nanos + nanosOf xs < limit) :
    addAll? total xs = some ⟨total.nanos + nanosOf xs⟩ := by
  induction xs generalizing total with
  | nil => rfl
  | cons x xs ih =>
    obtain ⟨n, u⟩ := x
    have hsplit : nanosOf ((n, u) :: xs) = n * u.nanos + nanosOf xs := by simp [nanosOf]
    have hn : n ≤ n * u.nanos := Nat.le_mul_of_pos_right n u.nanos_pos
    rw [hsplit] at h
    rw [addAll?_cons, if_pos (by omega), add?_of_lt (by omega), Option.bind_some,
      ih (by simp only; omega), hsplit, Nat.add_assoc]

/-- What two texts have is added, unless it is too much. -/
theorem addAll?_append_of_some {e : Duration} (hx : addAll? ⟨0⟩ xs = some d)
    (hy : addAll? ⟨0⟩ ys = some e) :
    addAll? ⟨0⟩ (xs ++ ys) = some ⟨d.nanos + e.nanos⟩ ∨
      addAll? ⟨0⟩ (xs ++ ys) = none ∧ limit ≤ d.nanos + e.nanos := by
  have hd : d.nanos = nanosOf xs := by simpa using nanos_of_addAll? hx
  have he : e.nanos = nanosOf ys := by simpa using nanos_of_addAll? hy
  have hboth := nanosOf_append xs ys
  cases hsum : addAll? ⟨0⟩ (xs ++ ys) with
  | some sum =>
    have hnanos : sum.nanos = d.nanos + e.nanos := by
      rw [nanos_of_addAll? hsum, hboth, hd, he, Nat.zero_add]
    exact .inl (congrArg some (congrArg Duration.mk hnanos))
  | none =>
    refine .inr ⟨rfl, ?_⟩
    by_contra hlt
    rw [addAll?_of_lt (by simp only; omega)] at hsum
    cases hsum

end

section
variable {s t d w r : List Char} {c : Char} {xs ys : List (Nat × TimeUnit)}

/-- A number is over where a unit begins. -/
theorem head_unit {name t : List Char} {u : TimeUnit}
    (hu : TimeUnit.ofName? (String.ofList name) = some u) :
    ∀ c ∈ (name ++ t).head?, inNumber c = false := by
  obtain ⟨hname, hletters⟩ := TimeUnit.letters_of_ofName? hu
  intro c hc
  rw [List.head?_append_of_ne_nil _ hname] at hc
  exact inNumber_of_isAlpha (hletters c (List.mem_of_mem_head? hc))

theorem inNumber_of_isBlank (h : isBlank c = true) : inNumber c = true := by
  simp [inNumber, h]

theorem inNumber_of_isDigit (h : c.isDigit = true) : inNumber c = true := by
  simp [inNumber, h]

theorem filter_isDigit_of_blank (h : ∀ c ∈ w, isBlank c = true) : w.filter Char.isDigit = [] :=
  List.filter_eq_nil_iff.mpr fun c hc => by simp [not_isDigit_of_isBlank (h c hc)]

theorem Segments.head_inNumber (h : Segments s xs) : ∀ c ∈ s.head?, inNumber c = true := by
  cases h with
  | blank hw => exact fun c hc => inNumber_of_isBlank (hw c (List.mem_of_mem_head? hc))
  | @cons d name t u xs hd hne =>
    intro c hc
    rw [List.head?_append_of_ne_nil _ (by rintro rfl; simp at hne)] at hc
    exact hd c (List.mem_of_mem_head? hc)

theorem Segments.not_isDigit_getLast (h : Segments s xs) :
    ∀ c ∈ s.getLast?, c.isDigit = false := by
  induction h with
  | blank hw => exact fun c hc => not_isDigit_of_isBlank (hw c (List.mem_of_mem_getLast? hc))
  | @cons d name t u xs hd hne hu ht hs ih =>
    intro c hc
    obtain ⟨hname, hletters⟩ := TimeUnit.letters_of_ofName? hu
    cases t with
    | nil =>
      rw [List.append_nil, List.getLast?_append_of_ne_nil _ hname] at hc
      have hstop := inNumber_of_isAlpha (hletters c (List.mem_of_mem_getLast? hc))
      exact (Bool.or_eq_false_iff.mp hstop).1
    | cons b t =>
      rw [List.getLast?_append_of_ne_nil _ (by simp),
        List.getLast?_append_of_ne_nil _ (List.cons_ne_nil b t)] at hc
      exact ih c hc

theorem Segments.eq_nil_of_blank (h : Segments s xs) (hs : ∀ c ∈ s, isBlank c = true) :
    xs = [] := by
  cases h with
  | blank => rfl
  | cons hd hne =>
    exact absurd (filter_isDigit_of_blank fun c hc => hs c (List.mem_append_left _ hc)) hne

theorem Segments.blank_append (hw : ∀ c ∈ w, isBlank c = true) (h : Segments s xs) :
    Segments (w ++ s) xs := by
  cases h with
  | blank hs => exact .blank fun c hc => (List.mem_append.mp hc).elim (hw c) (hs c)
  | @cons d name t u xs hd hne hu ht hs =>
    have hfilter : (w ++ d).filter Char.isDigit = d.filter Char.isDigit := by
      rw [List.filter_append, filter_isDigit_of_blank hw, List.nil_append]
    rw [← List.append_assoc, ← hfilter]
    refine .cons (fun c hc => ?_) (by rwa [hfilter]) hu ht hs
    exact (List.mem_append.mp hc).elim (fun hc => inNumber_of_isBlank (hw c hc)) (hd c)

/-- One text after another has the segments of both. -/
theorem Segments.append (h : Segments s xs) (ht : Segments t ys) :
    Segments (s ++ t) (xs ++ ys) := by
  induction h with
  | blank hw => exact ht.blank_append hw
  | @cons d name r u xs hd hne hu hr _ ih =>
    rw [List.append_assoc, List.append_assoc]
    refine .cons hd hne hu ?_ ih
    cases r with
    | nil => exact ht.head_inNumber
    | cons c r => exact hr

/-- After a number that is over there is the name of a unit. -/
theorem Segments.unit_of_number (h : Segments (d ++ c :: r) xs) (hd : ∀ c ∈ d, inNumber c = true)
    (hc : inNumber c = false) :
    d.filter Char.isDigit ≠ [] ∧ ∃ name t u ys, c :: r = name ++ t ∧
      TimeUnit.ofName? (String.ofList name) = some u ∧ (∀ c ∈ t.head?, inNumber c = true) ∧
      Segments t ys ∧ xs = (ofDigits (d.filter Char.isDigit), u) :: ys := by
  generalize hs : d ++ c :: r = s at h
  cases h with
  | blank hw =>
    have := inNumber_of_isBlank (hw c (by simp [← hs]))
    rw [hc] at this
    cases this
  | @cons d' name t u ys hd' hne hu ht hys =>
    have hfirst := takeWhile_append_of_head hd (t := c :: r) (by simpa using hc)
    have hsecond := takeWhile_append_of_head hd' (head_unit (t := t) hu)
    rw [hs] at hfirst
    obtain rfl : d = d' := hfirst.1.symm.trans hsecond.1
    exact ⟨hne, name, t, u, ys, hfirst.2.symm.trans hsecond.2, hu, ht, hys, rfl⟩

/-- Where no digit comes first there are only blanks. -/
theorem Segments.blank_of_no_digit (h : Segments (w ++ t) xs) (hw : ∀ c ∈ w, c.isDigit = false) :
    ∀ c ∈ w, isBlank c = true := by
  by_contra hne
  obtain ⟨v, c, r, rfl, hv, hc⟩ := exists_first_not hne
  have hstop : inNumber c = false := by
    rw [inNumber, hw c (by simp), hc]
    rfl
  rw [List.append_assoc, List.cons_append] at h
  exact (h.unit_of_number (fun c hc => inNumber_of_isBlank (hv c hc)) hstop).1
    (filter_isDigit_of_blank hv)

/-- A zero in front of the first number changes nothing. -/
theorem Segments.zero_cons (h : Segments s xs) (hxs : xs ≠ []) : Segments ('0' :: s) xs := by
  cases h with
  | blank => exact absurd rfl hxs
  | @cons d name t u xs hd hne hu ht hs =>
    have hzero : ofDigits (('0' :: d).filter Char.isDigit) = ofDigits (d.filter Char.isDigit) :=
      Json.ofDigits_zeros_append 1 _
    rw [← hzero, ← List.cons_append]
    refine .cons ?_ (by simp) hu ht hs
    exact List.forall_mem_cons.mpr ⟨rfl, hd⟩

end

section
variable {total sum : Duration} {byte n : Nat} {u : TimeUnit} {s t d name r : List Char} {c : Char}
variable {xs : List (Nat × TimeUnit)}

theorem Segments.of_blank_cons (h : Segments (c :: r) xs) (hc : isBlank c = true) :
    Segments r xs := by
  generalize hs : c :: r = s at h
  cases h with
  | blank hw =>
    rw [← hs] at hw
    exact .blank fun d hd => hw d (List.mem_cons_of_mem c hd)
  | @cons d name t u ys hd hne hu ht hys =>
    cases d with
    | nil => exact absurd rfl hne
    | cons e d =>
      obtain ⟨rfl, rfl⟩ := List.cons.inj hs
      have hfilter : (c :: d).filter Char.isDigit = d.filter Char.isDigit := by
        simp [not_isDigit_of_isBlank hc]
      rw [hfilter] at hne ⊢
      exact .cons (List.forall_mem_cons.mp hd).2 hne hu ht hys

theorem Segments.of_blank_append {w : List Char} (h : Segments (w ++ s) xs)
    (hw : ∀ c ∈ w, isBlank c = true) : Segments s xs := by
  induction w with
  | nil => exact h
  | cons c w ih =>
    obtain ⟨hc, hw⟩ := List.forall_mem_cons.mp hw
    exact ih (h.of_blank_cons hc) hw

theorem unit_split (hletters : ∀ c ∈ name, c.isAlpha = true)
    (ht : ∀ c ∈ t.head?, inNumber c = true) :
    (name ++ t).takeWhile Char.isAlpha = name ∧ (name ++ t).dropWhile Char.isAlpha = t := by
  refine takeWhile_append_of_head hletters fun c hc => ?_
  by_contra hne
  rw [Bool.not_eq_false] at hne
  exact Bool.false_ne_true ((inNumber_of_isAlpha hne).symm.trans (ht c hc))

theorem segments_afterUnit_iff (hletters : ∀ c ∈ name, c.isAlpha = true)
    (ht : ∀ c ∈ t.head?, inNumber c = true) :
    Segments (afterUnit (name ++ t)) xs ↔ Segments t xs := by
  unfold afterUnit
  rw [(unit_split hletters ht).2]
  cases t with
  | nil => exact Iff.rfl
  | cons c r =>
    simp only
    split
    next hc =>
      refine ⟨fun h => ?_, fun h => h.of_blank_cons hc⟩
      exact h.blank_append (w := [c]) (by simpa using hc)
    next => exact Iff.rfl

theorem unitAt_known_eq_ok : unitAt.known n name = .ok u ↔
    TimeUnit.ofName? (String.ofList name) = some u := by
  unfold unitAt.known
  constructor
  · intro h
    obtain ⟨_, h⟩ := refused_unless_eq_ok h
    split at h
    next v hv => rw [hv, Except.ok.inj h]
    next => cases h
  · intro h
    rw [if_neg (TimeUnit.letters_of_ofName? h).1, h]

theorem unitAt_eq_ok : unitAt n byte r = .ok u ↔ ∃ name t, r = name ++ t ∧
    TimeUnit.ofName? (String.ofList name) = some u ∧ ∀ c ∈ t.head?, inNumber c = true := by
  constructor
  · intro h
    refine ⟨r.takeWhile Char.isAlpha, r.dropWhile Char.isAlpha,
      List.takeWhile_append_dropWhile.symm, ?_⟩
    unfold unitAt at h
    simp only at h
    split at h
    next ht => exact ⟨unitAt_known_eq_ok.mp h, by simp [ht]⟩
    next c t ht =>
      split at h
      next hc => exact ⟨unitAt_known_eq_ok.mp h, by simpa [ht] using hc⟩
      next => cases h
  · rintro ⟨name, t, rfl, hu, ht⟩
    have hsplit := unit_split (TimeUnit.letters_of_ofName? hu).2 ht
    unfold unitAt
    simp only [hsplit.1, hsplit.2]
    cases t with
    | nil => exact unitAt_known_eq_ok.mpr hu
    | cons c t =>
      simp only [ht c rfl, if_true]
      exact unitAt_known_eq_ok.mpr hu

/-- One step of the reader: the number with its blanks, then the unit. -/
theorem addSegments_cons (total : Duration) (byte : Nat) (hd : ∀ c ∈ d, inNumber c = true)
    (hne : d.filter Char.isDigit ≠ []) (hu : TimeUnit.ofName? (String.ofList name) = some u)
    (ht : ∀ c ∈ t.head?, inNumber c = true) :
    ∃ next, addSegments total byte (d ++ (name ++ t)) =
      if limit ≤ ofDigits (d.filter Char.isDigit) then .error .tooLarge
      else (total.add? (ofDigits (d.filter Char.isDigit)) u).elim (.error .tooLarge)
        fun sum => addSegments sum next (afterUnit (name ++ t)) := by
  obtain ⟨w, c, ds, rfl, hw, hc⟩ := exists_first_not (mt filter_isDigit_of_blank hne)
  have hdigit : c.isDigit = true := by simpa [inNumber, hc] using hd c (by simp)
  have hds := takeWhile_append_of_head (s := ds) (fun e he => hd e (by simp [he]))
    (head_unit (t := t) hu)
  have hfilter : (w ++ c :: ds).filter Char.isDigit = (c :: ds).filter Char.isDigit := by
    rw [List.filter_append, filter_isDigit_of_blank hw, List.nil_append]
  have hdrop : (w ++ c :: (ds ++ (name ++ t))).dropWhile isBlank = c :: (ds ++ (name ++ t)) :=
    trimStart_append_of_not_blank _ hw hc
  have hunit (n start : Nat) : unitAt n start (name ++ t) = .ok u :=
    unitAt_eq_ok.mpr ⟨name, t, rfl, hu, ht⟩
  rw [hfilter, List.append_assoc, List.cons_append, addSegments]
  split
  next h => cases hdrop.symm.trans h
  next c' r' h =>
    obtain ⟨rfl, rfl⟩ := List.cons.inj (hdrop.symm.trans h)
    simp only [if_pos hdigit, hds.1, hds.2, hunit]
    cases total.add? (ofDigits ((c :: ds).filter Char.isDigit)) u with
    | none => exact ⟨0, rfl⟩
    | some sum => exact ⟨_, rfl⟩

/-- What is read of a text is its segments. -/
theorem segments_of_addSegments {e : Duration} (h : addSegments total byte s = .ok e) :
    ∃ xs, Segments s xs ∧ addAll? total xs = some e := by
  fun_induction addSegments total byte s
  case case1 total _ s hs =>
    obtain rfl := Except.ok.inj h
    refine ⟨[], .blank fun c hc => ?_, rfl⟩
    rw [← List.takeWhile_append_dropWhile (p := isBlank) (l := s), hs, List.append_nil] at hc
    exact List.mem_takeWhile_imp hc
  case case5 total byte s c r hs hdigit number rest start n hn u hu sum hsum ih =>
    obtain ⟨xs, hxs, hadd⟩ := ih h
    obtain ⟨name, t, hrest, hname, ht⟩ := unitAt_eq_ok.mp hu
    have hwhole : s = (s.takeWhile isBlank ++ number) ++ (name ++ t) := by
      rw [← hrest, List.append_assoc, List.cons_append, List.takeWhile_append_dropWhile, ← hs,
        List.takeWhile_append_dropWhile]
    have hblank : ∀ d ∈ s.takeWhile isBlank, isBlank d = true := fun _ => List.mem_takeWhile_imp
    have hfilter : (s.takeWhile isBlank ++ number).filter Char.isDigit =
        number.filter Char.isDigit := by
      rw [List.filter_append, filter_isDigit_of_blank hblank, List.nil_append]
    have hnumber : ∀ d ∈ s.takeWhile isBlank ++ number, inNumber d = true := by
      intro d hd
      rcases List.mem_append.mp hd with hd | hd
      · exact inNumber_of_isBlank (hblank d hd)
      · rcases List.mem_cons.mp hd with rfl | hd
        · exact inNumber_of_isDigit hdigit
        · exact List.mem_takeWhile_imp hd
    rw [hrest, segments_afterUnit_iff (TimeUnit.letters_of_ofName? hname).2 ht] at hxs
    refine ⟨(n, u) :: xs, ?_, ?_⟩
    · rw [hwhole]
      have := Segments.cons hnumber (by simp [hfilter, number, hdigit]) hname ht hxs
      rwa [hfilter] at this
    · rw [addAll?_cons, if_pos (Nat.lt_of_not_le hn), hsum]
      exact hadd
  all_goals cases h

/-- Segments are read, unless what they come to is too much. -/
theorem addSegments_of_segments (h : Segments s xs) :
    addSegments total byte s = (addAll? total xs).elim (.error .tooLarge) .ok := by
  induction hn : s.length using Nat.strong_induction_on generalizing s xs total byte with
  | _ n ih =>
  cases h with
  | blank hw =>
    have hnil : s.dropWhile isBlank = [] := by simpa using hw
    rw [addSegments]
    split
    next => rfl
    next c r h => cases hnil.symm.trans h
  | @cons d name t u xs hd hne hu ht hs =>
    have hletters := (TimeUnit.letters_of_ofName? hu).2
    obtain ⟨next, hstep⟩ := addSegments_cons total byte hd hne hu ht
    have hshort : (afterUnit (name ++ t)).length < n := by
      have := afterUnit_length_le (name ++ t)
      have : 0 < d.length := List.length_pos_iff.mpr (by rintro rfl; exact hne rfl)
      rw [← hn, List.length_append]
      omega
    rw [hstep, addAll?_cons]
    by_cases hlimit : limit ≤ ofDigits (d.filter Char.isDigit)
    · rw [if_pos hlimit, if_neg (by omega)]
      rfl
    · rw [if_neg hlimit, if_pos (by omega)]
      cases hadd : total.add? (ofDigits (d.filter Char.isDigit)) u with
      | none => rfl
      | some sum =>
        exact ih _ hshort ((segments_afterUnit_iff hletters ht).mpr hs) rfl

end

end Duration

end EventStream
