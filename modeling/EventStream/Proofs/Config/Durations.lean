import EventStream.Proofs.Config.Pieces

namespace EventStream.Duration

/-- A text without a plus in front, with one letter for micro. -/
def withoutPlus (s : List Char) : List Char :=
  (if s.head? = some '+' then s.tail else s).map plainMicro

/-- What is put for a text has these segments. -/
def Reads (s : List Char) (xs : List (Nat × TimeUnit)) : Prop :=
  ∃ s', expandFractions s = .ok s' ∧ Segments s' xs

section
variable {s t w : List Char} {c : Char} {d : Duration} {xs ys : List (Nat × TimeUnit)}
variable {text : String}

theorem parse_eq (h : (trim text.toList).head? ≠ some '-') :
    parse text = parse.unsigned (withoutPlus (trim text.toList)) := by
  unfold parse withoutPlus
  generalize trim text.toList = s at h ⊢
  split
  next r => exact absurd rfl h
  next r => rfl
  next hplus =>
    have hhead : s.head? ≠ some '+' := fun hs => (List.head?_eq_some_iff.mp hs).elim hplus
    rw [if_neg hhead]

theorem head_of_parse (h : parse text = .ok d) : (trim text.toList).head? ≠ some '-' := by
  unfold parse at h
  generalize trim text.toList = s at h ⊢
  split at h
  next => cases h
  next => simp
  next hminus _ => exact fun hs => (List.head?_eq_some_iff.mp hs).elim hminus

theorem ofSegments_eq {s' : List Char} (h : Segments s' xs) (hxs : xs ≠ []) :
    ofSegments s' = (addAll? ⟨0⟩ xs).elim (.error .tooLarge) .ok := by
  have hnot : ¬s'.all isBlank = true := fun hall =>
    hxs (h.eq_nil_of_blank (List.all_eq_true.mp hall))
  unfold ofSegments
  rw [if_neg hnot, addSegments_of_segments h]

theorem unsigned_of_expand {s' : List Char} (hs : s ≠ ['0']) (h : expandFractions s = .ok s') :
    parse.unsigned s = ofSegments s' := by
  unfold parse.unsigned
  rw [if_neg hs]
  split
  · rw [h]
  next hdot =>
    rw [expandFractions_of_no_point fun hc => hdot (List.contains_iff_mem.mpr hc)] at h
    rw [Except.ok.inj h]

theorem unsigned_eq (hs : s ≠ ['0']) (h : Reads s xs) (hxs : xs ≠ []) :
    parse.unsigned s = (addAll? ⟨0⟩ xs).elim (.error .tooLarge) .ok := by
  obtain ⟨s', hexpand, hseg⟩ := h
  rw [unsigned_of_expand hs hexpand, ofSegments_eq hseg hxs]

theorem reads_of_unsigned (hs : s ≠ ['0']) (h : parse.unsigned s = .ok d) :
    ∃ xs, Reads s xs ∧ xs ≠ [] ∧ addAll? ⟨0⟩ xs = some d := by
  cases hexpand : expandFractions s with
  | error e =>
    unfold parse.unsigned at h
    rw [if_neg hs, hexpand] at h
    split at h
    next => cases h
    next hdot =>
      rw [expandFractions_of_no_point fun hc => hdot (List.contains_iff_mem.mpr hc)] at hexpand
      cases hexpand
  | ok s' =>
    rw [unsigned_of_expand hs hexpand] at h
    unfold ofSegments at h
    obtain ⟨hnot, hadd⟩ := refused_unless_eq_ok h
    obtain ⟨xs, hxs, hsum⟩ := segments_of_addSegments hadd
    refine ⟨xs, ⟨s', hexpand, hxs⟩, ?_, hsum⟩
    rintro rfl
    cases hxs with
    | blank hw => exact hnot (List.all_eq_true.mpr hw)

/-- Only blanks come before the first number. -/
theorem Reads.of_lead (h : Reads (w ++ s) xs) (hw : ∀ c ∈ w, isNumeral c = false)
    (hs : ∀ c ∈ s.head?, isNumeral c = true) : (∀ c ∈ w, isBlank c = true) ∧ Reads s xs := by
  obtain ⟨_, hexpand, hseg⟩ := h
  obtain ⟨s', hs', rfl⟩ := (expandFractions_lead hw hs).mp hexpand
  have hblank := hseg.blank_of_no_digit fun c hc => (Bool.or_eq_false_iff.mp (hw c hc)).1
  exact ⟨hblank, s', hs', hseg.of_blank_append hblank⟩

theorem Reads.ne_nil (h : Reads s xs) (hxs : xs ≠ []) : s ≠ [] := by
  rintro rfl
  obtain ⟨s', hexpand, hseg⟩ := h
  obtain rfl := expandFractions_nil_eq_ok.mp hexpand
  exact hxs (hseg.eq_nil_of_blank (by simp))

theorem Reads.isNumeral_head (h : Reads s xs) (hs : ∀ c ∈ s.head?, isBlank c = false) :
    ∀ c ∈ s.head?, isNumeral c = true := by
  obtain ⟨lead, body, rfl, hlead, hbody⟩ := exists_lead s
  have hblank := (h.of_lead hlead hbody).1
  cases lead with
  | nil => exact hbody
  | cons c r =>
    have := (hblank c List.mem_cons_self).symm.trans (hs c rfl)
    cases this

theorem Reads.not_isNumeral_getLast (h : Reads s xs) :
    ∀ c ∈ s.getLast?, isNumeral c = false := by
  intro c hc
  obtain ⟨s', hexpand, hseg⟩ := h
  by_contra hnumeral
  rw [Bool.not_eq_false] at hnumeral
  obtain ⟨e, he, hdigit⟩ := isDigit_getLast_of_expandFractions hexpand ⟨c, hc, hnumeral⟩
  rw [hseg.not_isDigit_getLast e he] at hdigit
  cases hdigit

/-- Blanks may stand between texts of segments. -/
theorem Reads.append (hs : Reads s xs) (ht : Reads t ys) (hw : ∀ c ∈ w, isBlank c = true)
    (hne : s ≠ []) (hhead : ∀ c ∈ t.head?, isBlank c = false) :
    Reads (s ++ (w ++ t)) (xs ++ ys) := by
  obtain ⟨c, hc⟩ := Option.isSome_iff_exists.mp (List.getLast?_isSome.mpr hne)
  have hlast := hs.not_isNumeral_getLast c hc
  have hnumeral := ht.isNumeral_head hhead
  obtain ⟨s', hs', hxs⟩ := hs
  obtain ⟨t', ht', hys⟩ := ht
  obtain ⟨w', hw', h⟩ := expandFractions_append hs' ht' hw ⟨c, hc, hlast⟩ hnumeral
  exact ⟨_, h, hxs.append (hys.blank_append hw')⟩

theorem Reads.zero_append (ht : Reads t ys) (hw : ∀ c ∈ w, isBlank c = true) (hys : ys ≠ [])
    (hhead : ∀ c ∈ t.head?, isBlank c = false) : Reads ('0' :: (w ++ t)) ys := by
  obtain ⟨c, r, hcr⟩ := List.exists_cons_of_ne_nil (ht.ne_nil hys)
  have hc : c ∈ t.head? := by simp [hcr]
  have hnumeral := ht.isNumeral_head hhead c hc
  obtain ⟨t', ht', hseg⟩ := ht
  rcases expandFractions_zero_cons ht' hw ⟨c, hc, hnumeral⟩ with h | ⟨_, h⟩
  · exact ⟨_, h, (hseg.blank_append hw).zero_cons hys⟩
  · exact ⟨_, h, hseg⟩

/-- Two texts without signs around blanks. -/
theorem unsigned_append {e : Duration} (hs : parse.unsigned s = .ok d)
    (ht : parse.unsigned t = .ok e) (ht0 : t ≠ ['0']) (hw : ∀ c ∈ w, isBlank c = true)
    (hhead : ∀ c ∈ t.head?, isBlank c = false) :
    parse.unsigned (s ++ (w ++ t)) = .ok ⟨d.nanos + e.nanos⟩ ∨
      parse.unsigned (s ++ (w ++ t)) = .error .tooLarge ∧ limit ≤ d.nanos + e.nanos := by
  obtain ⟨ys, hys, hysne, hte⟩ := reads_of_unsigned ht0 ht
  have htne := hys.ne_nil hysne
  by_cases hs0 : s = ['0']
  · subst hs0
    obtain rfl := Except.ok.inj hs
    have hzero := hys.zero_append hw hysne hhead
    rw [List.singleton_append, unsigned_eq (by simp [htne]) hzero hysne, hte]
    left
    simp
  · obtain ⟨xs, hxs, hxsne, hsd⟩ := reads_of_unsigned hs0 hs
    have hsne := hxs.ne_nil hxsne
    have hboth := hxs.append hys hw hsne hhead
    have hlong : s ++ (w ++ t) ≠ ['0'] := by
      intro h
      have hlength := congrArg List.length h
      have := List.length_pos_iff.mpr hsne
      have := List.length_pos_iff.mpr htne
      simp only [List.length_append, List.length_singleton] at hlength
      omega
    rw [unsigned_eq hlong hboth (by simp [hxsne])]
    rcases addAll?_append_of_some hsd hte with h | ⟨h, hlimit⟩
    · rw [h]
      exact .inl rfl
    · rw [h]
      exact .inr ⟨rfl, hlimit⟩

theorem plainMicro_eq_self (h : isBlank c = true) : plainMicro c = c := by
  unfold plainMicro
  rw [if_neg]
  rintro (rfl | rfl) <;> cases h

theorem map_plainMicro_of_blank (hw : ∀ c ∈ w, isBlank c = true) : w.map plainMicro = w :=
  (List.map_congr_left fun c hc => plainMicro_eq_self (hw c hc)).trans (List.map_id w)

theorem isBlank_plainMicro (c : Char) : isBlank (plainMicro c) = isBlank c := by
  unfold plainMicro
  split
  next h => rcases h with rfl | rfl <;> rfl
  next => rfl

theorem plainMicro_eq_zero : plainMicro c = '0' ↔ c = '0' := by
  unfold plainMicro
  split
  next h => rcases h with rfl | rfl <;> decide
  next => rfl

theorem withoutPlus_append (hs : s ≠ []) :
    withoutPlus (s ++ t) = withoutPlus s ++ t.map plainMicro := by
  obtain ⟨c, r, rfl⟩ := List.exists_cons_of_ne_nil hs
  unfold withoutPlus
  rw [List.cons_append, List.head?_cons, List.head?_cons]
  split <;> simp

theorem trim_ne_nil_of_parse (h : parse text = .ok d) : trim text.toList ≠ [] := by
  intro hnil
  rw [parse_eq (head_of_parse h), hnil] at h
  obtain ⟨xs, hxs, hne, _⟩ := reads_of_unsigned (by decide) h
  exact hxs.ne_nil hne rfl

/-- The text between the blanks around two texts in a row. -/
theorem trim_append_of_trim (hs : trim s ≠ []) (ht : trim t ≠ []) :
    ∃ w, (∀ c ∈ w, isBlank c = true) ∧ trim (s ++ t) = trim s ++ (w ++ trim t) := by
  obtain ⟨w, v, hs', hw, hv, hfirst, _⟩ := trim_spec s
  obtain ⟨w', v', ht', hw', hv', _, hlast⟩ := trim_spec t
  refine ⟨v ++ w', fun c hc => (List.mem_append.mp hc).elim (hv c) (hw' c), ?_⟩
  have htext : s ++ t = w ++ ((trim s ++ (v ++ w' ++ trim t)) ++ v') := by
    conv_lhs => rw [hs', ht']
    simp
  rw [htext]
  refine trim_append hw hv' ?_ ?_
  · rwa [List.head?_append_of_ne_nil _ hs]
  · rwa [List.getLast?_append_of_ne_nil _ (by simp [ht]), List.getLast?_append_of_ne_nil _ ht]

end

theorem parse_half_second : parse " 0.5s" = .ok ⟨500000000⟩ := by
  rw [parse_eq (by decide)]
  exact (unsigned_of_expand (by decide) expandFractions_half_second).trans (by cbv)

/-- The durations of two texts add up, unless that is too much. -/
theorem parse_append {s t : String} {d e : Duration} (hs : parse s = .ok d) (ht : parse t = .ok e)
    (ht0 : trim t.toList ≠ ['0']) (hplus : (trim t.toList).head? ≠ some '+') :
    parse (s ++ t) = .ok ⟨d.nanos + e.nanos⟩ ∨
      parse (s ++ t) = .error .tooLarge ∧ limit ≤ d.nanos + e.nanos := by
  have hsne := trim_ne_nil_of_parse hs
  obtain ⟨w, hw, htrim⟩ := trim_append_of_trim hsne (trim_ne_nil_of_parse ht)
  rw [← String.toList_append] at htrim
  have hminus : (trim (s ++ t).toList).head? ≠ some '-' := by
    rw [htrim, List.head?_append_of_ne_nil _ hsne]
    exact head_of_parse hs
  have hsecond : withoutPlus (trim t.toList) = (trim t.toList).map plainMicro := by
    rw [withoutPlus, if_neg hplus]
  have hzero : withoutPlus (trim t.toList) ≠ ['0'] := by
    rw [hsecond]
    intro h
    obtain ⟨c, hc, hzero⟩ := List.map_eq_singleton_iff.mp h
    rw [plainMicro_eq_zero.mp hzero] at hc
    exact ht0 hc
  have hhead : ∀ c ∈ (withoutPlus (trim t.toList)).head?, isBlank c = false := by
    obtain ⟨_, _, _, _, _, hfirst, _⟩ := trim_spec t.toList
    rw [hsecond, List.head?_map]
    intro c hc
    obtain ⟨b, hb, rfl⟩ := Option.map_eq_some_iff.mp hc
    rw [isBlank_plainMicro, hfirst b hb]
  rw [parse_eq (head_of_parse hs)] at hs
  rw [parse_eq (head_of_parse ht)] at ht
  rw [parse_eq hminus, htrim, withoutPlus_append hsne, List.map_append,
    map_plainMicro_of_blank hw, ← hsecond]
  exact unsigned_append hs ht hzero hw hhead

theorem parse_append_minute_half_second :
    parse "+1m " = .ok ⟨60000000000⟩ ∧ parse " 0.5s" = .ok ⟨500000000⟩ ∧
    (parse ("+1m " ++ " 0.5s") = .ok ⟨60500000000⟩ ∨
      parse ("+1m " ++ " 0.5s") = .error .tooLarge ∧ limit ≤ 60500000000) := by
  have hminute : parse "+1m " = .ok ⟨60000000000⟩ := by cbv
  exact ⟨hminute, parse_half_second,
    parse_append hminute parse_half_second (by decide) (by decide)⟩

end EventStream.Duration
