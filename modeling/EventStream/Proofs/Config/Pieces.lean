import EventStream.Proofs.Config.Fractions
import EventStream.Proofs.Text.Trimming

namespace EventStream.Duration

/-- Digits and points, then none of them. -/
structure Piece.IsRun (p : Piece) : Prop where
  text_ne_nil : p.text ≠ []
  number : ∀ c ∈ p.number, isNumeral c = true
  unit : ∀ c ∈ p.unit, isNumeral c = false

/-- A text as runs of digits and points, each with what follows it up to the next one. -/
inductive Cut : List Char → List Piece → Prop
  | nil : Cut [] []
  | cons {p : Piece} {t : List Char} {ps : List Piece} : p.IsRun →
      (∀ c ∈ t.head?, p.unit ≠ [] ∧ isNumeral c = true) → Cut t ps → Cut (p.text ++ t) (p :: ps)

section
variable {p : Piece} {s t : List Char} {ps : List Piece}

theorem pieces_append (hp : p.IsRun) (ht : ∀ c ∈ t.head?, p.unit ≠ [] ∧ isNumeral c = true) :
    pieces (p.text ++ t) = p :: pieces t := by
  have hunit : ∀ c ∈ (p.unit ++ t).head?, isNumeral c = false := by
    cases hcase : p.unit with
    | nil => exact fun c hc => absurd hcase (ht c hc).1
    | cons d unit => simpa using hp.unit d (by simp [hcase])
  have hnumber := takeWhile_append_of_head hp.number hunit
  have hrest : (p.unit ++ t).takeWhile (!isNumeral ·) = p.unit ∧
      (p.unit ++ t).dropWhile (!isNumeral ·) = t :=
    takeWhile_append_of_head (fun c hc => by simp [hp.unit c hc]) fun c hc => by simp [(ht c hc).2]
  have htext : p.text ++ t = p.number ++ (p.unit ++ t) := List.append_assoc _ _ _
  obtain ⟨c, r, hcr⟩ := List.exists_cons_of_ne_nil
    (List.append_ne_nil_of_left_ne_nil hp.text_ne_nil t)
  rw [htext] at hcr ⊢
  rw [hcr, pieces, ← hcr]
  simp only [hnumber.1, hnumber.2, hrest.1, hrest.2]

theorem cut_pieces (s : List Char) : Cut s (pieces s) := by
  fun_induction pieces s with
  | case1 => exact .nil
  | case2 c r rest ih =>
    generalize hp : (⟨(c :: r).takeWhile isNumeral, rest.takeWhile (!isNumeral ·)⟩ : Piece) = p
    generalize ht : rest.dropWhile (!isNumeral ·) = t at ih ⊢
    have hrest : rest = p.unit ++ t := by
      rw [← hp, ← ht, List.takeWhile_append_dropWhile]
    have htext : c :: r = p.text ++ t := by
      rw [Piece.text, List.append_assoc, ← hrest, ← hp, List.takeWhile_append_dropWhile]
    have hstop : ∀ d ∈ t.head?, p.unit ≠ [] ∧ isNumeral d = true := by
      intro d hd
      have hnumeral : isNumeral d = true := by
        rw [← ht] at hd
        simpa using head_dropWhile hd
      refine ⟨fun hunit => ?_, hnumeral⟩
      have hfirst : d ∈ rest.head? := by rwa [hrest, hunit]
      exact Bool.false_ne_true ((head_dropWhile hfirst).symm.trans hnumeral)
    rw [htext]
    refine .cons ⟨fun hnil => ?_, fun d hd => ?_, fun d hd => ?_⟩ hstop ih
    · rw [hnil, List.nil_append] at htext
      have hunit := (hstop c (by simp [← htext])).1
      exact hunit (List.append_eq_nil_iff.mp hnil).2
    · rw [← hp] at hd
      exact List.mem_takeWhile_imp hd
    · rw [← hp] at hd
      simpa using List.mem_takeWhile_imp hd

theorem exists_lead (s : List Char) : ∃ lead body, s = lead ++ body ∧
    (∀ c ∈ lead, isNumeral c = false) ∧ ∀ c ∈ body.head?, isNumeral c = true := by
  refine ⟨s.takeWhile (!isNumeral ·), s.dropWhile (!isNumeral ·),
    List.takeWhile_append_dropWhile.symm, fun c hc => ?_, fun c hc => ?_⟩
  · simpa using List.mem_takeWhile_imp hc
  · simpa using head_dropWhile hc

end

theorem not_isNumeral_of_isBlank {c : Char} (h : isBlank c = true) : isNumeral c = false := by
  rw [isNumeral, not_isDigit_of_isBlank h, Bool.false_or]
  by_contra hc
  rw [Bool.not_eq_false, beq_iff_eq] at hc
  subst hc
  cases h

section
variable {p : Piece} {s t w e s' t' lead body : List Char}

theorem Piece.expand_eq_ok : p.expand = .ok e ↔
    ('.' ∉ p.number ∧ e = p.text) ∨
      ('.' ∈ p.number ∧ ∃ n, fractionNanos p.number p.unit = .ok n ∧
        e = digitsOf n ++ ['n', 's', ' ']) := by
  unfold expand
  by_cases hdot : '.' ∈ p.number
  · rw [if_pos (List.contains_iff_mem.mpr hdot), map_eq_ok]
    simp [hdot, @eq_comm _ e]
  · simp [hdot, @eq_comm _ e]

theorem Piece.expand_of_no_point (h : '.' ∉ p.number) : p.expand = .ok p.text :=
  expand_eq_ok.mpr (.inl ⟨h, rfl⟩)

theorem Piece.IsRun.isDigit_of_no_point (hp : p.IsRun) (h : '.' ∉ p.number) :
    ∀ c ∈ p.number, c.isDigit = true := by
  intro c hc
  refine (isNumeral_iff.mp (hp.number c hc)).resolve_right ?_
  rintro rfl
  exact h hc

theorem expand_half_second : (Piece.mk ['0', '.', '5'] ['s']).expand =
    .ok ['5', '0', '0', '0', '0', '0', '0', '0', '0', 'n', 's', ' '] :=
  Piece.expand_eq_ok.mpr (.inr ⟨by decide, 500000000, fractionNanos_half_second, by decide⟩)

theorem expandFractions_nil : expandFractions [] = .ok [] := by
  simp [expandFractions, pieces]
  rfl

theorem expandFractions_nil_eq_ok : expandFractions [] = .ok s' ↔ s' = [] := by
  rw [expandFractions_nil, Except.ok.injEq, eq_comm]

/-- Each run is put by itself. -/
theorem expandFractions_append_eq_ok (hp : p.IsRun)
    (ht : ∀ c ∈ t.head?, p.unit ≠ [] ∧ isNumeral c = true) :
    expandFractions (p.text ++ t) = .ok s' ↔
      ∃ e t', p.expand = .ok e ∧ expandFractions t = .ok t' ∧ s' = e ++ t' := by
  simp only [expandFractions, pieces_append hp ht, map_eq_ok, mapM_eq_ok,
    List.forall₂_cons_left_iff]
  constructor
  · rintro ⟨_, ⟨e, es, he, hes, rfl⟩, rfl⟩
    exact ⟨e, _, he, ⟨es, hes, rfl⟩, rfl⟩
  · rintro ⟨e, _, he, ⟨es, hes, rfl⟩, rfl⟩
    exact ⟨_, ⟨e, es, he, hes, rfl⟩, rfl⟩

theorem expandFractions_half_second : expandFractions ['0', '.', '5', 's'] =
    .ok ['5', '0', '0', '0', '0', '0', '0', '0', '0', 'n', 's', ' '] := by
  have hp : (Piece.mk ['0', '.', '5'] ['s']).IsRun :=
    ⟨by simp [Piece.text], by simp [isNumeral], by simp [isNumeral]⟩
  exact (expandFractions_append_eq_ok (t := []) hp (by simp)).mpr
    ⟨_, [], expand_half_second, expandFractions_nil, rfl⟩

/-- A text without a point stays as it is. -/
theorem expandFractions_of_no_point (h : '.' ∉ s) : expandFractions s = .ok s := by
  have hcut := cut_pieces s
  generalize pieces s = ps at hcut
  induction hcut with
  | nil => exact expandFractions_nil
  | @cons p t ps hp ht _ ih =>
    have hnumber : '.' ∉ p.number := fun hc => h (by simp [Piece.text, hc])
    exact (expandFractions_append_eq_ok hp ht).mpr ⟨_, _, Piece.expand_of_no_point hnumber,
      ih fun hc => h (List.mem_append_right _ hc), rfl⟩

/-- Blanks after a run are kept, or go with its unit. -/
theorem Piece.expand_append_blank (hw : ∀ c ∈ w, isBlank c = true) (h : p.expand = .ok e) :
    ∃ w', (∀ c ∈ w', isBlank c = true) ∧
      (Piece.mk p.number (p.unit ++ w)).expand = .ok (e ++ w') := by
  rcases expand_eq_ok.mp h with ⟨hdot, rfl⟩ | ⟨hdot, n, hn, rfl⟩
  · refine ⟨w, hw, expand_eq_ok.mpr (.inl ⟨hdot, ?_⟩)⟩
    exact List.append_assoc _ _ _
  · refine ⟨[], by simp, expand_eq_ok.mpr (.inr ⟨hdot, n, ?_, by simp⟩)⟩
    unfold fractionNanos at hn ⊢
    rwa [trim_append_blank hw]

/-- What is put for two texts with blanks between them, where the first one ends with a unit and the
second one starts with a number. -/
theorem expandFractions_append (hs : expandFractions s = .ok s') (ht : expandFractions t = .ok t')
    (hw : ∀ c ∈ w, isBlank c = true) (hlast : ∃ c ∈ s.getLast?, isNumeral c = false)
    (hhead : ∀ c ∈ t.head?, isNumeral c = true) :
    ∃ w', (∀ c ∈ w', isBlank c = true) ∧
      expandFractions (s ++ (w ++ t)) = .ok (s' ++ (w' ++ t')) := by
  have hcut := cut_pieces s
  generalize pieces s = ps at hcut
  induction hcut generalizing s' with
  | nil => simp at hlast
  | @cons p r ps hp hr _ ih =>
    obtain ⟨e, r', he, hr', rfl⟩ := (expandFractions_append_eq_ok hp hr).mp hs
    by_cases hnil : r = []
    · subst hnil
      have hunit : p.unit ≠ [] := by
        intro hunit
        obtain ⟨c, hc, hno⟩ := hlast
        have hmem : c ∈ p.number := by
          simpa [Piece.text, hunit] using List.mem_of_mem_getLast? hc
        rw [hp.number c hmem] at hno
        cases hno
      obtain rfl := expandFractions_nil_eq_ok.mp hr'
      obtain ⟨w', hw', hq⟩ := Piece.expand_append_blank hw he
      have hrun : (Piece.mk p.number (p.unit ++ w)).IsRun :=
        ⟨by simp [Piece.text, hunit], hp.number, fun c hc =>
          (List.mem_append.mp hc).elim (hp.unit c) fun hc => not_isNumeral_of_isBlank (hw c hc)⟩
      refine ⟨w', hw', ?_⟩
      have htext : p.text ++ [] ++ (w ++ t) = (Piece.mk p.number (p.unit ++ w)).text ++ t := by
        simp [Piece.text]
      rw [htext, expandFractions_append_eq_ok hrun fun c hc => ⟨by simp [hunit], hhead c hc⟩]
      exact ⟨_, _, hq, ht, by simp⟩
    · rw [List.getLast?_append_of_ne_nil _ hnil] at hlast
      obtain ⟨w', hw', h⟩ := ih hr' hlast
      refine ⟨w', hw', ?_⟩
      rw [List.append_assoc, expandFractions_append_eq_ok hp]
      · exact ⟨e, _, he, h, by simp⟩
      · rwa [List.head?_append_of_ne_nil _ hnil]

/-- What is put ends with a digit where the text ends with a digit or a point. -/
theorem isDigit_getLast_of_expandFractions (hs : expandFractions s = .ok s')
    (hlast : ∃ c ∈ s.getLast?, isNumeral c = true) : ∃ c ∈ s'.getLast?, c.isDigit = true := by
  have hcut := cut_pieces s
  generalize pieces s = ps at hcut
  induction hcut generalizing s' with
  | nil => simp at hlast
  | @cons p r ps hp hr _ ih =>
    obtain ⟨e, r', he, hr', rfl⟩ := (expandFractions_append_eq_ok hp hr).mp hs
    by_cases hnil : r = []
    · subst hnil
      obtain ⟨c, hc, hnumeral⟩ := hlast
      rw [List.append_nil] at hc
      have hunit : p.unit = [] := by
        by_contra hne
        rw [Piece.text, List.getLast?_append_of_ne_nil _ hne] at hc
        exact Bool.false_ne_true ((hp.unit c (List.mem_of_mem_getLast? hc)).symm.trans hnumeral)
      obtain rfl := expandFractions_nil_eq_ok.mp hr'
      rcases Piece.expand_eq_ok.mp he with ⟨hdot, rfl⟩ | ⟨hdot, n, hn, _⟩
      · have hmem : c ∈ p.number := by simpa [Piece.text, hunit] using List.mem_of_mem_getLast? hc
        exact ⟨c, by rwa [List.append_nil], hp.isDigit_of_no_point hdot c hmem⟩
      · obtain ⟨_, _, u, _, _, _, hu, _⟩ := fractionNanos_eq_ok hp.number hdot hn
        rw [hunit] at hu
        exact absurd rfl (TimeUnit.letters_of_ofName? hu).1
    · rw [List.getLast?_append_of_ne_nil _ hnil] at hlast
      obtain ⟨c, hc, hdigit⟩ := ih hr' hlast
      refine ⟨c, ?_, hdigit⟩
      rw [List.getLast?_append_of_ne_nil _ (by rintro rfl; simp at hc)]
      exact hc

/-- What comes before the first number is kept. -/
theorem expandFractions_lead (hlead : ∀ c ∈ lead, isNumeral c = false)
    (hbody : ∀ c ∈ body.head?, isNumeral c = true) :
    expandFractions (lead ++ body) = .ok s' ↔
      ∃ t', expandFractions body = .ok t' ∧ s' = lead ++ t' := by
  by_cases hnil : lead = []
  · subst hnil
    simp
  · have hrun : (Piece.mk [] lead).IsRun := ⟨hnil, by simp, hlead⟩
    have hexpand : (Piece.mk [] lead).expand = .ok lead :=
      Piece.expand_of_no_point List.not_mem_nil
    refine (expandFractions_append_eq_ok hrun fun c hc => ⟨hnil, hbody c hc⟩).trans ⟨?_, ?_⟩
    · rintro ⟨e, t', he, ht, rfl⟩
      obtain rfl := Except.ok.inj (hexpand.symm.trans he)
      exact ⟨t', ht, rfl⟩
    · rintro ⟨t', ht, rfl⟩
      exact ⟨lead, t', hexpand, ht, rfl⟩

/-- A zero in front of a number is kept, or goes into what is put for it. -/
theorem expandFractions_zero_cons (ht : expandFractions t = .ok t')
    (hw : ∀ c ∈ w, isBlank c = true) (hhead : ∃ c ∈ t.head?, isNumeral c = true) :
    expandFractions ('0' :: (w ++ t)) = .ok ('0' :: (w ++ t')) ∨
      w = [] ∧ expandFractions ('0' :: (w ++ t)) = .ok t' := by
  obtain ⟨c, hc, hnumeral⟩ := hhead
  by_cases hnil : w = []
  · subst hnil
    have hcut := cut_pieces t
    generalize pieces t = ps at hcut
    cases hcut with
    | nil => cases hc
    | @cons p r ps hp hr _ =>
      obtain ⟨e, r', he, hr', rfl⟩ := (expandFractions_append_eq_ok hp hr).mp ht
      have hrun : (Piece.mk ('0' :: p.number) p.unit).IsRun :=
        ⟨List.cons_ne_nil _ _, List.forall_mem_cons.mpr ⟨rfl, hp.number⟩, hp.unit⟩
      rcases Piece.expand_eq_ok.mp he with ⟨hdot, rfl⟩ | ⟨hdot, n, hn, rfl⟩
      · have hexpand : (Piece.mk ('0' :: p.number) p.unit).expand = .ok ('0' :: p.text) :=
          Piece.expand_of_no_point (by simpa using hdot)
        exact .inl ((expandFractions_append_eq_ok hrun hr).mpr ⟨_, r', hexpand, hr', rfl⟩)
      · have hzero := fractionNanos_zero_cons hp.number hdot hn
        have hexpand : (Piece.mk ('0' :: p.number) p.unit).expand =
            .ok (digitsOf n ++ ['n', 's', ' ']) :=
          Piece.expand_eq_ok.mpr (.inr ⟨by simp [hdot], n, hzero, rfl⟩)
        exact .inr ⟨rfl, (expandFractions_append_eq_ok hrun hr).mpr ⟨_, r', hexpand, hr', rfl⟩⟩
  · have hrun : (Piece.mk ['0'] w).IsRun :=
      ⟨List.cons_ne_nil _ _, by simp [isNumeral], fun d hd => not_isNumeral_of_isBlank (hw d hd)⟩
    have hstart : ∀ d ∈ t.head?, w ≠ [] ∧ isNumeral d = true := by
      intro d hd
      obtain rfl := Option.mem_unique hc hd
      exact ⟨hnil, hnumeral⟩
    exact .inl ((expandFractions_append_eq_ok hrun hstart).mpr
      ⟨'0' :: w, t', Piece.expand_of_no_point (by simp), ht, rfl⟩)

end

end EventStream.Duration
