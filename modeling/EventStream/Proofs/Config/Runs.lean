import EventStream.Proofs.Config.Durations

namespace EventStream.Duration

/-- The unit named after a run. -/
def Piece.unit? (p : Piece) : Option TimeUnit :=
  TimeUnit.ofName? (String.ofList (trim p.unit))

/-- The runs of digits and points of a text, each with what follows it up to the next one. -/
def IsRuns (text : List Char) (ps : List Piece) : Prop :=
  ∃ lead s, text = lead ++ s ∧ (∀ c ∈ lead, isNumeral c = false) ∧
    (∀ c ∈ s.head?, isNumeral c = true) ∧ Cut s ps

/-- The nanoseconds of a number with its unit. -/
inductive Piece.Counts (p : Piece) : Nat → Prop
  | whole {u : TimeUnit} : (∀ c ∈ p.number, c.isDigit = true) → p.unit? = some u →
      p.Counts (ofDigits p.number * u.nanos)
  | fraction {whole fraction : List Char} {u : TimeUnit} : p.number = whole ++ '.' :: fraction →
      (∀ c ∈ whole ++ fraction, c.isDigit = true) → p.unit? = some u →
      p.Counts (roundedNanos (decimalValue whole fraction) u)

/-- What numbers in a row count for. Digits without a unit wait in front of the next number; in
front of one with a point they stand before its nanoseconds. -/
inductive Carried : List Char → List Piece → List Nat → Prop
  | done : Carried [] [] []
  | waits {ds p ps ns} : p.number ≠ [] → (∀ c ∈ p.number, c.isDigit = true) →
      (∀ c ∈ p.unit, isBlank c = true) → Carried (ds ++ p.number) ps ns → Carried ds (p :: ps) ns
  | whole {ds p ps ns u} : (∀ c ∈ p.number, c.isDigit = true) → p.unit? = some u →
      Carried [] ps ns → Carried ds (p :: ps) (ofDigits (ds ++ p.number) * u.nanos :: ns)
  | fraction {ds p ps ns whole fraction u} : p.number = whole ++ '.' :: fraction →
      (∀ c ∈ whole ++ fraction, c.isDigit = true) → p.unit? = some u → Carried [] ps ns →
      Carried ds (p :: ps)
        (ofDigits (ds ++ digitsOf (roundedNanos (decimalValue whole fraction) u)) :: ns)

section
variable {s t s' d v r : List Char} {p : Piece} {ps : List Piece} {ds : List Char} {ns : List Nat}
variable {xs : List (Nat × TimeUnit)}

theorem Segments.of_number (h : Segments d xs) (hd : ∀ c ∈ d, inNumber c = true) :
    d.filter Char.isDigit = [] ∧ xs = [] := by
  cases h with
  | blank hw => exact ⟨filter_isDigit_of_blank hw, rfl⟩
  | @cons d name t u xs _ _ hu =>
    obtain ⟨hname, hletters⟩ := TimeUnit.letters_of_ofName? hu
    obtain ⟨c, r, rfl⟩ := List.exists_cons_of_ne_nil hname
    have := (inNumber_of_isAlpha (hletters c (by simp))).symm.trans (hd c (by simp))
    cases this

/-- Between a number and the next one there are its unit and blanks. -/
theorem Segments.unit_of_run (h : Segments (d ++ (v ++ r)) xs) (hd : ∀ c ∈ d, inNumber c = true)
    (hv : ∃ c ∈ v.head?, inNumber c = false) (hdigit : ∀ c ∈ v, c.isDigit = false)
    (hr : ∀ c ∈ r.head?, inNumber c = true) :
    ∃ name w u ys, v = name ++ w ∧ (∀ c ∈ w, isBlank c = true) ∧
      TimeUnit.ofName? (String.ofList name) = some u ∧ Segments (w ++ r) ys ∧
      xs = (ofDigits (d.filter Char.isDigit), u) :: ys := by
  obtain ⟨c, hc, hstop⟩ := hv
  obtain ⟨v', rfl⟩ := List.head?_eq_some_iff.mp hc
  rw [List.cons_append] at h
  obtain ⟨_, name, t, u, ys, hsplit, hu, _, hys, hxs⟩ := h.unit_of_number hd hstop
  obtain ⟨_, hletters⟩ := TimeUnit.letters_of_ofName? hu
  rw [← List.cons_append] at hsplit
  rcases List.append_eq_append_iff.mp hsplit with ⟨a, hname, hra⟩ | ⟨w, hvw, ht⟩
  · cases a with
    | nil => exact ⟨name, [], u, ys, by simpa using hname.symm, by simp, hu, by rwa [hra], hxs⟩
    | cons b a =>
      have hletter := inNumber_of_isAlpha (hletters b (by simp [hname]))
      have := hletter.symm.trans (hr b (by simp [hra]))
      cases this
  · rw [ht] at hys
    have hblank := hys.blank_of_no_digit fun c hc => hdigit c (by simp [hvw, hc])
    exact ⟨name, w, u, ys, hvw, hblank, hu, hys, hxs⟩

theorem Piece.IsRun.number_ne_nil (hp : p.IsRun)
    (hhead : ∀ c ∈ (p.text ++ t).head?, isNumeral c = true) : p.number ≠ [] := by
  intro hnil
  have htext : p.text = p.unit := by simp [Piece.text, hnil]
  obtain ⟨c, r, hcr⟩ := List.exists_cons_of_ne_nil (htext ▸ hp.text_ne_nil)
  have hc := hhead c (by simp [htext, hcr])
  have := (hp.unit c (by simp [hcr])).symm.trans hc
  cases this

theorem inNumber_head_of_expandFractions (hs : expandFractions s = .ok s')
    (hhead : ∀ c ∈ s.head?, isNumeral c = true) : ∀ c ∈ s'.head?, inNumber c = true := by
  have hcut := cut_pieces s
  generalize pieces s = ps at hcut
  cases hcut with
  | nil =>
    obtain rfl := expandFractions_nil_eq_ok.mp hs
    simp
  | @cons p t ps hp ht _ =>
    obtain ⟨e, t', he, _, rfl⟩ := (expandFractions_append_eq_ok hp ht).mp hs
    obtain ⟨c, r, hcr⟩ := List.exists_cons_of_ne_nil (hp.number_ne_nil hhead)
    intro b hb
    apply inNumber_of_isDigit
    rcases Piece.expand_eq_ok.mp he with ⟨hdot, rfl⟩ | ⟨hdot, n, _, rfl⟩
    · obtain rfl : c = b := by simpa [Piece.text, hcr] using hb
      exact hp.isDigit_of_no_point hdot c (by simp [hcr])
    · obtain ⟨hne, hdigits⟩ := Json.isDigits_digitsOf n
      rw [List.append_assoc, List.head?_append_of_ne_nil _ hne] at hb
      exact hdigits b (List.mem_of_mem_head? hb)

theorem trim_unit {w name w' : List Char} {u : TimeUnit} (hw : ∀ c ∈ w, isBlank c = true)
    (hw' : ∀ c ∈ w', isBlank c = true) (hu : TimeUnit.ofName? (String.ofList name) = some u) :
    trim (w ++ (name ++ w')) = name := by
  obtain ⟨_, hletters⟩ := TimeUnit.letters_of_ofName? hu
  have hname : ∀ c ∈ name, isBlank c = false := fun c hc =>
    (Bool.or_eq_false_iff.mp (inNumber_of_isAlpha (hletters c hc))).2
  exact trim_append hw hw' (fun c hc => hname c (List.mem_of_mem_head? hc))
    fun c hc => hname c (List.mem_of_mem_getLast? hc)

/-- A whole number waits when only blanks follow it, and counts with its unit else. -/
theorem Carried.of_whole (hp : p.IsRun) (hne : p.number ≠ []) (hdot : '.' ∉ p.number)
    (hd : ∀ c ∈ d, inNumber c = true) (ht : ∀ c ∈ t.head?, inNumber c = true)
    (h : Segments (d ++ (p.text ++ t)) xs)
    (next : ∀ d xs, (∀ c ∈ d, inNumber c = true) → Segments (d ++ t) xs →
      Carried (d.filter Char.isDigit) ps (xs.map fun x => x.1 * x.2.nanos)) :
    Carried (d.filter Char.isDigit) (p :: ps) (xs.map fun x => x.1 * x.2.nanos) := by
  have hdigits := hp.isDigit_of_no_point hdot
  have hunit : ∀ c ∈ p.unit, c.isDigit = false := fun c hc =>
    (Bool.or_eq_false_iff.mp (hp.unit c hc)).1
  have hfilter : p.number.filter Char.isDigit = p.number := List.filter_eq_self.mpr hdigits
  have hin {v : List Char} (hv : ∀ c ∈ v, isBlank c = true) :
      ∀ c ∈ d ++ (p.number ++ v), inNumber c = true := by
    intro c hc
    rcases List.mem_append.mp hc with hc | hc
    · exact hd c hc
    · exact (List.mem_append.mp hc).elim (fun hc => inNumber_of_isDigit (hdigits c hc))
        fun hc => inNumber_of_isBlank (hv c hc)
  have hwaiting {v : List Char} (hv : ∀ c ∈ v, isBlank c = true) :
      (d ++ (p.number ++ v)).filter Char.isDigit = d.filter Char.isDigit ++ p.number := by
    rw [List.filter_append, List.filter_append, hfilter, filter_isDigit_of_blank hv,
      List.append_nil]
  by_cases hblank : ∀ c ∈ p.unit, isBlank c = true
  · have hnext := next (d ++ (p.number ++ p.unit)) xs (hin hblank) (by rwa [List.append_assoc])
    rw [hwaiting hblank] at hnext
    exact .waits hne hdigits hblank hnext
  · obtain ⟨w, c, r, hsplit, hw, hc⟩ := exists_first_not hblank
    have hstop : inNumber c = false := by
      rw [inNumber, hunit c (by simp [hsplit]), hc]
      rfl
    have htext : d ++ (p.text ++ t) = d ++ (p.number ++ w) ++ (c :: r ++ t) := by
      simp [Piece.text, hsplit]
    rw [htext] at h
    obtain ⟨name, w', u, ys, hcr, hw', hu, hys, rfl⟩ :=
      h.unit_of_run (hin hw) ⟨c, rfl, hstop⟩ (fun b hb => hunit b (by rw [hsplit]; simp [hb])) ht
    have hunit? : p.unit? = some u := by
      rw [Piece.unit?, hsplit, hcr, trim_unit hw hw' hu, hu]
    have hnext := next w' ys (fun c hc => inNumber_of_isBlank (hw' c hc)) hys
    rw [filter_isDigit_of_blank hw'] at hnext
    rw [List.map_cons, hwaiting hw]
    exact .whole hdigits hunit? hnext

/-- A number with a point counts with its unit, after the digits that wait. -/
theorem Carried.of_fraction {n : Nat} (hp : p.IsRun) (hdot : '.' ∈ p.number)
    (hn : fractionNanos p.number p.unit = .ok n)
    (hd : ∀ c ∈ d, inNumber c = true)
    (h : Segments (d ++ (digitsOf n ++ ['n', 's', ' '] ++ t)) xs)
    (next : ∀ d xs, (∀ c ∈ d, inNumber c = true) → Segments (d ++ t) xs →
      Carried (d.filter Char.isDigit) ps (xs.map fun x => x.1 * x.2.nanos)) :
    Carried (d.filter Char.isDigit) (p :: ps) (xs.map fun x => x.1 * x.2.nanos) := by
  obtain ⟨whole, fraction, u, hnumber, hdigits, _, hu, rfl⟩ := fractionNanos_eq_ok hp.number hdot hn
  generalize hm : roundedNanos (decimalValue whole fraction) u = m at h
  obtain ⟨_, hm'⟩ := Json.isDigits_digitsOf m
  have hin : ∀ c ∈ d ++ digitsOf m, inNumber c = true := fun c hc =>
    (List.mem_append.mp hc).elim (hd c) fun hc => inNumber_of_isDigit (hm' c hc)
  have htext : d ++ (digitsOf m ++ ['n', 's', ' '] ++ t) =
      d ++ digitsOf m ++ (['n', 's'] ++ ' ' :: t) := by
    simp
  rw [htext] at h
  have hletters : ∀ c ∈ ['n', 's'], inNumber c = false := by
    simp [inNumber_of_isAlpha]
  obtain ⟨name, w, v, ys, hname, hw, hv, hys, rfl⟩ :=
    h.unit_of_run hin ⟨'n', rfl, hletters 'n' (by simp)⟩ (by simp) (by simp [inNumber, isBlank])
  obtain rfl : w = [] := by
    by_contra hne
    obtain ⟨c, r, rfl⟩ := List.exists_cons_of_ne_nil hne
    have hc := hletters c (by simp [hname])
    rw [inNumber_of_isBlank (hw c (by simp))] at hc
    cases hc
  obtain rfl : ['n', 's'] = name := by simpa using hname
  have hname? : TimeUnit.ofName? (String.ofList ['n', 's']) = some .nanosecond := by decide
  obtain rfl : TimeUnit.nanosecond = v := Option.some.inj (hname?.symm.trans hv)
  have hfilter : (d ++ digitsOf m).filter Char.isDigit = d.filter Char.isDigit ++ digitsOf m := by
    rw [List.filter_append, List.filter_eq_self.mpr hm']
  have hnext := next [' '] ys (by simp [inNumber, isBlank]) hys
  rw [List.map_cons, hfilter, TimeUnit.nanos, Nat.mul_one, ← hm]
  exact .fraction hnumber hdigits hu hnext

theorem carried_of_segments (hcut : Cut s ps) (hhead : ∀ c ∈ s.head?, isNumeral c = true)
    (hs : expandFractions s = .ok s') (hd : ∀ c ∈ d, inNumber c = true)
    (h : Segments (d ++ s') xs) :
    Carried (d.filter Char.isDigit) ps (xs.map fun x => x.1 * x.2.nanos) := by
  induction hcut generalizing s' d xs with
  | nil =>
    obtain rfl := expandFractions_nil_eq_ok.mp hs
    rw [List.append_nil] at h
    obtain ⟨hfilter, rfl⟩ := h.of_number hd
    rw [hfilter]
    exact .done
  | @cons p t ps hp ht _ ih =>
    obtain ⟨e, t', he, ht', rfl⟩ := (expandFractions_append_eq_ok hp ht).mp hs
    have htail := inNumber_head_of_expandFractions ht' fun c hc => (ht c hc).2
    rcases Piece.expand_eq_ok.mp he with ⟨hdot, rfl⟩ | ⟨hdot, n, hn, rfl⟩
    · exact .of_whole hp (hp.number_ne_nil hhead) hdot hd htail h fun _ _ =>
        ih (fun c hc => (ht c hc).2) ht'
    · exact .of_fraction hp hdot hn hd h fun _ _ => ih (fun c hc => (ht c hc).2) ht'

/-- Only whole numbers before another one may lack a unit. -/
theorem Carried.unit?_isSome (h : Carried ds ps ns) :
    (∀ p ∈ ps, '.' ∈ p.number → p.unit?.isSome) ∧ ∀ p ∈ ps.getLast?, p.unit?.isSome := by
  have last {p : Piece} {ps : List Piece} (hp : ps = [] → p.unit?.isSome)
      (hps : ∀ q ∈ ps.getLast?, q.unit?.isSome) : ∀ q ∈ (p :: ps).getLast?, q.unit?.isSome := by
    intro q hq
    rw [List.getLast?_cons] at hq
    cases hlast : ps.getLast? with
    | none =>
      rw [hlast] at hq
      obtain rfl : p = q := Option.some.inj hq
      exact hp (List.getLast?_eq_none_iff.mp hlast)
    | some b =>
      rw [hlast] at hq
      obtain rfl : b = q := Option.some.inj hq
      exact hps b hlast
  induction h with
  | done => simp
  | @waits ds p ps ns hne hdigits _ hrest ih =>
    refine ⟨fun q hq hdot => ?_, last (fun hnil => ?_) ih.2⟩
    · rcases List.mem_cons.mp hq with rfl | hq
      · exact absurd (hdigits '.' hdot) (by decide)
      · exact ih.1 q hq hdot
    · subst hnil
      generalize hds : ds ++ p.number = e at hrest
      cases hrest
      exact absurd (List.append_eq_nil_iff.mp hds).2 hne
  | whole _ hu _ ih | fraction _ _ hu _ ih =>
    refine ⟨fun q hq hdot => ?_, last (fun _ => by rw [hu]; rfl) ih.2⟩
    rcases List.mem_cons.mp hq with rfl | hq
    · rw [hu]
      rfl
    · exact ih.1 q hq hdot

/-- With a unit after each number, each one counts for itself. -/
theorem Carried.counts (h : Carried ds ps ns) (hds : ds = []) (hunit : ∀ p ∈ ps, trim p.unit ≠ []) :
    List.Forall₂ Piece.Counts ps ns := by
  induction h with
  | done => exact .nil
  | @waits ds p ps ns _ _ hblank =>
    exact absurd (trim_append_blank (s := []) hblank) (hunit p List.mem_cons_self)
  | whole hdigits hu _ ih =>
    subst hds
    exact .cons (.whole hdigits hu) (ih rfl fun q hq => hunit q (List.mem_cons_of_mem _ hq))
  | fraction hnumber hdigits hu _ ih =>
    subst hds
    rw [List.nil_append, Json.ofDigits_digitsOf]
    exact .cons (.fraction hnumber hdigits hu)
      (ih rfl fun q hq => hunit q (List.mem_cons_of_mem _ hq))

end

theorem expand_before_half_second (unit : List Char) (hne : unit ≠ [])
    (hunit : ∀ c ∈ unit, isNumeral c = false) :
    IsRuns ('1' :: (unit ++ ['0', '.', '5', 's']))
      [⟨['1'], unit⟩, ⟨['0', '.', '5'], ['s']⟩] ∧
    expandFractions ('1' :: (unit ++ ['0', '.', '5', 's'])) =
      .ok ('1' :: (unit ++ ['5', '0', '0', '0', '0', '0', '0', '0', '0', 'n', 's', ' '])) := by
  have hfirst : (Piece.mk ['1'] unit).IsRun := ⟨by simp [Piece.text], by simp [isNumeral], hunit⟩
  have hsecond : (Piece.mk ['0', '.', '5'] ['s']).IsRun :=
    ⟨by simp [Piece.text], by simp [isNumeral], by simp [isNumeral]⟩
  refine ⟨⟨[], _, rfl, by simp, by simp [isNumeral], ?_⟩, ?_⟩
  · exact .cons hfirst (by simp [hne, isNumeral]) (.cons hsecond (by simp) .nil)
  · exact (expandFractions_append_eq_ok hfirst (by simp [hne, isNumeral])).mpr
      ⟨_, _, Piece.expand_of_no_point (by simp), expandFractions_half_second, rfl⟩

section
variable {text : String} {lead s : List Char} {ps : List Piece} {d : Duration}

theorem withoutPlus_spec (s : List Char) : ∃ plus, s.map plainMicro = plus ++ withoutPlus s ∧
    ∀ c ∈ plus, isNumeral c = false := by
  unfold withoutPlus
  split
  next h =>
    obtain ⟨r, rfl⟩ := List.head?_eq_some_iff.mp h
    exact ⟨['+'], rfl, by simp [isNumeral]⟩
  next => exact ⟨[], rfl, by simp⟩

theorem not_mem_of_not_isNumeral {w : List Char} (hw : ∀ c ∈ w, isNumeral c = false) : '.' ∉ w :=
  fun h => absurd (hw '.' h) (by simp [isNumeral])

/-- A text has one part before its first number. -/
theorem eq_of_lead {lead' s' : List Char} (h : lead ++ s = lead' ++ s')
    (hlead : ∀ c ∈ lead, isNumeral c = false) (hlead' : ∀ c ∈ lead', isNumeral c = false)
    (hs : ∀ c ∈ s.head?, isNumeral c = true) (hs' : ∀ c ∈ s'.head?, isNumeral c = true) :
    s = s' := by
  have hdrop {l t : List Char} (hl : ∀ c ∈ l, isNumeral c = false)
      (ht : ∀ c ∈ t.head?, isNumeral c = true) : (l ++ t).dropWhile (!isNumeral ·) = t :=
    (takeWhile_append_of_head (fun c hc => by simp [hl c hc]) fun c hc => by simp [ht c hc]).2
  rw [← hdrop hlead hs, h, hdrop hlead' hs']

/-- What is read from the first number on is what is read of the whole text. -/
theorem reads_of_parse (hdot : '.' ∈ text.toList) (htext : text.toList.map plainMicro = lead ++ s)
    (hlead : ∀ c ∈ lead, isNumeral c = false) (hs : ∀ c ∈ s.head?, isNumeral c = true)
    (h : parse text = .ok d) : ∃ xs, Reads s xs ∧ addAll? ⟨0⟩ xs = some d := by
  obtain ⟨w, v, hsplit, hw, hv, _, _⟩ := trim_spec text.toList
  obtain ⟨plus, hplus, hplusno⟩ := withoutPlus_spec (trim text.toList)
  rw [parse_eq (head_of_parse h)] at h
  generalize withoutPlus (trim text.toList) = core at h hplus
  obtain ⟨a, b, hbody, hano, hbhead⟩ := exists_lead core
  have hwhole : lead ++ s = (w ++ (plus ++ a)) ++ (b ++ v) := by
    rw [← htext, hsplit, List.map_append, List.map_append, map_plainMicro_of_blank hw,
      map_plainMicro_of_blank hv, hplus, hbody]
    simp
  have hdotb : '.' ∈ b := by
    have hmem : '.' ∈ (w ++ (plus ++ a)) ++ (b ++ v) := by
      rw [← hwhole, ← htext]
      exact List.mem_map.mpr ⟨'.', hdot, by decide⟩
    have hwno := not_mem_of_not_isNumeral fun c hc => not_isNumeral_of_isBlank (hw c hc)
    have hvno := not_mem_of_not_isNumeral fun c hc => not_isNumeral_of_isBlank (hv c hc)
    simpa [hwno, hvno, not_mem_of_not_isNumeral hplusno, not_mem_of_not_isNumeral hano] using hmem
  have hbne : b ≠ [] := List.ne_nil_of_mem hdotb
  obtain rfl : s = b ++ v := by
    refine eq_of_lead hwhole hlead ?_ hs ?_
    · intro c hc
      rcases List.mem_append.mp hc with hc | hc
      · exact not_isNumeral_of_isBlank (hw c hc)
      · exact (List.mem_append.mp hc).elim (hplusno c) (hano c)
    · rwa [List.head?_append_of_ne_nil _ hbne]
  have hcore : core ≠ ['0'] := by
    intro hzero
    have hmem : '.' ∈ ['0'] := hzero ▸ hbody ▸ List.mem_append_right a hdotb
    simp at hmem
  obtain ⟨xs, hxs, _, hsum⟩ := reads_of_unsigned hcore h
  rw [hbody] at hxs
  have hnil : Reads [] [] := ⟨[], expandFractions_nil, .blank (by simp)⟩
  have hboth := (hxs.of_lead hano hbhead).2.append hnil hv hbne (by simp)
  rw [List.append_nil, List.append_nil] at hboth
  exact ⟨xs, hboth, hsum⟩

/-- In a text with a point each number with a point has a unit, and so has the last number. The text
comes to the sum of what its numbers count for: with a unit after each one, each for itself. -/
theorem parse_runs (hdot : '.' ∈ text.toList) (hruns : IsRuns (text.toList.map plainMicro) ps)
    (h : parse text = .ok d) :
    (∀ p ∈ ps, '.' ∈ p.number → p.unit?.isSome) ∧ (∀ p ∈ ps.getLast?, p.unit?.isSome) ∧
    (∃ ns, Carried [] ps ns ∧ d.nanos = ns.sum) ∧
    ((∀ p ∈ ps, trim p.unit ≠ []) →
      ∃ ns, List.Forall₂ Piece.Counts ps ns ∧ d.nanos = ns.sum) := by
  obtain ⟨lead, s, htext, hlead, hs, hcut⟩ := hruns
  obtain ⟨xs, ⟨s', hexpand, hseg⟩, hsum⟩ := reads_of_parse hdot htext hlead hs h
  have hcarried := carried_of_segments hcut hs hexpand (d := []) (by simp) hseg
  have hnanos : d.nanos = (xs.map fun x => x.1 * x.2.nanos).sum := by
    rw [nanos_of_addAll? hsum, Nat.zero_add, nanosOf]
  obtain ⟨hfraction, hlast⟩ := hcarried.unit?_isSome
  exact ⟨hfraction, hlast, ⟨_, hcarried, hnanos⟩,
    fun hunit => ⟨_, hcarried.counts rfl hunit, hnanos⟩⟩

end

theorem parse_runs_minute_half_second :
    '.' ∈ "1m 0.5s".toList ∧
    IsRuns ("1m 0.5s".toList.map plainMicro)
      [⟨['1'], ['m', ' ']⟩, ⟨['0', '.', '5'], ['s']⟩] ∧
    parse "1m 0.5s" = .ok ⟨60500000000⟩ ∧
    ∃ ns, List.Forall₂ Piece.Counts [⟨['1'], ['m', ' ']⟩, ⟨['0', '.', '5'], ['s']⟩] ns ∧
      60500000000 = ns.sum := by
  obtain ⟨hruns, hexpand⟩ := expand_before_half_second ['m', ' '] (by simp) (by simp [isNumeral])
  have htext : IsRuns ("1m 0.5s".toList.map plainMicro) _ := hruns
  have hparse : parse "1m 0.5s" = .ok ⟨60500000000⟩ := by
    rw [parse_eq (by decide)]
    exact (unsigned_of_expand (by decide) hexpand).trans (by cbv)
  exact ⟨by decide, hruns, hparse,
    (parse_runs (by decide) htext hparse).2.2.2 (by decide)⟩

/-- The 1 has no unit and goes in front of the nanoseconds of the half second. -/
theorem number_without_unit_accepted :
    '.' ∈ "1 0.5s".toList ∧
    IsRuns ("1 0.5s".toList.map plainMicro) [⟨['1'], [' ']⟩, ⟨['0', '.', '5'], ['s']⟩] ∧
    (Piece.mk ['1'] [' ']).unit? = none ∧ parse "1 0.5s" = .ok ⟨1500000000⟩ := by
  obtain ⟨hruns, hexpand⟩ := expand_before_half_second [' '] (by simp) (by simp [isNumeral])
  refine ⟨by decide, hruns, by decide, ?_⟩
  rw [parse_eq (by decide)]
  exact (unsigned_of_expand (by decide) hexpand).trans (by cbv)

end EventStream.Duration
