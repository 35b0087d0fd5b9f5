import EventStream.Proofs.Text.Trimming
import EventStream.Proofs.Traversal
import EventStream.Target

namespace EventStream

namespace Target

/-- An endpoint is not empty and has no slash, and the route is not empty. -/
structure WellFormed (t : Target) : Prop where
  endpoint_ne_empty : t.endpoint ≠ ""
  slash_not_mem_endpoint : '/' ∉ t.endpoint.toList
  route_ne_empty : t.route ≠ ""

/-- A target that an address can name: there are no blanks around its endpoint and its route. -/
structure IsNamed (t : Target) : Prop extends t.WellFormed where
  endpoint_trimmed : IsTrimmed t.endpoint.toList
  route_trimmed : IsTrimmed t.route.toList

section
variable {address : String} {t : Target} {c : Char}

theorem parse_of_trim_eq_nil (h : trim address.toList = []) : parse address = .ok none := by
  unfold parse
  rw [h]
  rfl

theorem parse_of_head?_slash (h : (trim address.toList).head? = some '/') :
    parse address = .error ⟨trimmed address⟩ := by
  obtain ⟨r, hr⟩ := List.head?_eq_some_iff.mp h
  unfold parse trimmed
  rw [hr]
  rfl

/-- An address that starts with anything but a slash names a target. -/
theorem parse_of_head? (h : (trim address.toList).head? = some c) (hc : c ≠ '/') :
    ∃ t, parse address = .ok (some t) ∧ t.IsNamed := by
  have hblank : isBlank c = false := (isTrimmed_trim address.toList).1 c h
  obtain ⟨r, hr⟩ := List.head?_eq_some_iff.mp h
  unfold parse
  rw [hr]
  dsimp only
  generalize hendpoint : trim ((c :: r).takeWhile (· ≠ '/')) = endpoint
  generalize hroute : trim (((c :: r).dropWhile (· ≠ '/')).drop 1) = route
  have hne : endpoint ≠ [] := by
    rw [← hendpoint, Ne, trim_eq_nil_iff]
    intro hall
    have := hall c (by simp [hc])
    rw [hblank] at this
    cases this
  have hslash : '/' ∉ endpoint := by
    intro hmem
    rw [← hendpoint] at hmem
    have := List.mem_takeWhile_imp (mem_of_mem_trim hmem)
    simp at this
  have hendpoint' : IsTrimmed endpoint := hendpoint ▸ isTrimmed_trim _
  have hroute' : IsTrimmed route := hroute ▸ isTrimmed_trim _
  have hchosen : (if route = [] then endpoint else route) ≠ [] ∧
      IsTrimmed (if route = [] then endpoint else route) := by
    split
    next => exact ⟨hne, hendpoint'⟩
    next h => exact ⟨h, hroute'⟩
  refine ⟨_, by rw [if_neg (List.cons_ne_nil c r), if_neg hne], ⟨?_, ?_, ?_⟩, ?_, ?_⟩
  · simpa using hne
  · simpa using hslash
  · simpa using hchosen.1
  · simpa using hendpoint'
  · simpa using hchosen.2

/-- Where an address starts decides what becomes of it. -/
theorem parse_cases (address : String) :
    (address.toList.find? (!isBlank ·) = none ∧ parse address = .ok none) ∨
    (address.toList.find? (!isBlank ·) = some '/' ∧ parse address = .error ⟨trimmed address⟩) ∨
    ∃ c t, address.toList.find? (!isBlank ·) = some c ∧ c ≠ '/' ∧ parse address = .ok (some t) ∧
      t.IsNamed := by
  rw [← head?_trim]
  cases h : (trim address.toList).head? with
  | none =>
    exact .inl ⟨rfl, parse_of_trim_eq_nil (List.head?_eq_none_iff.mp h)⟩
  | some c =>
    by_cases hc : c = '/'
    · subst hc
      exact .inr (.inl ⟨rfl, parse_of_head?_slash h⟩)
    · obtain ⟨t, ht, hnamed⟩ := parse_of_head? h hc
      exact .inr (.inr ⟨c, t, rfl, hc, ht, hnamed⟩)

theorem isNamed_of_parse (h : parse address = .ok (some t)) : t.IsNamed := by
  obtain ⟨_, hnone⟩ | ⟨_, herror⟩ | ⟨_, u, _, _, hsome, hnamed⟩ := parse_cases address
  · rw [hnone] at h
    cases h
  · rw [herror] at h
    cases h
  · rw [hsome] at h
    exact Option.some.inj (Except.ok.inj h) ▸ hnamed

theorem wellFormed_of_parse (h : parse address = .ok (some t)) : t.WellFormed :=
  (isNamed_of_parse h).toWellFormed

/-- The first slash of what is printed is the one between the endpoint and the route. -/
theorem parse_display (h : t.IsNamed) : parse t.display = .ok (some t) := by
  have hendpoint : t.endpoint.toList ≠ [] := fun hnil => h.endpoint_ne_empty (String.toList_eq_nil_iff.mp hnil)
  have hroute : t.route.toList ≠ [] := fun hnil => h.route_ne_empty (String.toList_eq_nil_iff.mp hnil)
  have htext : t.display.toList = t.endpoint.toList ++ '/' :: t.route.toList := by
    simp [display]
  have htrim : trim t.display.toList = t.endpoint.toList ++ '/' :: t.route.toList := by
    rw [htext]
    exact (h.endpoint_trimmed.append_cons h.route_trimmed hendpoint hroute).trim_eq
  have hpass : ∀ c ∈ t.endpoint.toList, decide (c ≠ '/') = true := fun c hc =>
    decide_eq_true fun heq => h.slash_not_mem_endpoint (heq ▸ hc)
  have htake : (t.endpoint.toList ++ '/' :: t.route.toList).takeWhile (· ≠ '/') =
      t.endpoint.toList := by
    rw [List.takeWhile_append_of_pos hpass]
    simp
  have hdrop : ((t.endpoint.toList ++ '/' :: t.route.toList).dropWhile (· ≠ '/')).drop 1 =
      t.route.toList := by
    rw [List.dropWhile_append_of_pos hpass]
    simp
  unfold parse
  rw [htrim]
  dsimp only
  rw [htake, hdrop, h.endpoint_trimmed.trim_eq, h.route_trimmed.trim_eq, if_neg (by simp),
    if_neg hendpoint, if_neg hroute, String.ofList_toList, String.ofList_toList]

end

/-- A blank address names no target, one that starts with a slash has no endpoint, and every other
one names a target, which is the one that it is printed as: so two addresses name one target exactly
when these print alike. -/
theorem addresses_stable (address : String) :
    (parse address = .ok none ↔ ∀ c ∈ address.toList, isBlank c = true) ∧
    (∀ e, parse address = .error e ↔
      address.toList.find? (!isBlank ·) = some '/' ∧ e = ⟨trimmed address⟩) ∧
    ((∃ t, parse address = .ok (some t)) ↔
      ∃ c, address.toList.find? (!isBlank ·) = some c ∧ c ≠ '/') ∧
    ∀ t, parse address = .ok (some t) →
      t.endpoint ≠ "" ∧ t.route ≠ "" ∧ IsTrimmed t.endpoint.toList ∧ IsTrimmed t.route.toList ∧
      '/' ∉ t.endpoint.toList ∧ parse t.display = .ok (some t) ∧
      ∀ other u, parse other = .ok (some u) → (t = u ↔ t.display = u.display) := by
  have hblank : (∀ c ∈ address.toList, isBlank c = true) ↔
      address.toList.find? (!isBlank ·) = none := by
    simp [List.find?_eq_none]
  rw [hblank]
  have hstart : (parse address = .ok none ↔ address.toList.find? (!isBlank ·) = none) ∧
      (∀ e, parse address = .error e ↔
        address.toList.find? (!isBlank ·) = some '/' ∧ e = ⟨trimmed address⟩) ∧
      ((∃ t, parse address = .ok (some t)) ↔
        ∃ c, address.toList.find? (!isBlank ·) = some c ∧ c ≠ '/') := by
    obtain ⟨hfirst, h⟩ | ⟨hfirst, h⟩ | ⟨c, t, hfirst, hc, h, _⟩ := parse_cases address
    · simp [hfirst, h]
    · simp [hfirst, h, eq_comm]
    · simp [hfirst, h, hc]
  refine ⟨hstart.1, hstart.2.1, hstart.2.2, fun t h => ?_⟩
  have hnamed := isNamed_of_parse h
  have hagain := parse_display hnamed
  refine ⟨hnamed.endpoint_ne_empty, hnamed.route_ne_empty, hnamed.endpoint_trimmed,
    hnamed.route_trimmed, hnamed.slash_not_mem_endpoint, hagain, fun other u hu => ?_⟩
  constructor
  · exact fun heq => heq ▸ rfl
  · intro hprint
    rw [hprint, parse_display (isNamed_of_parse hu)] at hagain
    exact (Option.some.inj (Except.ok.inj hagain)).symm

/-- Blanks around the address and around a slash, and a route that starts with a slash. -/
theorem addresses_stable_of_two_slashes :
    parse " svc // a/b " = .ok (some ⟨"svc", "/ a/b"⟩) ∧
    parse "svc// a/b" = .ok (some ⟨"svc", "/ a/b"⟩) ∧ parse "svc/" = .ok (some ⟨"svc", "svc"⟩) ∧
    ((⟨"svc", "/ a/b"⟩ : Target) = ⟨"svc", "svc"⟩ ↔ "svc// a/b" = "svc/svc") := by
  have h : parse " svc // a/b " = .ok (some ⟨"svc", "/ a/b"⟩) := rfl
  have hother : parse "svc/" = .ok (some ⟨"svc", "svc"⟩) := rfl
  obtain ⟨_, _, _, _, _, hagain, hsame⟩ := (addresses_stable " svc // a/b ").2.2.2 _ h
  exact ⟨h, hagain, hother, hsame "svc/" _ hother⟩

end Target

end EventStream
