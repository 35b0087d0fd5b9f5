import EventStream.Proofs.Json.Writing

namespace EventStream.Json

section
variable {α κ : Type} {close : UInt8} {r : Reader α} {fuel : Nat} {b rest : Bytes} {x : α}
  {xs : List α}

theorem exists_read_of_itemsFrom {done : List α}
    (h : itemsFrom close r fuel done b = some (xs, rest)) (hx : x ∈ xs) :
    x ∈ done ∨ ∃ b rest, r b = some (x, rest) := by
  induction fuel generalizing done b with
  | zero => cases h
  | succ fuel ih =>
    unfold itemsFrom at h
    split at h
    next => cases h
    next y r' hy =>
      have hnext (hmem : x ∈ y :: done) : x ∈ done ∨ ∃ b rest, r b = some (x, rest) := by
        rcases List.mem_cons.mp hmem with rfl | hmem
        · exact .inr ⟨_, _, hy⟩
        · exact .inl hmem
      split at h
      next => cases h
      next c r'' _ =>
        split at h
        next => exact (ih h).elim hnext .inr
        next =>
          split at h
          next =>
            cases h
            exact hnext (List.mem_reverse.mp hx)
          next => cases h

/-- Each item of a list was read as such. -/
theorem exists_read_of_items (h : items close r fuel b = some (xs, rest)) (hx : x ∈ xs) :
    ∃ b rest, r b = some (x, rest) := by
  unfold items at h
  split at h
  next => cases h
  next =>
    split at h
    next =>
      cases h
      cases hx
    next => exact (exists_read_of_itemsFrom h hx).resolve_left List.not_mem_nil

theorem exists_read_of_member {key : Reader κ} {value : κ → Reader α} {e : κ × α}
    (h : member key value b = some (e, rest)) : ∃ b, value e.1 b = some (e.2, rest) := by
  unfold member at h
  split at h
  next => cases h
  next =>
    split at h
    next =>
      obtain ⟨_, hx, he⟩ := Option.map_eq_some_iff.mp h
      cases he
      exact ⟨_, hx⟩
    next => cases h

end

section
variable {b rest : Bytes} {d fuel : Nat} {j : Json}

theorem writable_of_json? {n : Numeral} (h : n.json? = some j) : Writable d j := by
  unfold Numeral.json? at h
  simp only at h
  split at h
  next hn =>
    cases h
    exact .integer (by omega) hn.2.2.2
  next =>
    split at h
    next hn =>
      cases h
      exact .integer (by omega) (by omega)
    next =>
      split at h
      next hf =>
        cases h
        exact .double hf
      next => cases h

/-- What is no list and no object. -/
theorem scalar_eq_some (h : scalar b = some (j, rest)) :
    (∃ x, quotedText b = some (x, rest) ∧ j = .string x) ∨ j = .null ∨ (∃ v, j = .bool v) ∨
      ∃ n : Numeral, n.json? = some j := by
  unfold scalar at h
  split at h
  next =>
    obtain ⟨⟨x, _⟩, hq, he⟩ := Option.map_eq_some_iff.mp h
    cases he
    exact .inl ⟨x, hq, rfl⟩
  next => exact .inr (.inl (named_eq_some h).2)
  next => exact .inr (.inr (.inl ⟨true, (named_eq_some h).2⟩))
  next => exact .inr (.inr (.inl ⟨false, (named_eq_some h).2⟩))
  next =>
    obtain ⟨⟨n, _⟩, _, h⟩ := Option.bind_eq_some_iff.mp h
    obtain ⟨_, hj, he⟩ := Option.map_eq_some_iff.mp h
    cases he
    exact .inr (.inr (.inr ⟨n, hj⟩))

theorem writable_of_scalar (h : scalar b = some (j, rest)) : Writable d j := by
  obtain ⟨x, _, rfl⟩ | rfl | ⟨v, rfl⟩ | ⟨n, hn⟩ := scalar_eq_some h
  · exact .string
  · exact .null
  · exact .bool
  · exact writable_of_json? hn

theorem writable_of_nested (h : data.nested fuel d b = some (j, rest)) : Writable d j := by
  induction d generalizing b j rest with
  | zero => exact writable_of_scalar h
  | succ d ih =>
    obtain ⟨r, es, _, rfl, hitems⟩ | ⟨r, js, _, rfl, hitems⟩ | ⟨_, _, h⟩ := Contents.nested_cases h
    · refine .object (sorted_sortedEntries es) fun e he => ?_
      obtain ⟨_, _, he⟩ := exists_read_of_items hitems (sortedEntries_subset es he)
      obtain ⟨_, he⟩ := exists_read_of_member he
      exact ih he
    · refine .array fun j hj => ?_
      obtain ⟨_, _, hj⟩ := exists_read_of_items hitems hj
      exact ih hj
    · exact writable_of_scalar h

/-- What has been read can be written. -/
theorem writable_of_parse? (h : parse? b = some j) : Writable depthLimit j := by
  obtain ⟨_, hread, _⟩ := whole_eq_some.mp h
  exact writable_of_nested hread

theorem number_of_json? {n : Numeral} (h : n.json? = some j) :
    (∃ k, j = .integer k) ∨ ∃ d, j = .double d := by
  unfold Numeral.json? at h
  simp only at h
  split_ifs at h <;> cases h
  · exact .inl ⟨_, rfl⟩
  · exact .inl ⟨_, rfl⟩
  · exact .inr ⟨_, rfl⟩

theorem quotedText_of_scalar {x : String} (h : scalar b = some (.string x, rest)) :
    quotedText b = some (x, rest) := by
  obtain ⟨_, hq, hx⟩ | hj | ⟨_, hj⟩ | ⟨n, hn⟩ := scalar_eq_some h
  · cases hx
    exact hq
  · cases hj
  · cases hj
  · obtain ⟨_, hj⟩ | ⟨_, hj⟩ := number_of_json? hn <;> cases hj

/-- What is read as a string is the text of one. -/
theorem atom_of_string {n : Nat} {s : Bytes} {x : String} (h : data.IsValue n s (.string x)) :
    IsAtom quotedText s x := by
  have hread := h.reads s.length n [] le_rfl le_rfl (by simp [Ends])
  have hquoted : quotedText (s ++ []) = some (x, []) := by
    cases n with
    | zero => exact quotedText_of_scalar hread
    | succ n =>
      obtain ⟨_, _, _, hx, _⟩ | ⟨_, _, _, hx, _⟩ | ⟨_, _, hread⟩ := Contents.nested_cases hread
      · cases hx
      · cases hx
      · exact quotedText_of_scalar hread
  obtain ⟨s', hs, hatom⟩ := quotedText_local _ _ _ hquoted
  rw [List.append_nil, List.append_nil] at hs
  exact hs ▸ hatom

end

/-- The members of an object, after its opening brace. -/
def objectMembers (fuel : Nat) : Reader (List (String × Json))
  | 0x7B :: r => members quotedText (fun _ => value fuel (depthLimit - 1)) fuel r
  | _ => none

/-- The members of a document that is an object, in the order of its text. -/
def memberList? (b : Bytes) : Option (List (String × Json)) :=
  whole (objectMembers (b.length + 1)) b

section
variable {α : Type} {r : Reader α} {b rest s : Bytes} {j : Json}

theorem whole_of_map (rest : Bytes) {o : Option α}
    (h : r (skipSpace b) = o.map fun x => (x, rest))
    (hrest : skipSpace rest = []) : whole r b = o := by
  rw [whole, h]
  cases o <;> simp [hrest]

theorem length_skipSpace_le (b : Bytes) : (skipSpace b).length ≤ b.length :=
  List.length_dropWhile_le _ b

theorem skipSpace_skipSpace (b : Bytes) : skipSpace (skipSpace b) = skipSpace b :=
  List.dropWhile_idempotent _ b

theorem scalar_not_nested (h : scalar s = some (j, rest)) :
    (∀ xs, j ≠ .array xs) ∧ ∀ es, j ≠ .object es := by
  obtain ⟨_, _, rfl⟩ | rfl | ⟨_, rfl⟩ | ⟨_, hn⟩ := scalar_eq_some h
  · simp
  · simp
  · simp
  · obtain ⟨_, rfl⟩ | ⟨_, rfl⟩ := number_of_json? hn <;> simp

end

/-- What can be read at all is an object exactly when it has members. -/
theorem parse?_eq_object_iff {b : Bytes} {es : List (String × Json)} :
    parse? b = some (.object es) ↔ ∃ ms, memberList? b = some ms ∧ sortedEntries ms = es := by
  constructor
  · intro h
    obtain ⟨rest, hread, hrest⟩ := whole_eq_some.mp h
    obtain ⟨r, ms, hs, hj, hms⟩ | ⟨r, xs, _, hj, _⟩ | ⟨_, _, hj⟩ := Contents.nested_cases hread
    · refine ⟨ms, whole_eq_some.mpr ⟨rest, ?_, hrest⟩, (Json.object.inj hj).symm⟩
      rw [hs]
      exact hms
    · cases hj
    · exact absurd rfl ((scalar_not_nested hj).2 es)
  · rintro ⟨ms, hms, rfl⟩
    obtain ⟨rest, hread, hrest⟩ := whole_eq_some.mp hms
    refine whole_eq_some.mpr ⟨rest, ?_, hrest⟩
    unfold objectMembers at hread
    split at hread
    next r hs =>
      rw [hs]
      exact Option.map_eq_some_iff.mpr ⟨_, hread, rfl⟩
    next => cases hread

end EventStream.Json
