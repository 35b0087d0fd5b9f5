import EventStream.Expr.Program
import EventStream.Proofs.Json.Writing
import EventStream.Proofs.Traversal

namespace EventStream

namespace Value

mutual

/-- How many lists and maps lie one within another. -/
def levels : Value → Nat
  | .null => 0
  | .bool _ => 0
  | .int _ => 0
  | .double _ => 0
  | .string _ => 0
  | .list items => itemLevels items + 1
  | .map entries => entryLevels entries + 1
termination_by structural v => v

def itemLevels : List Value → Nat
  | [] => 0
  | v :: r => max (levels v) (itemLevels r)
termination_by structural items => items

def entryLevels : List (String × Value) → Nat
  | [] => 0
  | (_, v) :: r => max (levels v) (entryLevels r)
termination_by structural entries => entries

end

/-- A double stands in a value, at whatever depth. -/
inductive Holds (d : Double) : Value → Prop
  | double : Holds d (.double d)
  | item {items v} : v ∈ items → Holds d v → Holds d (.list items)
  | entry {entries e} : e ∈ entries → Holds d e.2 → Holds d (.map entries)

/-- Every map has one entry for a key. -/
inductive Keyed : Value → Prop
  | null : Keyed .null
  | bool {b} : Keyed (.bool b)
  | int {n} : Keyed (.int n)
  | double {d} : Keyed (.double d)
  | string {s} : Keyed (.string s)
  | list {items} : (∀ v ∈ items, Keyed v) → Keyed (.list items)
  | map {entries} : (keys entries).Nodup → (∀ e ∈ entries, Keyed e.2) → Keyed (.map entries)

/-- Induction on a value with what its items and entries give. -/
@[elab_as_elim]
theorem nested_induction {P : Value → Prop} (v : Value) (null : P .null) (bool : ∀ b, P (.bool b))
    (int : ∀ n, P (.int n)) (double : ∀ d, P (.double d)) (string : ∀ s, P (.string s))
    (list : ∀ items, (∀ v ∈ items, P v) → P (.list items))
    (map : ∀ entries, (∀ e ∈ entries, P e.2) → P (.map entries)) : P v :=
  @Value.rec P (fun items => ∀ v ∈ items, P v) (fun entries => ∀ e ∈ entries, P e.2)
    (fun e => P e.2) null bool int double string list map (fun _ h => nomatch h)
    (fun _ _ hv hr => List.forall_mem_cons.mpr ⟨hv, hr⟩) (fun _ h => nomatch h)
    (fun _ _ he hr => List.forall_mem_cons.mpr ⟨he, hr⟩) (fun _ _ hv => hv) v

section
variable {v : Value} {d : Double} {j : Json} {n : Nat}

theorem levels_of_mem {items : List Value} (h : v ∈ items) : v.levels ≤ itemLevels items := by
  induction items with
  | nil => cases h
  | cons w r ih =>
    rw [itemLevels]
    rcases List.mem_cons.mp h with rfl | h
    · exact Nat.le_max_left _ _
    · exact (ih h).trans (Nat.le_max_right _ _)

theorem entry_levels_of_mem {entries : List (String × Value)} {e : String × Value}
    (h : e ∈ entries) : e.2.levels ≤ entryLevels entries := by
  induction entries with
  | nil => cases h
  | cons w r ih =>
    rw [entryLevels]
    rcases List.mem_cons.mp h with rfl | h
    · exact Nat.le_max_left _ _
    · exact (ih h).trans (Nat.le_max_right _ _)

theorem jsonItems_eq (items : List Value) : jsonItems items = items.mapM toJson := by
  induction items with
  | nil => rfl
  | cons v r ih =>
    rw [List.mapM_cons, jsonItems, ih]
    cases toJson v with
    | error e => rfl
    | ok j => cases r.mapM toJson <;> rfl

def jsonEntry (e : String × Value) : Except Double (String × Json) :=
  e.2.toJson.map (e.1, ·)

theorem jsonEntries_eq (entries : List (String × Value)) :
    jsonEntries entries = entries.mapM jsonEntry := by
  induction entries with
  | nil => rfl
  | cons e r ih =>
    obtain ⟨k, v⟩ := e
    rw [List.mapM_cons, jsonEntries, ih, jsonEntry]
    cases toJson v with
    | error e => rfl
    | ok j => cases r.mapM jsonEntry <;> rfl

theorem jsonEntry_eq_ok {e : String × Value} {f : String × Json} :
    jsonEntry e = .ok f ↔ e.2.toJson = .ok f.2 ∧ e.1 = f.1 := by
  rw [jsonEntry, map_eq_ok]
  constructor
  · rintro ⟨j, hj, rfl⟩
    exact ⟨hj, rfl⟩
  · rintro ⟨hj, hk⟩
    exact ⟨f.2, hj, Prod.ext hk rfl⟩

theorem toJson_list {items : List Value} :
    (Value.list items).toJson = .ok j ↔
      ∃ js, List.Forall₂ (fun v j => v.toJson = .ok j) items js ∧ .array js = j := by
  rw [toJson, map_eq_ok, jsonItems_eq]
  exact exists_congr fun js => and_congr_left' mapM_eq_ok

theorem toJson_map {entries : List (String × Value)} :
    (Value.map entries).toJson = .ok j ↔
      ∃ es, List.Forall₂ (fun e f => e.2.toJson = .ok f.2 ∧ e.1 = f.1) entries es ∧
        .ofEntries es = j := by
  rw [toJson, map_eq_ok, jsonEntries_eq]
  refine exists_congr fun es => and_congr_left' ?_
  rw [mapM_eq_ok]
  simp only [jsonEntry_eq_ok]

theorem doubleJson_eq_ok (h : doubleJson d = .ok j) :
    d.isFinite = true ∧
      ((∃ n, d.whole? = some n ∧ n.natAbs ≤ exactLimit ∧ j = .integer n) ∨ j = .double d) := by
  unfold doubleJson at h
  cases hw : d.whole? with
  | some n =>
    have hfinite : d.isFinite = true := by
      cases d with
      | finite => rfl
      | nan => cases hw
      | infinity => cases hw
    simp only [hw] at h
    split at h
    next hn =>
      cases h
      exact ⟨hfinite, .inl ⟨n, rfl, hn, rfl⟩⟩
    next =>
      cases h
      exact ⟨hfinite, .inr rfl⟩
  | none =>
    simp only [hw] at h
    split at h
    next hf =>
      cases h
      exact ⟨hf, .inr rfl⟩
    next => cases h

theorem doubleJson_eq_error {e : Double} (h : doubleJson d = .error e) :
    e = d ∧ d.isFinite = false := by
  unfold doubleJson at h
  split at h
  · split at h <;> cases h
  · split at h
    · cases h
    next hf =>
      cases h
      exact ⟨rfl, Bool.eq_false_iff.mpr hf⟩

/-- A value that has JSON holds finite doubles only. -/
theorem isFinite_of_holds (hd : Holds d v) (h : v.toJson = .ok j) : d.isFinite = true := by
  induction hd generalizing j with
  | double => exact (doubleJson_eq_ok h).1
  | item hv _ ih =>
    obtain ⟨js, hjs, _⟩ := toJson_list.mp h
    obtain ⟨j, hj⟩ := mapM_ok_of_mem (mapM_eq_ok.mpr hjs) hv
    exact ih hj
  | entry he _ ih =>
    obtain ⟨es, hes, _⟩ := toJson_map.mp h
    simp only [← jsonEntry_eq_ok] at hes
    obtain ⟨f, hf⟩ := mapM_ok_of_mem (mapM_eq_ok.mpr hes) he
    exact ih (jsonEntry_eq_ok.mp hf).1

/-- A value without JSON gives back a double that it holds and that is not finite. -/
theorem holds_of_toJson_error (h : v.toJson = .error d) : Holds d v ∧ d.isFinite = false := by
  induction v using nested_induction with
  | null | bool | int | string => cases h
  | double x =>
    obtain ⟨rfl, hf⟩ := doubleJson_eq_error h
    exact ⟨.double, hf⟩
  | list items ih =>
    rw [toJson, map_eq_error, jsonItems_eq] at h
    obtain ⟨w, hw, h⟩ := mapM_error h
    exact ⟨.item hw (ih w hw h).1, (ih w hw h).2⟩
  | map entries ih =>
    rw [toJson, map_eq_error, jsonEntries_eq] at h
    obtain ⟨e, he, h⟩ := mapM_error h
    have h := map_eq_error.mp h
    exact ⟨.entry he (ih e he h).1, (ih e he h).2⟩

theorem toJson_fails_iff : (∃ d, v.toJson = .error d) ↔ ∃ d, Holds d v ∧ d.isFinite = false := by
  constructor
  · rintro ⟨d, h⟩
    exact ⟨d, holds_of_toJson_error h⟩
  · rintro ⟨d, hd, hf⟩
    cases h : v.toJson with
    | error e => exact ⟨e, rfl⟩
    | ok j => exact absurd (isFinite_of_holds hd h) (by simp [hf])

/-- The JSON of a value is read back as it is written. -/
theorem writable_of_toJson (h : v.toJson = .ok j) (hn : v.levels ≤ n) : Json.Writable n j := by
  induction v using nested_induction generalizing n j with
  | null => cases h; exact .null
  | bool b => cases h; exact .bool
  | int m =>
    cases h
    have low := m.le_toInt
    have high := m.toInt_lt
    exact .integer low (by omega)
  | string s => cases h; exact .string
  | double d =>
    obtain ⟨hf, ⟨m, _, hm, rfl⟩ | rfl⟩ := doubleJson_eq_ok h
    · rw [exactLimit] at hm
      exact .integer (by omega) (by omega)
    · exact .double hf
  | list items ih =>
    obtain ⟨js, hjs, rfl⟩ := toJson_list.mp h
    rw [levels] at hn
    obtain ⟨n, rfl⟩ := Nat.exists_eq_succ_of_ne_zero (show n ≠ 0 by omega)
    refine .array fun j hj => ?_
    obtain ⟨w, hw, hj⟩ := exists_mem_of_forall₂ hjs hj
    have := levels_of_mem hw
    exact ih w hw hj (by omega)
  | map entries ih =>
    obtain ⟨es, hes, rfl⟩ := toJson_map.mp h
    rw [levels] at hn
    obtain ⟨n, rfl⟩ := Nat.exists_eq_succ_of_ne_zero (show n ≠ 0 by omega)
    refine .object (sorted_sortedEntries es) fun f hf => ?_
    obtain ⟨e, he, hf, _⟩ := exists_mem_of_forall₂ hes (sortedEntries_subset es hf)
    have := entry_levels_of_mem he
    exact ih e he hf (by omega)

theorem ofItems_eq (items : List Json) : ofItems items = items.map ofJson := by
  induction items with
  | nil => rfl
  | cons j r ih => rw [ofItems, ih, List.map_cons]

theorem ofEntries_eq (entries : List (String × Json)) :
    ofEntries entries = entries.map fun e => (e.1, ofJson e.2) := by
  induction entries with
  | nil => rfl
  | cons e r ih =>
    obtain ⟨k, j⟩ := e
    rw [ofEntries, ih, List.map_cons]

theorem equalItems_of_forall₂ {xs ys : List Value} (h : List.Forall₂ (fun x y => x.equal y) xs ys) :
    equalItems xs ys = true := by
  induction h with
  | nil => rfl
  | cons hxy _ ih => rw [equalItems, hxy, ih]; rfl

theorem equalEntries_of_lookup {xs ys : List (String × Value)}
    (h : ∀ x ∈ xs, ∃ y, lookup? ys x.1 = some y ∧ x.2.equal y = true) :
    equalEntries xs ys = true := by
  induction xs with
  | nil => rfl
  | cons x xs ih =>
    obtain ⟨k, v⟩ := x
    obtain ⟨y, hy, hv⟩ := h (k, v) List.mem_cons_self
    rw [equalEntries, ih fun x hx => h x (List.mem_cons_of_mem _ hx), hy]
    exact Bool.and_eq_true_iff.mpr ⟨hv, rfl⟩

/-- A value is equal to what its JSON is converted to. -/
theorem equal_of_toJson (hk : Keyed v) (h : v.toJson = .ok j) : v.equal (ofJson j) = true := by
  induction hk generalizing j with
  | null => cases h; rfl
  | bool => cases h; simp [ofJson, equal]
  | int =>
    cases h
    rw [ofJson, equal]
    exact Double.eq_self (Double.ofInt_ne_nan _)
  | @double d =>
    obtain ⟨hf, ⟨n, hn, _, rfl⟩ | rfl⟩ := doubleJson_eq_ok h
    · rw [ofJson, equal]
      exact Double.eq_ofInt_of_whole? hn
    · rw [ofJson, equal]
      refine Double.eq_self ?_
      rintro rfl
      cases hf
  | string => cases h; simp [ofJson, equal]
  | @list items _ ih =>
    obtain ⟨js, hjs, rfl⟩ := toJson_list.mp h
    have hlength := hjs.length_eq
    have hitems : equalItems items (ofItems js) = true := by
      rw [ofItems_eq]
      apply equalItems_of_forall₂
      rw [List.forall₂_map_right_iff]
      refine List.forall₂_iff_get.mpr ⟨hlength, fun i hi hj => ?_⟩
      exact ih _ (List.getElem_mem hi) (hjs.get hi hj)
    rw [ofJson, equal, hitems, ofItems_eq, List.length_map, hlength]
    simp
  | @map entries hnodup _ ih =>
    obtain ⟨es, hes, rfl⟩ := toJson_map.mp h
    have hlength := hes.length_eq
    have hperm := sortedEntries_perm es (keys_eq_of_forall₂ (hes.imp fun _ _ h => h.2) ▸ hnodup)
    have hentries : equalEntries entries (ofEntries (sortedEntries es)) = true := by
      apply equalEntries_of_lookup
      intro e he
      obtain ⟨f, hf, hj, hkey⟩ := exists_mem_of_forall₂ hes.flip he
      have hfound : lookup? (sortedEntries es) f.1 = some f.2 :=
        lookup?_of_mem ((sorted_sortedEntries es).imp ne_of_lt) (hperm.mem_iff.mpr hf)
      exact ⟨ofJson f.2, by rw [ofEntries_eq, lookup?_map, hkey, hfound]; rfl, ih e he hj⟩
    change (entries.length == (ofEntries (sortedEntries es)).length && _) = true
    rw [hentries, ofEntries_eq, List.length_map, hperm.length_eq, hlength]
    simp

end

end Value

/-- A value has no bytes exactly when it holds a double that is not finite, and its bytes are read
back as a value equal to it. -/
theorem jsonBytes_round_trip (v : Value) :
    ((∃ e, v.jsonBytes = .error e) ↔ ∃ d, v.Holds d ∧ d.isFinite = false) ∧
    (∀ e, v.jsonBytes = .error e → ∃ d, e = .notSerializable d ∧ v.Holds d ∧ d.isFinite = false) ∧
    (v.Keyed → v.levels ≤ 127 → (∀ d, v.Holds d → d.isFinite = true) →
      ∃ b j, v.jsonBytes = .ok b ∧ Json.parse? b = some j ∧ v.equal (.ofJson j) = true) := by
  have herror :
      ∀ e, v.jsonBytes = .error e ↔ ∃ d, e = .notSerializable d ∧ v.toJson = .error d := by
    intro e
    unfold Value.jsonBytes
    cases v.toJson with
    | ok j => simp
    | error d => simp [eq_comm]
  refine ⟨?_, fun e he => ?_, fun hkeyed hlevels hfinite => ?_⟩
  · rw [← Value.toJson_fails_iff]
    constructor
    · rintro ⟨e, he⟩
      obtain ⟨d, _, hd⟩ := (herror e).mp he
      exact ⟨d, hd⟩
    · rintro ⟨d, hd⟩
      exact ⟨_, (herror _).mpr ⟨d, rfl, hd⟩⟩
  · obtain ⟨d, rfl, hd⟩ := (herror e).mp he
    exact ⟨d, rfl, Value.holds_of_toJson_error hd⟩
  · cases hj : v.toJson with
    | error d =>
      obtain ⟨hd, hf⟩ := Value.holds_of_toJson_error hj
      rw [hfinite d hd] at hf
      cases hf
    | ok j =>
      refine ⟨j.write, j, ?_, Json.parse?_write (Value.writable_of_toJson hj hlevels),
        Value.equal_of_toJson hkeyed hj⟩
      rw [Value.jsonBytes, hj]

def zeroInList : Value :=
  .map [("b", .list [.int 7, .double .zero]), ("a", .string "x")]

theorem jsonBytes_round_trip_zero_in_list :
    ∃ b j, zeroInList.jsonBytes = .ok b ∧ Json.parse? b = some j ∧
      zeroInList.equal (.ofJson j) = true := by
  have hlist : (Value.list [.int 7, .double .zero]).Keyed := by
    refine .list fun w hw => ?_
    rcases List.mem_pair.mp hw with rfl | rfl
    · exact .int
    · exact .double
  have hkeyed : zeroInList.Keyed := by
    refine .map (by decide) fun e he => ?_
    rcases List.mem_pair.mp he with rfl | rfl
    · exact hlist
    · exact .string
  have hfinite : ∀ d, zeroInList.Holds d → d.isFinite = true := by
    unfold zeroInList
    rintro d (_ | _ | ⟨he, hd⟩)
    rcases List.mem_pair.mp he with rfl | rfl
    · obtain _ | ⟨hw, hd⟩ := hd
      rcases List.mem_pair.mp hw with rfl | rfl
      · cases hd
      · cases hd
        rfl
    · cases hd
  exact (jsonBytes_round_trip zeroInList).2.2 hkeyed (by decide) hfinite

end EventStream
