import EventStream.Proofs.Double.Values
import EventStream.Proofs.Expr.JsonValues
import EventStream.Proofs.Json.Parsed

namespace EventStream

/-- JSON data, each number as what it stands for. -/
inductive Datum where
  | null
  | bool (b : Bool)
  | number (q : ℚ)
  | string (s : String)
  | array (items : List Datum)
  | object (entries : List (String × Datum))

namespace Json

mutual

/-- The data that JSON is, its numbers as `f` changes them. -/
def datum (f : ℚ → ℚ) : Json → Datum
  | .null => .null
  | .bool b => .bool b
  | .integer n => .number (f n)
  | .double d => .number (f d.value)
  | .string s => .string s
  | .array items => .array (itemData f items)
  | .object entries => .object (entryData f entries)
termination_by structural j => j

def itemData (f : ℚ → ℚ) : List Json → List Datum
  | [] => []
  | j :: r => datum f j :: itemData f r
termination_by structural items => items

def entryData (f : ℚ → ℚ) : List (String × Json) → List (String × Datum)
  | [] => []
  | (k, j) :: r => (k, datum f j) :: entryData f r
termination_by structural entries => entries

end

/-- A number stands in JSON, at whatever depth. -/
inductive Holds : ℚ → Json → Prop
  | integer {n : Int} : Holds n (.integer n)
  | double {d : Double} : Holds d.value (.double d)
  | item {q items j} : j ∈ items → Holds q j → Holds q (.array items)
  | entry {q entries e} : e ∈ entries → Holds q e.2 → Holds q (.object entries)

section
variable {f g : ℚ → ℚ} {n : Nat} {j j' : Json} {q : ℚ}

theorem itemData_eq (f : ℚ → ℚ) (items : List Json) : itemData f items = items.map (datum f) := by
  induction items with
  | nil => rfl
  | cons j r ih => rw [itemData, ih, List.map_cons]

theorem entryData_eq (f : ℚ → ℚ) (entries : List (String × Json)) :
    entryData f entries = entries.map fun e => (e.1, e.2.datum f) := by
  induction entries with
  | nil => rfl
  | cons e r ih =>
    obtain ⟨k, j⟩ := e
    rw [entryData, ih, List.map_cons]

/-- Data are the same exactly when their numbers are. -/
theorem datum_eq_iff (hw : Writable n j) : j.datum f = j.datum g ↔ ∀ q, Holds q j → f q = g q := by
  induction hw with
  | null | bool | string =>
    refine ⟨fun _ q h => ?_, fun _ => rfl⟩
    cases h
  | @integer d m =>
    constructor
    · rintro h _ ⟨⟩
      exact Datum.number.inj h
    · exact fun h => congrArg Datum.number (h m .integer)
  | @double d x =>
    constructor
    · rintro h _ ⟨⟩
      exact Datum.number.inj h
    · exact fun h => congrArg Datum.number (h x.value .double)
  | @array d items _ ih =>
    simp only [datum, itemData_eq, Datum.array.injEq, List.map_inj_left]
    constructor
    · rintro h _ (_ | _ | ⟨hj, hq⟩)
      exact (ih _ hj).mp (h _ hj) _ hq
    · exact fun h j hj => (ih j hj).mpr fun q hq => h q (.item hj hq)
  | @object d entries _ _ ih =>
    simp only [datum, entryData_eq, Datum.object.injEq, List.map_inj_left, Prod.mk.injEq, true_and]
    constructor
    · rintro h _ (_ | _ | _ | ⟨he, hq⟩)
      exact (ih _ he).mp (h _ he) _ hq
    · exact fun h e he => (ih e he).mpr fun q hq => h q (.entry he hq)

/-- Only large integers are no doubles. -/
theorem isExact_or_of_holds (h : Holds q j) :
    Double.IsExact q ∨ ∃ m : Int, q = m ∧ 2 ^ 53 < m.natAbs := by
  induction h with
  | @integer m =>
    rcases Nat.lt_or_ge (2 ^ 53) m.natAbs with hm | hm
    · exact .inr ⟨m, rfl, hm⟩
    · exact .inl (Double.isExact_of_natAbs_le hm)
  | @double d => exact .inl ⟨d, rfl⟩
  | item _ _ ih => exact ih
  | entry _ _ ih => exact ih

end

end Json

namespace Value

variable {n : Nat} {j j' : Json} {d : Double}

theorem Holds.of_double {x : Double} (h : Holds d (.double x)) : d = x := by
  cases h
  rfl

theorem isFinite_of_holds_ofJson (hw : Json.Writable n j) (h : Holds d (ofJson j)) :
    d.isFinite = true := by
  induction hw with
  | null | bool | string =>
    rw [ofJson] at h
    cases h
  | integer low high =>
    rw [ofJson] at h
    rw [h.of_double]
    exact Double.isFinite_ofInt (by omega)
  | double hx =>
    rw [ofJson] at h
    rwa [h.of_double]
  | array _ ih =>
    rw [ofJson, ofItems_eq] at h
    obtain _ | ⟨hv, hd⟩ := h
    obtain ⟨j, hj, rfl⟩ := List.mem_map.mp hv
    exact ih j hj hd
  | object _ _ ih =>
    rw [ofJson, ofEntries_eq] at h
    obtain _ | _ | ⟨hv, hd⟩ := h
    obtain ⟨e, he, rfl⟩ := List.mem_map.mp hv
    exact ih e he hd

theorem toJson_ofJson_ok (hw : Json.Writable n j) : ∃ j', (ofJson j).toJson = .ok j' := by
  cases h : (ofJson j).toJson with
  | ok j' => exact ⟨j', rfl⟩
  | error d =>
    obtain ⟨hd, hf⟩ := holds_of_toJson_error h
    rw [isFinite_of_holds_ofJson hw hd] at hf
    cases hf

theorem datum_of_doubleJson (h : doubleJson d = .ok j') :
    Json.Writable n j' ∧ j'.datum id = .number d.value := by
  obtain ⟨hf, ⟨m, hm, hle, rfl⟩ | rfl⟩ := doubleJson_eq_ok h
  · rw [exactLimit] at hle
    exact ⟨.integer (by omega) (by omega), congrArg Datum.number (Double.value_of_whole? hm).symm⟩
  · exact ⟨.double hf, rfl⟩

theorem map_eq_map_of_forall₂ {α β γ : Type} {R : α → β → Prop} {f : α → γ} {g : β → γ}
    {xs : List α} {ys : List β} (h : List.Forall₂ R xs ys)
    (hfg : ∀ x ∈ xs, ∀ y, R x y → g y = f x) : ys.map g = xs.map f := by
  induction h with
  | nil => rfl
  | cons hxy _ ih =>
    rw [List.map_cons, List.map_cons, hfg _ List.mem_cons_self _ hxy,
      ih fun x hx => hfg x (List.mem_cons_of_mem _ hx)]

/-- What comes back is the same data with its numbers rounded. -/
theorem datum_of_toJson (hw : Json.Writable n j) (h : (ofJson j).toJson = .ok j') :
    Json.Writable n j' ∧ j'.datum id = j.datum Double.rounded := by
  induction hw generalizing j' with
  | null | bool | string =>
    rw [ofJson, toJson] at h
    obtain rfl := Except.ok.inj h
    refine ⟨by constructor, ?_⟩
    rw [Json.datum, Json.datum]
  | @integer n m low high =>
    rw [ofJson, toJson] at h
    obtain ⟨hw, hdatum⟩ := datum_of_doubleJson h
    refine ⟨hw, hdatum.trans ?_⟩
    rw [Json.datum, Double.rounded, Double.ofRat_intCast]
  | double =>
    rw [ofJson, toJson] at h
    obtain ⟨hw, hdatum⟩ := datum_of_doubleJson h
    refine ⟨hw, hdatum.trans ?_⟩
    rw [Json.datum, Double.rounded_value]
  | @array d items _ ih =>
    rw [ofJson, ofItems_eq] at h
    obtain ⟨js, hjs, rfl⟩ := toJson_list.mp h
    rw [List.forall₂_map_left_iff] at hjs
    constructor
    · refine .array fun j hj => ?_
      obtain ⟨i, hi, hj⟩ := exists_mem_of_forall₂ hjs hj
      exact (ih i hi hj).1
    · rw [Json.datum, Json.datum, Json.itemData_eq, Json.itemData_eq]
      exact congrArg _ (map_eq_map_of_forall₂ hjs fun i hi j hj => (ih i hi hj).2)
  | @object d entries hsorted _ ih =>
    rw [ofJson, ofEntries_eq] at h
    obtain ⟨es, hes, rfl⟩ := toJson_map.mp h
    rw [List.forall₂_map_left_iff] at hes
    have hkeys : (keys es).Pairwise (· < ·) :=
      keys_eq_of_forall₂ (hes.imp fun _ _ h => h.2) ▸ hsorted
    rw [Json.ofEntries, sortedEntries_of_sorted es hkeys]
    constructor
    · refine .object hkeys fun e he => ?_
      obtain ⟨i, hi, he, _⟩ := exists_mem_of_forall₂ hes he
      exact (ih i hi he).1
    · rw [Json.datum, Json.datum, Json.entryData_eq, Json.entryData_eq]
      refine congrArg _ (map_eq_map_of_forall₂ hes fun i hi e he => ?_)
      exact Prod.ext he.2.symm (ih i hi he.1).2

/-- JSON comes back from its value as the same data with each number rounded, wherever its own
numbers come from. Nothing is lost exactly when these are the numbers of doubles. -/
theorem json_of_writable (hw : Json.Writable n j) :
    ∃ j', (ofJson j).toJson = .ok j' ∧ Json.Writable n j' ∧
      j'.datum id = j.datum Double.rounded ∧
      (j'.datum id = j.datum id ↔ ∀ q, Json.Holds q j → Double.IsExact q) := by
  obtain ⟨j', hj'⟩ := toJson_ofJson_ok hw
  obtain ⟨hw', hdatum⟩ := datum_of_toJson hw hj'
  refine ⟨j', hj', hw', hdatum, ?_⟩
  rw [hdatum, Json.datum_eq_iff hw]
  exact forall₂_congr fun q _ => Double.rounded_eq_self

end Value

end EventStream
