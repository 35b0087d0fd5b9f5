import EventStream.Proofs.Double.Order
import EventStream.Proofs.Expr.JsonValues

namespace EventStream

section
variable {α β : Type} {R : α → β → Prop} {S : β → α → Prop} {x : Option α} {y : Option β}

theorem rel_swap (h : Option.Rel R x y) (hs : ∀ a b, x = some a → y = some b → R a b → S b a) :
    Option.Rel S y x := by
  cases h with
  | none => exact .none
  | some hab => exact .some (hs _ _ rfl rfl hab)

theorem isSome_eq_of_rel (h : Option.Rel R x y) : x.isSome = y.isSome := by
  cases h <;> rfl

theorem rel_some_left {a : α} : Option.Rel R (some a) y ↔ ∃ b, y = some b ∧ R a b := by
  constructor
  · rintro ⟨hab⟩
    exact ⟨_, rfl, hab⟩
  · rintro ⟨b, rfl, hab⟩
    exact .some hab

end

theorem rel_self {α : Type} {R : α → α → Prop} {x : Option α} :
    Option.Rel R x x ↔ ∀ a, x = some a → R a a := by
  constructor
  · rintro h a rfl
    obtain ⟨b, hb, hab⟩ := rel_some_left.mp h
    cases hb
    exact hab
  · intro h
    cases x with
    | none => exact .none
    | some a => exact .some (h a rfl)

namespace Double

theorem eq_iff {a b : Double} {x y : Int} (ha : a.place? = some x) (hb : b.place? = some y) :
    a.eq b = true ↔ x = y := by
  unfold eq
  rw [ha, hb]
  exact beq_iff_eq

theorem eq_comm (a b : Double) : a.eq b = b.eq a := by
  unfold eq
  cases a.place? <;> cases b.place? <;> simp [Bool.beq_comm]

theorem eq_self_iff {d : Double} : d.eq d = true ↔ d ≠ .nan := by
  refine ⟨?_, eq_self⟩
  rintro h rfl
  cases h

end Double

namespace Value

section
variable {v w : Value} {xs ys : List Value}

theorem equalItems_iff (h : xs.length = ys.length) :
    equalItems xs ys = true ↔ List.Forall₂ (fun v w => v.equal w = true) xs ys := by
  induction xs generalizing ys with
  | nil =>
    cases ys with
    | nil => simp [equalItems]
    | cons => cases h
  | cons v xs ih =>
    cases ys with
    | nil => cases h
    | cons w ys => rw [equalItems, Bool.and_eq_true, ih (Nat.succ.inj h), List.forall₂_cons]

theorem equal_list : (Value.list xs).equal (.list ys) = true ↔
    List.Forall₂ (fun v w => v.equal w = true) xs ys := by
  rw [equal, Bool.and_eq_true, beq_iff_eq]
  constructor
  · rintro ⟨hlength, h⟩
    exact (equalItems_iff hlength).mp h
  · intro h
    exact ⟨h.length_eq, (equalItems_iff h.length_eq).mpr h⟩

end

section
variable {xs ys : List (String × Value)}

theorem equalEntries_iff : equalEntries xs ys = true ↔
    ∀ x ∈ xs, ∃ y, lookup? ys x.1 = some y ∧ x.2.equal y = true := by
  refine ⟨fun h => ?_, equalEntries_of_lookup⟩
  induction xs with
  | nil => exact fun _ hx => nomatch hx
  | cons x xs ih =>
    obtain ⟨k, v⟩ := x
    rw [equalEntries, Bool.and_eq_true] at h
    refine List.forall_mem_cons.mpr ⟨?_, ih h.2⟩
    have hhead := h.1
    split at hhead
    next y hy => exact ⟨y, hy, hhead⟩
    next => cases hhead

/-- The order of entries does not matter. -/
theorem equal_map (hx : (keys xs).Nodup) (hy : (keys ys).Nodup) :
    (Value.map xs).equal (.map ys) = true ↔
      ∀ k, Option.Rel (fun v w => v.equal w = true) (lookup? xs k) (lookup? ys k) := by
  rw [equal, Bool.and_eq_true, beq_iff_eq, equalEntries_iff]
  constructor
  · rintro ⟨hlength, h⟩ k
    have hsub : keys xs ⊆ keys ys := by
      intro k hk
      obtain ⟨x, hmem, rfl⟩ := List.mem_map.mp hk
      obtain ⟨y, hfound, _⟩ := h x hmem
      exact mem_keys_iff_isSome.mpr (by rw [hfound]; rfl)
    cases hk : lookup? xs k with
    | none =>
      have hnot : k ∉ keys ys := fun hmem =>
        lookup?_eq_none.mp hk (keys_subset_of_length hx hsub hlength hmem)
      rw [lookup?_eq_none.mpr hnot]
      exact .none
    | some v =>
      obtain ⟨w, hfound, hvw⟩ := h (k, v) (mem_of_lookup? hk)
      rw [hfound]
      exact .some hvw
  · intro h
    have hkeys : ∀ k, k ∈ keys xs ↔ k ∈ keys ys := fun k => by
      rw [mem_keys_iff_isSome, mem_keys_iff_isSome, isSome_eq_of_rel (h k)]
    have hperm := (List.perm_ext_iff_of_nodup hx hy).mpr hkeys
    refine ⟨by simpa [keys] using hperm.length_eq, fun x hmem => ?_⟩
    have hrel := h x.1
    rw [lookup?_of_mem hx hmem] at hrel
    exact rel_some_left.mp hrel

end

section
variable {v w : Value}

theorem equal_symm (hv : Keyed v) (hw : Keyed w) (h : v.equal w = true) : w.equal v = true := by
  induction hv generalizing w with
  | null | bool | int | double | string =>
    cases hw <;> simp_all [equal, Double.eq_comm]
  | @list xs _ ih =>
    cases hw with
    | @list ys hys =>
      have hitems := equal_list.mp h
      refine equal_list.mpr (List.forall₂_iff_get.mpr ⟨hitems.length_eq.symm, fun i hi hj => ?_⟩)
      exact ih _ (List.getElem_mem hj) (hys _ (List.getElem_mem hi)) (hitems.get hj hi)
    | _ => cases h
  | @map xs hx _ ih =>
    cases hw with
    | @map ys hy hys =>
      rw [equal_map hx hy] at h
      refine (equal_map hy hx).mpr fun k => rel_swap (h k) fun v w hv hw hvw => ?_
      exact ih _ (mem_of_lookup? hv) (hys _ (mem_of_lookup? hw)) hvw
    | _ => cases h

theorem equal_comm (hv : Keyed v) (hw : Keyed w) : v.equal w = w.equal v := by
  rw [Bool.eq_iff_iff]
  exact ⟨equal_symm hv hw, equal_symm hw hv⟩

theorem equal_self_iff (hv : Keyed v) : v.equal v = true ↔ ∀ d, Holds d v → d ≠ .nan := by
  induction hv with
  | null | bool | int | string =>
    constructor
    · rintro _ d ⟨⟩
    · simp [equal]
  | @double d =>
    rw [equal, Double.eq_self_iff]
    constructor
    · rintro h _ ⟨⟩
      exact h
    · exact fun h => h d .double
  | @list xs _ ih =>
    rw [equal_list, List.forall₂_same]
    constructor
    · intro h d hd
      obtain _ | ⟨hw, hd⟩ := hd
      exact (ih _ hw).mp (h _ hw) d hd
    · exact fun h w hw => (ih w hw).mpr fun d hd => h d (.item hw hd)
  | @map xs hx _ ih =>
    rw [equal_map hx hx]
    constructor
    · intro h d hd
      obtain _ | _ | ⟨he, hd⟩ := hd
      exact (ih _ he).mp (rel_self.mp (h _) _ (lookup?_of_mem hx he)) d hd
    · refine fun h k => rel_self.mpr fun w hk => ?_
      have he := mem_of_lookup? hk
      exact (ih _ he).mpr fun d hd => h d (.entry he hd)

end

end Value

end EventStream
