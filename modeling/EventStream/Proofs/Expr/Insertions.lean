import EventStream.Proofs.Entries
import EventStream.Proofs.Expr.Environments

namespace EventStream

theorem keys_reverse {κ α : Type} (entries : List (κ × α)) :
    keys entries.reverse = (keys entries).reverse :=
  List.map_reverse

section
variable {κ α : Type} [DecidableEq κ] {entries xs ys : List (κ × α)} {name : κ} {value : α}

/-- A name that is set again keeps its place, and a new one comes last. -/
theorem keys_setEntry (name : κ) (value : α) (entries : List (κ × α)) :
    keys (setEntry name value entries) =
      if name ∈ keys entries then keys entries else keys entries ++ [name] := by
  induction entries with
  | nil => rfl
  | cons e r ih =>
    obtain ⟨n, v⟩ := e
    by_cases hn : n = name
    · simp [setEntry, keys_cons, hn]
    · rw [setEntry, if_neg hn, keys_cons, keys_cons, ih]
      by_cases hr : name ∈ keys r <;> simp [hr, Ne.symm hn]

theorem nodup_setEntry (h : (keys entries).Nodup) :
    (keys (setEntry name value entries)).Nodup := by
  rw [keys_setEntry]
  split
  next => exact h
  next hn => exact List.concat_eq_append ▸ h.concat hn

/-- The same entries, those under one name in the same order. -/
structure Reorders (xs ys : List (κ × α)) : Prop where
  perm : xs.Perm ys
  filter_eq : ∀ name, ys.filter (·.1 = name) = xs.filter (·.1 = name)

/-- Lookup sees the entries of one name only. -/
theorem lookup?_filter (entries : List (κ × α)) (name : κ) :
    lookup? (entries.filter (·.1 = name)) name = lookup? entries name := by
  induction entries with
  | nil => rfl
  | cons e r ih =>
    obtain ⟨n, v⟩ := e
    by_cases hn : n = name <;> simp [lookup?, hn, ih]

/-- An entry is found where no entry before it has its name. -/
theorem lookup?_eq_some_iff_append : lookup? entries name = some value ↔
    ∃ before after, entries = before ++ (name, value) :: after ∧ name ∉ keys before := by
  constructor
  · intro h
    induction entries with
    | nil => cases h
    | cons e r ih =>
      obtain ⟨n, v⟩ := e
      unfold lookup? at h
      split at h
      next hn =>
        cases h
        exact ⟨[], r, by rw [hn]; rfl, List.not_mem_nil⟩
      next hn =>
        obtain ⟨before, after, rfl, hbefore⟩ := ih h
        refine ⟨(n, v) :: before, after, rfl, ?_⟩
        rw [keys_cons, List.mem_cons, not_or]
        exact ⟨Ne.symm hn, hbefore⟩
  · rintro ⟨before, after, rfl, hbefore⟩
    rw [lookup?_append _ _ hbefore, lookup?, if_pos rfl]

end

namespace Bindings

section
variable {inserted other : List (String × Value)} {name : String} {v : Value}

theorem lastInserted_eq_some : lastInserted inserted name = some v ↔
    ∃ before after, inserted = before ++ (name, v) :: after ∧ name ∉ keys after := by
  rw [lastInserted, lookup?_eq_some_iff_append]
  constructor
  · rintro ⟨after, before, h, hafter⟩
    refine ⟨before.reverse, after.reverse, ?_, by rwa [keys_reverse, List.mem_reverse]⟩
    rw [← List.reverse_reverse inserted, h]
    simp
  · rintro ⟨before, after, rfl, hafter⟩
    exact ⟨after.reverse, before.reverse, by simp, by rwa [keys_reverse, List.mem_reverse]⟩

theorem lastInserted_eq_none : lastInserted inserted name = none ↔ name ∉ keys inserted := by
  rw [lastInserted, lookup?_eq_none, keys_reverse, List.mem_reverse]

theorem lastInserted_of_reorders (h : Reorders inserted other) :
    lastInserted other name = lastInserted inserted name := by
  rw [lastInserted, lastInserted, ← lookup?_filter, ← lookup?_filter inserted.reverse,
    List.filter_reverse, List.filter_reverse, h.filter_eq]

theorem nodup_insert (b : Bindings) (h : (keys b.entries).Nodup) (name : String) (v : Value) :
    (keys (b.insert name v).entries).Nodup :=
  nodup_setEntry h

theorem nodup_ofInserted (inserted : List (String × Value)) :
    (keys (ofInserted inserted).entries).Nodup :=
  List.foldlRecOn (motive := fun b : Bindings => (keys b.entries).Nodup) inserted _ .nil
    fun b h e _ => b.nodup_insert h e.1 e.2

theorem mem_keys_ofInserted :
    name ∈ keys (ofInserted inserted).entries ↔ name ∈ keys inserted := by
  rw [mem_keys_iff_isSome, ← not_iff_not, Bool.not_eq_true, Option.isSome_eq_false_iff,
    Option.isNone_iff_eq_none, ← lastInserted_eq_none]
  exact (get?_ofInserted inserted name).symm ▸ Iff.rfl

end

/-- Under each name is the value that was inserted last, under no other name is any, each name is
stored once, and insertions under different names may be exchanged. -/
theorem inserted_finite_map (inserted : List (String × Value)) :
    (∀ name v, (ofInserted inserted).get? name = some v ↔
      ∃ before after, inserted = before ++ (name, v) :: after ∧ name ∉ keys after) ∧
    (∀ name, (ofInserted inserted).get? name = none ↔ name ∉ keys inserted) ∧
    (ofInserted inserted).size = (keys inserted).dedup.length ∧
    ((ofInserted inserted).isEmpty = true ↔ inserted = []) ∧
    (keys (ofInserted inserted).entries).Nodup ∧
    ∀ other, Reorders inserted other →
      ∀ name, (ofInserted other).get? name = (ofInserted inserted).get? name := by
  have hsame : (keys (ofInserted inserted).entries).Perm (keys inserted).dedup :=
    (List.perm_ext_iff_of_nodup (nodup_ofInserted inserted) (List.nodup_dedup _)).mpr fun name => by
      rw [mem_keys_ofInserted, List.mem_dedup]
  have hsize : (ofInserted inserted).size = (keys inserted).dedup.length := by
    rw [← hsame.length_eq, size, keys, List.length_map]
  refine ⟨fun name v => ?_, fun name => ?_, hsize, ?_, nodup_ofInserted inserted,
    fun other h name => ?_⟩
  · rw [get?_ofInserted, lastInserted_eq_some]
  · rw [get?_ofInserted, lastInserted_eq_none]
  · rw [isEmpty, List.isEmpty_iff_length_eq_zero, ← size, hsize]
    simp [keys]
  · rw [get?_ofInserted, get?_ofInserted, lastInserted_of_reorders h]

/-- A name that is inserted twice, with another one before, between and after its values. -/
theorem inserted_finite_map_of_value_replaced :
    let first : List (String × Value) := [("b", .null), ("a", .int 1), ("a", .int 2)]
    let between : List (String × Value) := [("a", .int 1), ("b", .null), ("a", .int 2)]
    (ofInserted between).get? "a" = some (.int 2) ∧ (ofInserted between).size = 2 ∧
    Reorders between first ∧ (ofInserted first).get? "a" = (ofInserted between).get? "a" := by
  intro first between
  have h : Reorders between first := by
    refine ⟨.swap _ _ _, fun name => ?_⟩
    by_cases ha : "a" = name
    · subst ha
      rfl
    · by_cases hb : "b" = name <;> simp [first, between, ha, hb]
  obtain ⟨hget, _, hsize, _, _, hsame⟩ := inserted_finite_map between
  refine ⟨(hget "a" (.int 2)).mpr ?_, hsize, h, hsame first h "a"⟩
  exact ⟨[("a", .int 1), ("b", .null)], [], rfl, List.not_mem_nil⟩

end Bindings

end EventStream
