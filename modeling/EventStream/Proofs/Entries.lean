import EventStream.Entries
import Mathlib

namespace EventStream

variable {κ α : Type}

def keys (entries : List (κ × α)) : List κ :=
  entries.map Prod.fst

theorem keys_cons (e : κ × α) (entries : List (κ × α)) :
    keys (e :: entries) = e.1 :: keys entries :=
  rfl

theorem keys_eq_of_forall₂ {β : Type} {xs : List (κ × α)} {ys : List (κ × β)}
    (h : List.Forall₂ (fun x y => x.1 = y.1) xs ys) : keys xs = keys ys := by
  induction h with
  | nil => rfl
  | cons hxy _ ih => rw [keys_cons, keys_cons, ih, hxy]

section
variable [DecidableEq κ] {entries : List (κ × α)} {k : κ} {v : α}

theorem lookup?_eq_none : lookup? entries k = none ↔ k ∉ keys entries := by
  induction entries with
  | nil => simp [lookup?, keys]
  | cons e r ih =>
    obtain ⟨n, w⟩ := e
    by_cases hn : n = k
    · simp [lookup?, keys, hn]
    · simpa [lookup?, keys, hn, Ne.symm hn] using ih

theorem lookup?_append (entries more : List (κ × α)) (h : k ∉ keys entries) :
    lookup? (entries ++ more) k = lookup? more k := by
  induction entries with
  | nil => rfl
  | cons e r ih =>
    obtain ⟨n, w⟩ := e
    have hne : n ≠ k := fun hn => h (hn ▸ List.mem_cons_self)
    rw [List.cons_append, lookup?, if_neg hne, ih fun hr => h (List.mem_cons_of_mem n hr)]

theorem mem_of_lookup? (h : lookup? entries k = some v) : (k, v) ∈ entries := by
  induction entries with
  | nil => cases h
  | cons e r ih =>
    obtain ⟨n, w⟩ := e
    unfold lookup? at h
    split at h
    next hn =>
      cases h
      exact hn ▸ List.mem_cons_self
    next => exact List.mem_cons_of_mem _ (ih h)

theorem lookup?_of_mem (hk : (keys entries).Nodup) (hm : (k, v) ∈ entries) :
    lookup? entries k = some v := by
  induction entries with
  | nil => simp at hm
  | cons e r ih =>
    obtain ⟨n, w⟩ := e
    obtain ⟨hn, hr⟩ := List.nodup_cons.mp hk
    rcases List.mem_cons.mp hm with he | hm
    · cases he
      exact if_pos rfl
    · have hkr : k ∈ keys r := List.mem_map_of_mem hm
      have hne : n ≠ k := fun he => hn (he ▸ hkr)
      rw [lookup?, if_neg hne, ih hr hm]

/-- Lookup after each value has been replaced. -/
theorem lookup?_map {β : Type} (f : α → β) :
    lookup? (entries.map fun e => (e.1, f e.2)) k = (lookup? entries k).map f := by
  induction entries with
  | nil => rfl
  | cons e r ih =>
    obtain ⟨n, w⟩ := e
    by_cases hn : n = k <;> simp [lookup?, hn, ih]

end

section
variable [LinearOrder κ] (key : κ) (value : α) (entries : List (κ × α))

theorem mem_keys_insertSorted {k : κ} :
    k ∈ keys (insertSorted key value entries) ↔ k = key ∨ k ∈ keys entries := by
  induction entries with
  | nil => simp [insertSorted, keys]
  | cons e r ih =>
    obtain ⟨n, v⟩ := e
    unfold insertSorted
    split
    · simp [keys]
    · split
      next hk => simp [keys, hk]
      next =>
        rw [keys_cons, keys_cons, List.mem_cons, List.mem_cons, ih, or_left_comm]

theorem sorted_insertSorted (h : (keys entries).Pairwise (· < ·)) :
    (keys (insertSorted key value entries)).Pairwise (· < ·) := by
  induction entries with
  | nil => simp [insertSorted, keys]
  | cons e r ih =>
    obtain ⟨n, v⟩ := e
    obtain ⟨hn, hr⟩ := List.pairwise_cons.mp h
    unfold insertSorted
    split
    next hlt =>
      refine List.pairwise_cons.mpr ⟨fun k hk => ?_, h⟩
      rcases List.mem_cons.mp hk with rfl | hk
      · exact hlt
      · exact hlt.trans (hn k hk)
    next hlt =>
      split
      next heq =>
        subst heq
        exact h
      next hne =>
        refine List.pairwise_cons.mpr ⟨fun k hk => ?_, ih hr⟩
        rcases (mem_keys_insertSorted key value r).mp hk with rfl | hk
        · exact lt_of_le_of_ne (not_lt.mp hlt) (Ne.symm hne)
        · exact hn k hk

theorem mem_of_mem_insertSorted {e : κ × α} (h : e ∈ insertSorted key value entries) :
    e = (key, value) ∨ e ∈ entries := by
  induction entries with
  | nil => exact .inl (List.mem_singleton.mp h)
  | cons d r ih =>
    obtain ⟨n, v⟩ := d
    unfold insertSorted at h
    split at h
    · exact List.mem_cons.mp h
    · split at h
      · exact (List.mem_cons.mp h).imp_right (List.mem_cons_of_mem _)
      · rcases List.mem_cons.mp h with rfl | h
        · exact .inr List.mem_cons_self
        · exact (ih h).imp_right (List.mem_cons_of_mem _)

theorem sorted_sortedEntries : (keys (sortedEntries entries)).Pairwise (· < ·) :=
  List.foldlRecOn entries _ .nil fun sorted h e _ => sorted_insertSorted e.1 e.2 sorted h

theorem sortedEntries_subset : sortedEntries entries ⊆ entries := by
  refine List.foldlRecOn (motive := (· ⊆ entries)) entries _ (List.nil_subset _) ?_
  intro sorted ih d hd e he
  rcases mem_of_mem_insertSorted d.1 d.2 sorted he with rfl | he
  · exact hd
  · exact ih he

theorem mem_keys_sortedEntries {k : κ} : k ∈ keys (sortedEntries entries) ↔ k ∈ keys entries := by
  have h : ∀ sorted : List (κ × α),
      k ∈ keys (entries.foldl (fun sorted e => insertSorted e.1 e.2 sorted) sorted) ↔
        k ∈ keys sorted ∨ k ∈ keys entries := by
    intro sorted
    induction entries generalizing sorted with
    | nil => simp [keys]
    | cons e r ih =>
      rw [List.foldl_cons, ih, mem_keys_insertSorted, keys_cons, List.mem_cons, or_assoc,
        or_left_comm]
  exact (h []).trans (or_iff_right List.not_mem_nil)

theorem insertSorted_perm (h : key ∉ keys entries) :
    (insertSorted key value entries).Perm ((key, value) :: entries) := by
  induction entries with
  | nil => exact .refl _
  | cons e r ih =>
    obtain ⟨n, v⟩ := e
    rw [keys_cons, List.mem_cons, not_or] at h
    unfold insertSorted
    split
    · exact .refl _
    · split
      next heq => exact absurd heq h.1
      next => exact ((ih h.2).cons (n, v)).trans (.swap _ _ r)

/-- Entries with different names are all kept. -/
theorem sortedEntries_perm (h : (keys entries).Nodup) : (sortedEntries entries).Perm entries := by
  have hfrom : ∀ sorted : List (κ × α), (keys entries).Disjoint (keys sorted) →
      (entries.foldl (fun sorted e => insertSorted e.1 e.2 sorted) sorted).Perm
        (sorted ++ entries) := by
    intro sorted hd
    induction entries generalizing sorted with
    | nil => simp
    | cons e r ih =>
      rw [keys_cons, List.nodup_cons] at h
      rw [keys_cons, List.disjoint_cons_left] at hd
      have hr : (keys r).Disjoint (keys (insertSorted e.1 e.2 sorted)) := by
        intro k hk hks
        rcases (mem_keys_insertSorted e.1 e.2 sorted).mp hks with rfl | hks
        · exact h.1 hk
        · exact hd.2 hk hks
      refine (ih h.2 _ hr).trans ?_
      refine ((insertSorted_perm e.1 e.2 sorted hd.1).append_right r).trans ?_
      exact List.perm_middle.symm
  exact hfrom [] (List.disjoint_nil_right _)

theorem eq_of_sorted_perm {other : List (κ × α)} (h : (keys entries).Pairwise (· < ·))
    (ho : (keys other).Pairwise (· < ·)) (hp : entries.Perm other) : entries = other := by
  have hlt : ∀ a b : κ × α, a ∈ entries → b ∈ other → a.1 < b.1 → b.1 < a.1 → a = b :=
    fun _ _ _ _ hab hba => absurd hba hab.not_gt
  exact List.Perm.eq_of_pairwise hlt (List.pairwise_map.mp h) (List.pairwise_map.mp ho) hp

/-- Sorted entries stay as they are. -/
theorem sortedEntries_of_sorted (h : (keys entries).Pairwise (· < ·)) :
    sortedEntries entries = entries :=
  eq_of_sorted_perm _ (sorted_sortedEntries entries) h (sortedEntries_perm entries (h.imp ne_of_lt))

/-- The order in which entries with different names came does not show. -/
theorem sortedEntries_of_perm {other : List (κ × α)} (h : (keys entries).Nodup)
    (hp : entries.Perm other) : sortedEntries entries = sortedEntries other := by
  have ho : (keys other).Nodup := (hp.map Prod.fst).nodup_iff.mp h
  refine eq_of_sorted_perm _ (sorted_sortedEntries entries) (sorted_sortedEntries other) ?_
  exact (sortedEntries_perm entries h).trans (hp.trans (sortedEntries_perm other ho).symm)

end

section
variable {xs ys : List (κ × α)} {k : κ}

theorem mem_keys_iff_isSome [DecidableEq κ] : k ∈ keys xs ↔ (lookup? xs k).isSome := by
  rw [← not_iff_not, ← lookup?_eq_none]
  simp

/-- Keys all of which are found among as many others are the same ones. -/
theorem keys_subset_of_length (hx : (keys xs).Nodup) (hsub : keys xs ⊆ keys ys)
    (hlength : xs.length = ys.length) : keys ys ⊆ keys xs := by
  have hle : (keys ys).length ≤ (keys xs).length := by
    unfold keys
    rw [List.length_map, List.length_map, hlength]
  exact ((List.subperm_of_subset hx hsub).perm_of_length_le hle).symm.subset

theorem lookup?_eq_some [DecidableEq κ] {v : α} (h : (keys xs).Nodup) :
    lookup? xs k = some v ↔ (k, v) ∈ xs :=
  ⟨mem_of_lookup?, lookup?_of_mem h⟩

/-- Entries with different names are told by what is found under each name. -/
theorem lookup?_eq_iff_perm [DecidableEq κ] (hx : (keys xs).Nodup) (hy : (keys ys).Nodup) :
    (∀ k, lookup? xs k = lookup? ys k) ↔ xs.Perm ys := by
  constructor
  · intro h
    refine (List.perm_ext_iff_of_nodup hx.of_map hy.of_map).mpr fun e => ?_
    rw [← lookup?_eq_some hx, ← lookup?_eq_some hy, h]
  · intro h k
    refine Option.ext fun v => ?_
    rw [lookup?_eq_some hx, lookup?_eq_some hy, h.mem_iff]

theorem sortedEntries_eq_iff [LinearOrder κ] (hx : (keys xs).Nodup) (hy : (keys ys).Nodup) :
    sortedEntries xs = sortedEntries ys ↔ ∀ k, lookup? xs k = lookup? ys k := by
  rw [lookup?_eq_iff_perm hx hy]
  constructor
  · intro h
    exact (sortedEntries_perm xs hx).symm.trans (h ▸ sortedEntries_perm ys hy)
  · exact sortedEntries_of_perm xs hx

end

end EventStream
