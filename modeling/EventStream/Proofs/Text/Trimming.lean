import EventStream.Text.Blank
import Mathlib

namespace EventStream

/-- A text that neither starts nor ends with a blank. -/
def IsTrimmed (s : List Char) : Prop :=
  (∀ c ∈ s.head?, isBlank c = false) ∧ ∀ c ∈ s.getLast?, isBlank c = false

section
variable {s t w : List Char} {c : Char}

theorem head_dropWhile {q : Char → Bool} (hc : c ∈ (s.dropWhile q).head?) : q c = false := by
  have := List.head?_dropWhile_not q s
  rwa [Option.mem_def.mp hc] at this

/-- A text is what is left of it with blanks around that. -/
theorem trim_spec (s : List Char) : ∃ w v, s = w ++ (trim s ++ v) ∧
    (∀ c ∈ w, isBlank c = true) ∧ (∀ c ∈ v, isBlank c = true) ∧
    (∀ c ∈ (trim s).head?, isBlank c = false) ∧ ∀ c ∈ (trim s).getLast?, isBlank c = false := by
  have hfront : s = s.takeWhile isBlank ++ trimStart s := List.takeWhile_append_dropWhile.symm
  have hback : trimStart s = trim s ++ ((trimStart s).reverse.takeWhile isBlank).reverse := by
    rw [trim, trimEnd, ← List.reverse_append, List.takeWhile_append_dropWhile, List.reverse_reverse]
  refine ⟨_, _, hback ▸ hfront, fun _ => List.mem_takeWhile_imp, fun c hc => ?_, fun c hc => ?_,
    fun c hc => ?_⟩
  · exact List.mem_takeWhile_imp (List.mem_reverse.mp hc)
  · apply head_dropWhile (s := s)
    rw [← trimStart, hback, List.head?_append, Option.mem_def.mp hc]
    rfl
  · rw [trim, trimEnd, List.getLast?_reverse] at hc
    exact head_dropWhile hc

theorem isTrimmed_trim (s : List Char) : IsTrimmed (trim s) := by
  obtain ⟨_, _, _, _, _, hfirst, hlast⟩ := trim_spec s
  exact ⟨hfirst, hlast⟩

theorem mem_of_mem_trim (h : c ∈ trim s) : c ∈ s := by
  obtain ⟨w, v, hs, _⟩ := trim_spec s
  rw [hs]
  exact List.mem_append_right _ (List.mem_append_left _ h)

theorem trim_append_blank (hw : ∀ c ∈ w, isBlank c = true) : trim (s ++ w) = trim s := by
  obtain ⟨a, b, hs, ha, hb, hfirst, hlast⟩ := trim_spec s
  conv_lhs => rw [hs, List.append_assoc, List.append_assoc]
  refine trim_append ha (fun c hc => ?_) hfirst hlast
  exact (List.mem_append.mp hc).elim (hb c) (hw c)

theorem IsTrimmed.trim_eq (h : IsTrimmed s) : trim s = s := by
  have := trim_append (w := []) (v := []) nofun nofun h.1 h.2
  rwa [List.nil_append, List.append_nil] at this

theorem trim_eq_nil_iff : trim s = [] ↔ ∀ c ∈ s, isBlank c = true := by
  constructor
  · intro h c hc
    obtain ⟨w, v, hs, hw, hv, _⟩ := trim_spec s
    rw [hs, h, List.nil_append] at hc
    exact (List.mem_append.mp hc).elim (hw c) (hv c)
  · exact trim_append_blank (s := [])

/-- What is left starts with the first character that is no blank. -/
theorem head?_trim (s : List Char) : (trim s).head? = s.find? (!isBlank ·) := by
  obtain ⟨w, v, hs, hw, hv, hfirst, _⟩ := trim_spec s
  have hblank {u : List Char} (hu : ∀ c ∈ u, isBlank c = true) : u.find? (!isBlank ·) = none :=
    List.find?_eq_none.mpr fun c hc => by simp [hu c hc]
  conv_rhs => rw [hs]
  rw [List.find?_append, hblank hw, Option.none_or]
  cases h : trim s with
  | nil => exact (hblank hv).symm
  | cons c r =>
    have hc : isBlank c = false := hfirst c (by simp [h])
    simp [hc]

/-- Two texts with anything between them. -/
theorem IsTrimmed.append_cons (hs : IsTrimmed s) (ht : IsTrimmed t) (hs' : s ≠ []) (ht' : t ≠ []) :
    IsTrimmed (s ++ c :: t) := by
  obtain ⟨d, r, rfl⟩ := List.exists_cons_of_ne_nil hs'
  refine ⟨hs.1, fun e he => ht.2 e ?_⟩
  rwa [List.getLast?_append_of_ne_nil _ (List.cons_ne_nil c t), List.getLast?_cons_of_ne_nil ht'] at he

end

end EventStream
