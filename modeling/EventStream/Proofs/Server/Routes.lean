import EventStream.Server.Ingest
import Mathlib

namespace EventStream

namespace Path

/-- A path follows a pattern. -/
inductive Matches : List Part → List Char → Prop
  | done : Matches [] []
  | letter {c ps s} : Matches ps s → Matches (.letter c :: ps) (c :: s)
  | stretch {n ps s} : '/' ∉ n → Matches ps s → Matches (.stretch :: ps) (n ++ s)
  | rest {c s} : Matches [.rest] (c :: s)

section
variable {α : Type} {b : Branch α} {ps : List Part} {x : α} {p : Part}

theorem mem_ends : x ∈ b.ends ↔ ([], x) ∈ b := by
  simp [Branch.ends]

theorem mem_past (h : (ps, x) ∈ b.past p) : (p :: ps, x) ∈ b := by
  obtain ⟨⟨qs, y⟩, hmem, h⟩ := List.mem_filterMap.mp h
  split at h
  next hhead =>
    cases h
    obtain ⟨rest, rfl⟩ := List.head?_eq_some_iff.mp hhead
    exact hmem
  next => cases h

theorem entries_miss (s : List Char) : (Outcome.miss s : Outcome α).entries = [] := by
  unfold Outcome.miss
  split <;> rfl

theorem mem_afterName {next : Branch α} {r : List Char} {onward : Outcome α}
    (h : x ∈ (Outcome.afterName next r onward).entries) : x ∈ onward.entries := by
  unfold Outcome.afterName at h
  split at h
  · split at h <;> cases h
  · exact h

theorem mem_followName_of_slash {s : List Char} (hm : Matches ps s)
    (h : (ps, x) ∈ (b.past .stretch).after '/') :
    ∃ ps', (ps', x) ∈ b ∧ Matches ps' ('/' :: s) :=
  ⟨_, mem_past (mem_past h), .stretch (n := []) List.not_mem_nil (.letter hm)⟩

/-- What is found along a path stands under a pattern that the path follows. -/
def FollowSound (α : Type) (path : List Char) : Prop :=
  ∀ (since : List Char) (b : Branch α) (x : α), x ∈ (follow since b path).entries →
    ∃ ps, (ps, x) ∈ b ∧ Matches ps path

/-- The same within a name that has begun. -/
def NameSound (α : Type) (path : List Char) : Prop :=
  ∀ (b : Branch α) (x : α), x ∈ (followName b path).entries →
    ∃ ps name rest, (ps, x) ∈ b ∧ path = name ++ rest ∧ '/' ∉ name ∧ Matches ps rest

theorem follow_nil_sound : FollowSound α [] := by
  intro since b x h
  unfold follow at h
  split at h
  next => exact ⟨[], mem_ends.mp h, .done⟩
  next =>
    split at h
    · cases h
    · rw [entries_miss] at h
      cases h

theorem followName_nil_sound : NameSound α [] := by
  intro b x h
  unfold followName at h
  split at h
  next => exact ⟨[], [], [], mem_ends.mp h, rfl, List.not_mem_nil, .done⟩
  next => split at h <;> cases h

variable {c : Char} {r : List Char}

theorem followName_cons_sound (hf : FollowSound α r) (hn : NameSound α r) :
    NameSound α (c :: r) := by
  intro b x h
  unfold followName at h
  split at h
  next hslash =>
    subst hslash
    obtain ⟨ps, hmem, hm⟩ := hf _ _ _ (mem_afterName h)
    exact ⟨_, [], _, mem_past hmem, rfl, List.not_mem_nil, .letter hm⟩
  next hslash =>
    obtain ⟨ps, name, rest, hmem, rfl, hname, hm⟩ := hn _ _ h
    exact ⟨ps, c :: name, rest, hmem, rfl, by simp [hname, Ne.symm hslash], hm⟩

theorem follow_cons_sound (hf : FollowSound α r) (hn : NameSound α r) :
    FollowSound α (c :: r) := by
  intro since b x h
  unfold follow at h
  split at h
  next d _ =>
    split at h
    next =>
      obtain ⟨ps, hmem, hm⟩ := hf _ _ _ h
      exact ⟨_, mem_past hmem, .letter hm⟩
    next =>
      rw [entries_miss] at h
      cases h
  next =>
    split at h
    next =>
      simp only at h
      split at h
      next => exact ⟨_, mem_past (mem_ends.mp h), .rest⟩
      next =>
        split at h
        next =>
          rw [entries_miss] at h
          cases h
        next =>
          split at h
          next hslash =>
            obtain ⟨ps, hmem, hm⟩ := hf _ _ _ (mem_afterName h)
            subst hslash
            exact mem_followName_of_slash hm hmem
          next hslash =>
            obtain ⟨ps, name, rest, hmem, rfl, hname, hm⟩ := hn _ _ h
            refine ⟨_, mem_past hmem, .stretch (n := c :: name) ?_ hm⟩
            simp [hname, Ne.symm hslash]
    next =>
      split at h
      next => cases h
      next =>
        obtain ⟨ps, hmem, hm⟩ := hf _ _ _ h
        exact ⟨_, mem_past hmem, .letter hm⟩

theorem follow_sound (path : List Char) : FollowSound α path ∧ NameSound α path := by
  induction path with
  | nil => exact ⟨follow_nil_sound, followName_nil_sound⟩
  | cons c r ih => exact ⟨follow_cons_sound ih.1 ih.2, followName_cons_sound ih.1 ih.2⟩

/-- What a path finds stands under a pattern that it follows. -/
theorem mem_lookup {entries : List (List Char × α)} {path : List Char}
    (h : x ∈ lookup entries path) :
    ∃ pattern, (pattern, x) ∈ entries ∧ Matches (parts pattern) path := by
  obtain ⟨ps, hmem, hm⟩ := (follow_sound path).1 _ _ _ h
  obtain ⟨⟨pattern, y⟩, he, hy⟩ := List.mem_map.mp hmem
  cases hy
  exact ⟨pattern, he, hm⟩

end

/-- A pattern in which no name begins. -/
def IsLiteral (pattern : List Char) : Prop :=
  ':' ∉ pattern ∧ '*' ∉ pattern

theorem parts_of_isLiteral {pattern : List Char} (h : IsLiteral pattern) :
    parts pattern = pattern.map .letter := by
  induction pattern with
  | nil => rfl
  | cons c r ih =>
    simp only [IsLiteral, List.mem_cons, not_or] at h
    rw [parts, ih ⟨h.1.2, h.2.2⟩, List.map_cons]
    · exact Ne.symm h.1.1
    · exact Ne.symm h.2.1

section
variable {α : Type} {b : Branch α} {c : Char} {r : List Char}

/-- Every pattern of a branch goes on with letters only. -/
def Branch.Spelled (b : Branch α) : Prop :=
  ∀ e ∈ b, ∃ s : List Char, e.1 = s.map .letter

/-- What stands on a branch under a text. -/
def Branch.under (b : Branch α) (s : List Char) : List α :=
  (b.filter fun e => e.1 = s.map .letter).map Prod.snd

theorem Branch.Spelled.past (h : b.Spelled) (p : Part) : (b.past p).Spelled := by
  rintro ⟨ps, x⟩ he
  obtain ⟨s, hs⟩ := h _ (mem_past he)
  cases s with
  | nil => cases hs
  | cons c s => exact ⟨s, (List.cons.inj hs).2⟩

theorem Branch.under_nil (b : Branch α) : b.under [] = b.ends := by
  unfold Branch.under Branch.ends
  congr 2
  funext e
  cases h : e.1 <;> simp

theorem Branch.under_cons (b : Branch α) (c : Char) (r : List Char) :
    b.under (c :: r) = (b.after c).under r := by
  unfold Branch.under Branch.after Branch.past
  induction b with
  | nil => rfl
  | cons e b ih =>
    obtain ⟨ps, x⟩ := e
    cases ps with
    | nil => simpa using ih
    | cons p ps =>
      by_cases hp : p = .letter c
      · subst hp
        by_cases hr : ps = r.map .letter <;> simpa [hr] using ih
      · simpa [hp] using ih

theorem Branch.Spelled.past_eq_nil (h : b.Spelled) {p : Part} (hp : ∀ c, p ≠ .letter c) :
    b.past p = [] := by
  refine List.eq_nil_iff_forall_not_mem.mpr fun ⟨ps, x⟩ he => ?_
  obtain ⟨s, hs⟩ := h _ (mem_past he)
  cases s with
  | nil => cases hs
  | cons c s => exact hp c (List.cons.inj hs).1

theorem Branch.after_eq_nil_of_only? {d : Char} (h : b.only? = some d) (hc : c ≠ d) :
    b.after c = [] := by
  have hall : ∀ e ∈ b, e.1.head? = some (.letter d) := by
    unfold Branch.only? at h
    split at h
    next c' ps x rest =>
      split at h
      next hrest =>
        obtain rfl := Option.some.inj h
        refine List.forall_mem_cons.mpr ⟨rfl, ?_⟩
        simpa using hrest
      next => cases h
    next => cases h
  refine List.eq_nil_iff_forall_not_mem.mpr fun ⟨ps, x⟩ he => ?_
  have := hall _ (mem_past he)
  simp only [List.head?_cons, Option.some.injEq, Part.letter.injEq] at this
  exact hc this

/-- Along letters a path finds what stands under it. -/
theorem entries_follow (since : List Char) (h : b.Spelled) (path : List Char) :
    (follow since b path).entries = b.under path := by
  induction path generalizing since b with
  | nil =>
    rw [Branch.under_nil]
    unfold follow
    split
    next => rfl
    next hends =>
      have hnone : b.ends = [] := by simpa using hends
      rw [hnone]
      split
      · rfl
      · exact entries_miss since
  | cons c r ih =>
    rw [Branch.under_cons]
    unfold follow
    split
    next d hd =>
      split
      next => exact ih _ (h.past _)
      next hc =>
        rw [entries_miss, Branch.after_eq_nil_of_only? hd hc]
        rfl
    next =>
      have hinner : (if (b.after c).isEmpty then Outcome.missed
          else follow (c :: r) (b.after c) r).entries = (b.after c).under r := by
        split
        next hempty =>
          rw [List.isEmpty_iff.mp hempty]
          rfl
        next => exact ih _ (h.past _)
      rw [← hinner]
      split
      next hmissed =>
        have hrest : b.past .rest = [] := h.past_eq_nil fun _ => nofun
        have hstretch : b.past .stretch = [] := h.past_eq_nil fun _ => nofun
        rw [hmissed, hrest, hstretch]
        exact entries_miss _
      next => rfl

/-- Where no pattern has a name, a path finds what stands under it as it is. -/
theorem lookup_of_isLiteral {entries : List (List Char × α)} (h : ∀ e ∈ entries, IsLiteral e.1)
    (path : List Char) :
    lookup entries path = (entries.filter fun e => e.1 = path).map Prod.snd := by
  have hmap : (entries.map fun e => (parts e.1, e.2)) =
      entries.map fun e => (e.1.map Part.letter, e.2) :=
    List.map_congr_left fun e he => by rw [parts_of_isLiteral (h e he)]
  have hspelled : Branch.Spelled (entries.map fun e => (e.1.map Part.letter, e.2)) := by
    intro e he
    obtain ⟨d, _, rfl⟩ := List.mem_map.mp he
    exact ⟨d.1, rfl⟩
  have hletters : Function.Injective (List.map Part.letter) :=
    List.map_injective_iff.mpr fun _ _ h => Part.letter.inj h
  unfold lookup
  rw [hmap, entries_follow _ hspelled]
  simp [Branch.under, List.filter_map, Function.comp_def, hletters.eq_iff]

end

end Path

end EventStream
