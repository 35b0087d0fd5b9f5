import Mathlib

namespace EventStream

/-- What goes into batches, each batch with what went out for it, and what is still waiting. -/
structure Batches (α β : Type) where
  out : List (List α × β)
  waiting : List α

namespace Batches

variable {α β : Type}

/-- A batch ends with the entry for which something goes out. -/
def add (b : Batches α β) (entry : α × Option β) : Batches α β :=
  match entry with
  | (a, none) => ⟨b.out, b.waiting ++ [a]⟩
  | (a, some result) => ⟨b.out ++ [(b.waiting ++ [a], result)], []⟩

def ofLog (log : List (α × Option β)) : Batches α β :=
  log.foldl add ⟨[], []⟩

/-- Everything that was taken in. -/
def items (b : Batches α β) : List α :=
  b.out.flatMap Prod.fst ++ b.waiting

theorem ofLog_concat (log : List (α × Option β)) (entry : α × Option β) :
    ofLog (log ++ [entry]) = (ofLog log).add entry :=
  List.foldl_concat add _ _ _

theorem items_add (b : Batches α β) (entry : α × Option β) :
    (b.add entry).items = b.items ++ [entry.1] := by
  obtain ⟨a, _ | result⟩ := entry
  · exact (List.append_assoc _ _ _).symm
  · simp [add, items]

theorem items_ofLog (log : List (α × Option β)) : (ofLog log).items = log.map Prod.fst := by
  induction log using List.reverseRecOn with
  | nil => rfl
  | append_singleton log entry ih =>
    rw [ofLog_concat, items_add, ih, List.map_append]
    rfl

theorem out_ofLog (log : List (α × Option β)) :
    (ofLog log).out.map Prod.snd = log.filterMap Prod.snd := by
  induction log using List.reverseRecOn with
  | nil => rfl
  | append_singleton log entry ih =>
    obtain ⟨a, _ | result⟩ := entry
    · rw [ofLog_concat, List.filterMap_append, ← ih]
      exact (List.append_nil _).symm
    · rw [ofLog_concat, List.filterMap_append, ← ih]
      exact List.map_append

end Batches

end EventStream
