import EventStream.Proofs.Channel.Steps
import Mathlib

namespace EventStream

/-- A computation that does not fail by an event that is no object. -/
def NoEventError {α : Type} (x : Except ProcessorError α) : Prop :=
  ∀ e, x ≠ .error (.event e)

namespace NoEventError

variable {α β : Type} {x : Except ProcessorError α}

theorem ok (a : α) : NoEventError (.ok a) :=
  fun _ => nofun

theorem bind {f : α → Except ProcessorError β} (hx : NoEventError x)
    (hf : ∀ a, NoEventError (f a)) : NoEventError (x >>= f) := by
  intro e h
  rcases bind_eq_error.mp h with h | ⟨a, _, h⟩
  · exact hx e h
  · exact hf a e h

theorem map {f : α → β} (hx : NoEventError x) : NoEventError (x.map f) :=
  fun e h => hx e (map_eq_error.mp h)

theorem mapError {ε : Type} {f : ε → ProcessorError} {x : Except ε α}
    (hf : ∀ d e, f d ≠ .event e) : NoEventError (x.mapError f) := by
  intro e h
  obtain ⟨d, _, hd⟩ := mapError_eq_error.mp h
  exact hf d e hd

theorem valueOf (p : Program) (b : Bindings) : NoEventError (p.valueOf b) :=
  mapError fun _ _ => nofun

theorem holds (p : Program) (b : Bindings) : NoEventError (p.holds b) :=
  (valueOf p b).bind fun _ => mapError fun _ _ => nofun

theorem selected (p : Program) (b : Bindings) : NoEventError (p.selected b) :=
  (valueOf p b).bind fun _ => mapError fun _ _ => nofun

theorem offer (g : Gate) (payload : Bytes) (now : Instant) :
    NoEventError (g.offer payload now) := by
  cases ht : g.trigger with
  | none =>
    unfold Gate.offer
    rw [ht]
    exact ok _
  | some trigger =>
    rcases Gate.offer_cases ht payload now with ⟨_, h⟩ | ⟨_, h⟩ | ⟨_, _, h⟩ | ⟨_, _, _, h⟩
    · exact h ▸ ok _
    · exact h ▸ ok _
    · rw [h]
      exact fun _ => nofun
    · rw [h]
      exact fun _ => nofun

theorem pass (c : Channel) (payload : Bytes) (now : Instant) :
    NoEventError (c.pass payload now) := by
  unfold Channel.pass
  split
  next => exact ok _
  next gate _ => exact (offer gate payload now).map

end NoEventError

namespace Event

variable {e : Event}

theorem value_of_object {entries : List (String × Json)}
    (h : Json.parse? e.payload = some (.object entries)) :
    e.value = .ok (.ofJson (.object entries)) := by
  unfold value Event.entries
  rw [h]
  rfl

end Event

namespace Channel

variable {e : Event}

theorem shouldCollect_noEventError (c : Channel) (hv : ∃ v, e.value = .ok v) :
    NoEventError (c.shouldCollect e) := by
  obtain ⟨v, hv⟩ := hv
  unfold shouldCollect
  rw [hv]
  split
  next => exact .ok _
  next filter _ => exact .holds filter _

theorem collect_noEventError (c : Channel) (hv : ∃ v, e.value = .ok v) :
    NoEventError (c.collect e) := by
  obtain ⟨v, hv⟩ := hv
  unfold collect
  rw [hv]
  refine .bind (.ok v) fun v => ?_
  split
  next => exact .ok _
  next select _ => exact .selected select _

/-- A channel takes an object without complaint about it. -/
theorem process_noEventError (h : ∃ entries, Json.parse? e.payload = some (.object entries))
    (c : Channel) (now : Instant) : NoEventError (c.process e now) := by
  have hv : ∃ v, e.value = .ok v := h.elim fun _ h => ⟨_, Event.value_of_object h⟩
  refine (c.shouldCollect_noEventError hv).bind fun wanted => ?_
  cases wanted with
  | false => exact .ok _
  | true =>
    exact (c.collect_noEventError hv).bind fun payload =>
      (NoEventError.pass c payload now).bind fun _ => .ok _

end Channel

end EventStream
