import EventStream.Pipeline.Settle
import EventStream.Proofs.Traversal
/-!
Runs of a pipeline: its processor, its router, the deliveries and the clock take their steps in any
order. At every point of a run each event and each payload is in one place.
-/
namespace EventStream.Pipeline

/-- What happens in a step; a processor that reacts is told as it was before. -/
inductive Label (π : Type) where
  | accepted (e : Event)
  | received (before : π) (e : Event) (now : Instant)
  | closed (before : π)
  | sent
  | dispatched (payload : Envelope)
  | inputClosed
  | finished (before : π)
  | shutDown

variable {π σ : Type}

/-- One step of any of the tasks. Nothing is delivered after the input has been closed. -/
inductive Step [Stage π] (router : Router σ) : Pipeline π σ → Label π → Pipeline π σ → Prop
  | accept {p q e} : p.fed = true → p.accept? e = some q → Step router p (.accepted e) q
  | receive {p q e now} : p.input.items.head? = some e → p.receive? now = some q →
      Step router p (.received p.processor e now) q
  | close {p q} : p.close? = some q → Step router p (.closed p.processor) q
  | send {p q} : p.send? = some q → Step router p .sent q
  | dispatch {p q payload} : p.output.items.head? = some payload →
      p.dispatch? router = some q → Step router p (.dispatched payload) q
  | closeInput {p} : p.fed = true → Step router p .inputClosed p.closeInput
  | finish {p q} : p.finish? = some q → Step router p (.finished p.processor) q
  | shutdown {p q} : p.shutdown? = some q → Step router p .shutDown q

/-- States that are reached by steps one after another. -/
inductive Reaches [Stage π] (router : Router σ) (first : Pipeline π σ) :
    List (Label π) → Pipeline π σ → Prop
  | start : Reaches router first [] first
  | next {trace p l q} : Reaches router first trace p → Step router p l q →
      Reaches router first (trace ++ [l]) q

/-- No delivery can come, and no task can take a step by itself. -/
def Final [Stage π] (router : Router σ) (p : Pipeline π σ) : Prop :=
  p.fed = false ∧ ∀ now, p.step? (some router) now = none

namespace Label

@[simp]
def accepted? : Label π → Option Event
  | .accepted e => some e
  | _ => none

@[simp]
def received? : Label π → Option (Event × Instant)
  | .received _ e now => some (e, now)
  | _ => none

@[simp]
def dispatched? : Label π → Option Envelope
  | .dispatched payload => some payload
  | _ => none

@[simp]
def closed? : Label π → Option π
  | .closed before => some before
  | _ => none

/-- What the processor has to send after the step. -/
@[simp]
def emitted? [Stage π] : Label π → Option Envelope
  | .received before e now => (Stage.receive before e now).payload
  | .closed before => (Stage.close before).payload
  | _ => none

end Label

def accepted (trace : List (Label π)) : List Event :=
  trace.filterMap Label.accepted?

def received (trace : List (Label π)) : List (Event × Instant) :=
  trace.filterMap Label.received?

def dispatched (trace : List (Label π)) : List Envelope :=
  trace.filterMap Label.dispatched?

/-- The processor at the ends of windows. -/
def closed (trace : List (Label π)) : List π :=
  trace.filterMap Label.closed?

def emitted [Stage π] (trace : List (Label π)) : List Envelope :=
  trace.filterMap Label.emitted?

section
variable (trace : List (Label π)) (l : Label π)

@[simp]
theorem accepted_append : accepted (trace ++ [l]) = accepted trace ++ l.accepted?.toList :=
  filterMap_append_singleton _ _ _

@[simp]
theorem received_append : received (trace ++ [l]) = received trace ++ l.received?.toList :=
  filterMap_append_singleton _ _ _

@[simp]
theorem dispatched_append :
    dispatched (trace ++ [l]) = dispatched trace ++ l.dispatched?.toList :=
  filterMap_append_singleton _ _ _

@[simp]
theorem closed_append : closed (trace ++ [l]) = closed trace ++ l.closed?.toList :=
  filterMap_append_singleton _ _ _

@[simp]
theorem emitted_append [Stage π] :
    emitted (trace ++ [l]) = emitted trace ++ l.emitted?.toList :=
  filterMap_append_singleton _ _ _

end

section
variable {p q : Pipeline π σ} {router : Router σ} {e : Event} {now : Instant}

theorem isReady_iff : p.isReady = true ↔ p.isRunning = true ∧ p.waiting = none := by
  simp [isReady]

theorem accept?_eq_some (h : p.accept? e = some q) :
    p.isRunning = true ∧
      q = { p with input := { p.input with items := p.input.items ++ [e] } } := by
  unfold accept? at h
  split at h
  next input hi =>
    obtain ⟨ho, _, rfl⟩ := Queue.push_eq_ok.mp hi
    exact ⟨ho, (Option.some.inj h).symm⟩
  next => cases h

/-- What is measured stands apart. -/
theorem receive?_eq_some [Stage π] (h : p.receive? now = some q) :
    p.isReady = true ∧ ∃ e rest metrics, p.input.items = e :: rest ∧
      q = { p with
        processor := (Stage.receive p.processor e now).next
        input := { p.input with items := rest }
        waiting := (Stage.receive p.processor e now).payload
        metrics := metrics } := by
  unfold receive? at h
  split at h
  next hr =>
    obtain ⟨⟨e, input⟩, hp, rfl⟩ := Option.map_eq_some_iff.mp h
    obtain ⟨rest, hi, rfl⟩ := Queue.pop?_eq_some.mp hp
    exact ⟨hr, e, rest, _, hi, rfl⟩
  next => cases h

theorem close?_eq_some [Stage π] (h : p.close? = some q) :
    p.isReady = true ∧ ∃ metrics, q = { p with
      processor := (Stage.close p.processor).next
      waiting := (Stage.close p.processor).payload
      metrics := metrics } := by
  unfold close? at h
  split at h
  next hr => exact ⟨hr, _, (Option.some.inj h).symm⟩
  next => cases h

theorem send?_eq_some [Stage π] (h : p.send? = some q) :
    ∃ payload, p.waiting = some payload ∧
      ((∃ output, p.output.push payload = .ok output ∧
          q = { p with output := output, waiting := none }) ∨
        p.output.push payload = .error .closed ∧ q = p.stop) := by
  unfold send? at h
  split at h
  next => cases h
  next payload hw =>
    refine ⟨payload, hw, ?_⟩
    split at h
    next output hp => exact .inl ⟨output, hp, (Option.some.inj h).symm⟩
    next => cases h
    next hp => exact .inr ⟨hp, (Option.some.inj h).symm⟩

theorem send?_eq_some_of_isOpen [Stage π] (ho : p.output.isOpen = true) (h : p.send? = some q) :
    ∃ payload, p.waiting = some payload ∧ q = { p with
      output := { p.output with items := p.output.items ++ [payload] }
      waiting := none } := by
  obtain ⟨payload, hw, ⟨output, hp, rfl⟩ | ⟨hp, _⟩⟩ := send?_eq_some h
  · obtain ⟨_, _, rfl⟩ := Queue.push_eq_ok.mp hp
    exact ⟨payload, hw, rfl⟩
  · exact absurd hp (Queue.push_ne_closed ho)

theorem dispatch?_eq_some (h : p.dispatch? router = some q) :
    ∃ payload rest metrics, p.output.items = payload :: rest ∧ q = { p with
      output := { p.output with items := rest }
      transport := (router.route p.transport payload).2
      metrics := metrics } := by
  obtain ⟨⟨payload, output⟩, hp, rfl⟩ := Option.map_eq_some_iff.mp h
  obtain ⟨rest, hi, rfl⟩ := Queue.pop?_eq_some.mp hp
  exact ⟨payload, rest, _, hi, rfl⟩

theorem finish?_eq_some [Stage π] (h : p.finish? = some q) :
    p.isReady = true ∧ p.input.items = [] ∧ p.fed = false ∧ q = p.stop := by
  unfold finish? at h
  split at h
  next hf =>
    obtain ⟨hr, hi, hf⟩ := hf
    exact ⟨hr, List.isEmpty_iff.mp hi, by simpa using hf, (Option.some.inj h).symm⟩
  next => cases h

theorem shutdown?_eq_some [Stage π] (h : p.shutdown? = some q) :
    p.isRunning = true ∧ q = p.stop := by
  unfold shutdown? at h
  split at h
  next hr => exact ⟨hr, (Option.some.inj h).symm⟩
  next => cases h

theorem Step.of_received [Stage π] {before : π}
    (h : Step router p (.received before e now) q) :
    before = p.processor ∧ q.processor = (Stage.receive before e now).next ∧
      p.isRunning = true ∧ q.isRunning = true := by
  cases h with
  | receive hi h =>
    obtain ⟨hready, first, rest, _, hitems, rfl⟩ := receive?_eq_some h
    have hr : p.isRunning = true := (isReady_iff.mp hready).1
    rw [hitems] at hi
    obtain rfl := Option.some.inj hi
    exact ⟨rfl, rfl, hr, hr⟩

theorem Step.of_closed [Stage π] {before : π} (h : Step router p (.closed before) q) :
    before = p.processor ∧ q.processor = (Stage.close before).next ∧
      p.isRunning = true ∧ q.isRunning = true := by
  cases h with
  | close h =>
    obtain ⟨hready, _, rfl⟩ := close?_eq_some h
    have hr : p.isRunning = true := (isReady_iff.mp hready).1
    exact ⟨rfl, rfl, hr, hr⟩

theorem Step.of_finished [Stage π] {before : π} (h : Step router p (.finished before) q) :
    before = p.processor ∧ p.isRunning = true ∧ q = p.stop := by
  cases h with
  | finish h =>
    obtain ⟨hr, _, _, rfl⟩ := finish?_eq_some h
    exact ⟨rfl, (isReady_iff.mp hr).1, rfl⟩

/-- The processor changes in its reactions and at the end of its run only. -/
theorem Step.processor_cases [Stage π] {l : Label π} (h : Step router p l q)
    (hr : l.received? = none) (hc : l.closed? = none) :
    (q.processor = p.processor ∧ q.isRunning = p.isRunning) ∨
      (q.processor = Stage.finish p.processor ∧ q.isRunning = false) := by
  cases h with
  | accept _ h =>
    obtain ⟨_, rfl⟩ := accept?_eq_some h
    exact .inl ⟨rfl, rfl⟩
  | receive => cases hr
  | close => cases hc
  | send h =>
    obtain ⟨_, _, ⟨_, _, rfl⟩ | ⟨_, rfl⟩⟩ := send?_eq_some h
    · exact .inl ⟨rfl, rfl⟩
    · exact .inr ⟨rfl, rfl⟩
  | dispatch _ h =>
    obtain ⟨_, _, _, _, rfl⟩ := dispatch?_eq_some h
    exact .inl ⟨rfl, rfl⟩
  | closeInput => exact .inl ⟨rfl, rfl⟩
  | finish h =>
    obtain ⟨_, _, _, rfl⟩ := finish?_eq_some h
    exact .inr ⟨rfl, rfl⟩
  | shutdown h =>
    obtain ⟨_, rfl⟩ := shutdown?_eq_some h
    exact .inr ⟨rfl, rfl⟩

theorem send?_of_push [Stage π] {payload : Envelope} {output : Queue Envelope}
    (hw : p.waiting = some payload) (ho : p.output.push payload = .ok output) :
    p.send? = some { p with output := output, waiting := none } := by
  unfold send?
  simp only [hw, ho]

theorem dispatch?_eq_none : p.dispatch? router = none ↔ p.output.items = [] :=
  Option.map_eq_none_iff.trans Queue.pop?_eq_none

theorem receive?_eq_none [Stage π] (hr : p.isReady = true) :
    p.receive? now = none ↔ p.input.items = [] := by
  unfold receive?
  rw [if_pos hr, Option.map_eq_none_iff, Queue.pop?_eq_none]

theorem send?_eq_none [Stage π] (ho : p.output.isOpen = true) (hs : p.output.size < p.output.capacity)
    (h : p.send? = none) : p.waiting = none := by
  cases hw : p.waiting with
  | none => rfl
  | some payload =>
    rw [send?_of_push hw (Queue.push_eq_ok.mpr ⟨ho, hs, rfl⟩)] at h
    cases h

theorem finish?_eq_none [Stage π] (hi : p.input.items = []) (hf : p.fed = false) (h : p.finish? = none) :
    p.isReady = false := by
  unfold finish? at h
  simpa [hi, hf] using h

theorem step?_eq_none [Stage π] :
    p.step? (some router) now = none ↔
      p.dispatch? router = none ∧ p.send? = none ∧ p.receive? now = none ∧ p.finish? = none := by
  simp only [step?, Option.bind_some, Option.or_eq_none_iff]

end

end EventStream.Pipeline
