import EventStream.Proofs.Pipeline.Progress
import EventStream.Service

namespace EventStream

/-- What happens to a service: a request comes, or one of its tasks takes a step. -/
inductive Happening (π : Type) where
  | request (r : Request)
  | step (l : Pipeline.Label π)

namespace Service

variable {π σ : Type} [Stage π]

/-- States of a service that is fed by its requests alone; they and the tasks come in any order. -/
inductive Reaches (first : Service π σ) : List (Happening π) → Service π σ → Prop
  | start : Reaches first [] first
  | request {trace s} (r : Request) : Reaches first trace s →
      Reaches first (trace ++ [.request r]) (s.handle r).2
  | step {trace s l q} : Reaches first trace s → Pipeline.Step s.router s.pipeline l q →
      l.accepted? = none → Reaches first (trace ++ [.step l]) (s.update fun _ => q)

end Service

namespace Pipeline

variable {π σ : Type} [Stage π] {router : Router σ} {p q : Pipeline π σ} {l : Label π}

/-- Only a delivery adds to the input. -/
theorem Step.input_subset (h : Step router p l q) (hl : l.accepted? = none) :
    q.input.items ⊆ p.input.items := by
  cases h with
  | accept => cases hl
  | receive _ h =>
    obtain ⟨_, _, _, _, hitems, rfl⟩ := receive?_eq_some h
    rw [hitems]
    exact List.subset_cons_self _ _
  | close h =>
    obtain ⟨_, _, rfl⟩ := close?_eq_some h
    exact List.Subset.refl _
  | send h =>
    obtain ⟨_, _, ⟨_, _, rfl⟩ | ⟨_, rfl⟩⟩ := send?_eq_some h
    · exact List.Subset.refl _
    · exact List.nil_subset _
  | dispatch _ h =>
    obtain ⟨_, _, _, _, rfl⟩ := dispatch?_eq_some h
    exact List.Subset.refl _
  | closeInput => exact List.Subset.refl _
  | finish h =>
    obtain ⟨_, _, _, rfl⟩ := finish?_eq_some h
    exact List.nil_subset _
  | shutdown h =>
    obtain ⟨_, rfl⟩ := shutdown?_eq_some h
    exact List.nil_subset _

theorem Step.mem_of_received {before : π} {e : Event} {now : Instant}
    (h : Step router p (.received before e now) q) : e ∈ p.input.items := by
  cases h with
  | receive hi _ => exact List.mem_of_head? hi

end Pipeline

namespace Service

variable {π σ : Type} [Stage π] {first s : Service π σ} {p q : Pipeline π σ}
  {l : Pipeline.Label π} {router : Router σ} {trace : List (Happening π)}

theorem Reaches.server_eq (h : Reaches first trace s) : s.server = first.server := by
  induction h with
  | start => rfl
  | request r _ ih => exact ih
  | step _ _ _ ih => exact ih

/-- A state of a pipeline that a service comes to. -/
def Attains (first : Service π σ) (p : Pipeline π σ) : Prop :=
  ∃ trace s, first.Reaches trace s ∧ s.pipeline = p

theorem Reaches.router_eq (h : Reaches first trace s) :
    s.router = first.router := by
  induction h with
  | start => rfl
  | request r _ ih => exact ih
  | step _ _ _ ih => exact ih

theorem Attains.step (h : Attains first p) (hs : Pipeline.Step first.router p l q)
    (hl : l.accepted? = none) : Attains first q := by
  obtain ⟨trace, s, hr, rfl⟩ := h
  exact ⟨_, _, hr.step (hr.router_eq ▸ hs) hl, rfl⟩

theorem Attains.request (h : Attains first s.pipeline) (hs : s.server = first.server)
    (r : Request) : Attains first (s.handle r).2.pipeline := by
  obtain ⟨trace, t, hr, ht⟩ := h
  refine ⟨_, _, hr.request r, ?_⟩
  have hhandled : ∀ s : Service π σ, (s.handle r).2.pipeline = { s.pipeline with
      input := (s.server.handle s.pipeline.input r).queue
      metrics := s.pipeline.metrics.recordAll
        (s.server.handle s.pipeline.input r).measured } := fun _ => rfl
  rw [hhandled, hhandled, hr.server_eq, hs, ht]

theorem step_of_step? {now : Instant} (h : p.step? (some router) now = some q) :
    ∃ l, Pipeline.Step router p l q ∧ l.accepted? = none := by
  rcases Pipeline.step?_eq_some h with hdispatch | hsend | hreceive | hfinish
  · obtain ⟨payload, _, _, hi, _⟩ := Pipeline.dispatch?_eq_some hdispatch
    exact ⟨.dispatched payload, .dispatch (by rw [hi]; rfl) hdispatch, rfl⟩
  · exact ⟨.sent, .send hsend, rfl⟩
  · obtain ⟨_, e, _, _, hi, _⟩ := Pipeline.receive?_eq_some hreceive
    exact ⟨.received p.processor e now, .receive (by rw [hi]; rfl) hreceive, rfl⟩
  · exact ⟨.finished p.processor, .finish hfinish, rfl⟩

theorem Attains.settleFor (h : Attains first p) (now : Instant) (n : Nat) :
    Attains first (p.settleFor (some first.router) now n) := by
  induction n generalizing p with
  | zero => exact h
  | succ n ih =>
    unfold Pipeline.settleFor
    split
    next hs =>
      obtain ⟨l, hs, hl⟩ := step_of_step? hs
      exact ih (h.step hs hl)
    next => exact h

theorem Attains.advanceFor {t : Timeline π σ} (h : Attains first t.pipeline) (limit : Instant)
    (n : Nat) (schedule : Schedule) :
    Attains first (Timeline.advanceFor (some first.router) limit n schedule t).pipeline := by
  induction n generalizing t schedule with
  | zero => exact h
  | succ n ih =>
    unfold Timeline.advanceFor
    split
    next => exact h
    next closed hc =>
      split
      next =>
        have hclosed : Attains first closed := h.step (.close hc) rfl
        exact ih (hclosed.settleFor 0 _) _
      next => exact h

theorem Attains.advance (h : Attains first s.pipeline) (hr : s.router = first.router)
    (duration : Nat) : Attains first (s.advance false duration).pipeline := by
  have hsettled := h.settleFor 0 s.pipeline.work
  unfold Service.advance Timeline.advance
  simp only [Bool.false_eq_true, if_false, hr]
  split
  next => exact hsettled
  next schedule _ =>
    exact Attains.advanceFor (t := { s.timeline with
      pipeline := s.pipeline.settle (some first.router) 0 }) hsettled _ _ schedule

/-- Requests that are served one after another lead to a state of a run. -/
theorem Attains.serve (h : Attains first s.pipeline) (hs : s.server = first.server)
    (hr : s.router = first.router) (requests : List Request) :
    Attains first (s.serve requests).2.pipeline := by
  induction requests generalizing s with
  | nil => exact h
  | cons r rest ih => exact ih ((h.request hs r).advance hr 0) hs hr

theorem attains_serve (s : Service π σ) (requests : List Request) :
    Attains s (s.serve requests).2.pipeline :=
  Attains.serve ⟨[], s, .start, rfl⟩ rfl rfl requests

end Service

end EventStream
