import EventStream.Output.Router

namespace EventStream

/-- What one payload asks of a transport. -/
def Targets.calls (t : Targets) (payload : Envelope) : List Dispatch :=
  [.publish, .invoke].filterMap fun kind => (t.of kind).map (⟨kind, ·, payload⟩)

/-- Dispatches one after another, and how each of them ends. -/
def Transport.sendAll {σ : Type} (t : Transport σ) (s : σ) :
    List Dispatch → List (Except TransportError Unit) × σ
  | [] => ([], s)
  | d :: rest =>
    let (outcome, s) := t.send s d
    let (outcomes, s) := t.sendAll s rest
    (outcome :: outcomes, s)

variable {σ : Type}

theorem Transport.sendAll_append (t : Transport σ) (s : σ) (ds more : List Dispatch) :
    (t.sendAll s (ds ++ more)).2 = (t.sendAll (t.sendAll s ds).2 more).2 := by
  induction ds generalizing s with
  | nil => rfl
  | cons d ds ih => exact ih (t.send s d).2

namespace Router

/-- A payload is sent to each target that is set, and nothing else is sent. -/
theorem route_eq_sendAll (r : Router σ) (s : σ) (payload : Envelope) :
    (r.route s payload).2 = (r.transport.sendAll s (r.targets.calls payload)).2 := by
  obtain ⟨transport, stream, component⟩ := r
  cases stream <;> cases component <;> rfl

end Router

end EventStream
