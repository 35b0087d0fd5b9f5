import EventStream.Metrics.Basic
import EventStream.Output.Transport

namespace EventStream

def Targets.of (t : Targets) : DispatchKind → Option Target
  | .publish => t.stream
  | .invoke => t.component

/-- What became of a payload at each target that is set. -/
structure Report where
  published : Option (Except TransportError Unit)
  invoked : Option (Except TransportError Unit)

namespace Report

def isOk (r : Report) : Bool :=
  r.published.all Except.isOk && r.invoked.all Except.isOk

def measurement (kind : DispatchKind) (outcome : Except TransportError Unit) : Measurement :=
  .dispatched kind.name outcome.isOk ⟨0⟩

/-- One dispatch is counted for each target that is set; how long it took is left out. -/
def measured (r : Report) : List Measurement :=
  (r.published.map (measurement .publish)).toList ++ (r.invoked.map (measurement .invoke)).toList

end Report

/-- Each payload goes to every target that is set, whatever becomes of the other. -/
structure Router (σ : Type) where
  transport : Transport σ
  targets : Targets

namespace Router

variable {σ : Type}

def dispatch (r : Router σ) (kind : DispatchKind) (payload : Envelope) (s : σ) :
    Option (Except TransportError Unit) × σ :=
  match r.targets.of kind with
  | none => (none, s)
  | some target =>
    let (outcome, s) := r.transport.send s ⟨kind, target, payload⟩
    (some outcome, s)

def route (r : Router σ) (s : σ) (payload : Envelope) : Report × σ :=
  let (published, s) := r.dispatch .publish payload s
  let (invoked, s) := r.dispatch .invoke payload s
  (⟨published, invoked⟩, s)

/-- Payloads one after another. -/
def routeAll (r : Router σ) (s : σ) : List Envelope → List Report × σ
  | [] => ([], s)
  | payload :: rest =>
    let (report, s) := r.route s payload
    let (reports, s) := r.routeAll s rest
    (report :: reports, s)

end Router

end EventStream
