import EventStream.Output.Router
import EventStream.Processor.Stage
import EventStream.Queue

namespace EventStream

/-- A processor between two queues: deliveries fill the first, and a router empties the second. A
step has no result where it cannot be taken. -/
structure Pipeline (π σ : Type) where
  processor : π
  /-- Open as long as the processor runs. -/
  input : Queue Event
  /-- Whether deliveries may still come. -/
  fed : Bool
  /-- A payload that has to go out before the processor goes on. -/
  waiting : Option Envelope
  output : Queue Envelope
  /-- The state of the transport. -/
  transport : σ
  metrics : Metrics

namespace Pipeline

variable {π σ : Type}

def start (processor : π) (inputCapacity outputCapacity : Nat) (transport : σ) : Pipeline π σ :=
  ⟨processor, .empty inputCapacity, true, none, .empty outputCapacity, transport, .empty⟩

def isRunning (p : Pipeline π σ) : Bool :=
  p.input.isOpen

/-- Whether the processor has nothing to send before it goes on. -/
def isReady (p : Pipeline π σ) : Bool :=
  p.isRunning && p.waiting.isNone

/-- The run of the processor ends; events and payloads that it had not finished with are lost. -/
def stop [Stage π] (p : Pipeline π σ) : Pipeline π σ :=
  { p with
    processor := Stage.finish p.processor
    input := p.input.close
    waiting := none }

def become (p : Pipeline π σ) (r : Reaction π) : Pipeline π σ :=
  { p with
    processor := r.next
    waiting := r.payload
    metrics := p.metrics.recordAll r.measured }

/-- An event enters. -/
def accept? (p : Pipeline π σ) (e : Event) : Option (Pipeline π σ) :=
  match p.input.push e with
  | .ok input => some { p with input := input }
  | .error _ => none

/-- The processor takes the next event. -/
def receive? [Stage π] (p : Pipeline π σ) (now : Instant) : Option (Pipeline π σ) :=
  if p.isReady then
    p.input.pop?.map fun (e, input) =>
      let p := { p with input := input, metrics := p.metrics.record (.queueDepth input.size) }
      p.become (Stage.receive p.processor e now)
  else none

/-- A window closes. -/
def close? [Stage π] (p : Pipeline π σ) : Option (Pipeline π σ) :=
  if p.isReady then some (p.become (Stage.close p.processor)) else none

/-- The waiting payload goes out; if nobody takes it the processor stops. -/
def send? [Stage π] (p : Pipeline π σ) : Option (Pipeline π σ) :=
  match p.waiting with
  | none => none
  | some payload =>
    match p.output.push payload with
    | .ok output => some { p with output := output, waiting := none }
    | .error .full => none
    | .error .closed => some p.stop

/-- The processor stops when no event is left and none can come. -/
def finish? [Stage π] (p : Pipeline π σ) : Option (Pipeline π σ) :=
  if p.isReady ∧ p.input.items.isEmpty ∧ !p.fed then some p.stop else none

/-- The router takes the next payload. -/
def dispatch? (p : Pipeline π σ) (router : Router σ) : Option (Pipeline π σ) :=
  p.output.pop?.map fun (payload, output) =>
    let (report, transport) := router.route p.transport payload
    { p with
      output := output
      transport := transport
      metrics := p.metrics.recordAll report.measured }

/-- The processor is told to stop. -/
def shutdown? [Stage π] (p : Pipeline π σ) : Option (Pipeline π σ) :=
  if p.isRunning then some p.stop else none

/-- No more deliveries come. -/
def closeInput (p : Pipeline π σ) : Pipeline π σ :=
  { p with fed := false }

/-- Nobody takes payloads any more. -/
def closeOutput (p : Pipeline π σ) : Pipeline π σ :=
  { p with output := p.output.close }

/-- One payload is taken by hand. -/
def take? (p : Pipeline π σ) : Option (Envelope × Pipeline π σ) :=
  p.output.pop?.map fun (payload, output) => (payload, { p with output := output })

end Pipeline

end EventStream
