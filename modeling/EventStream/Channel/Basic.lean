import EventStream.Channel.Gate
import EventStream.Config.Channel

namespace EventStream

/-- A channel filters the events of one stream, selects a payload from each, and lets payloads out
one by one or in batches. -/
structure Channel where
  /-- The variable that holds the event. -/
  binding : String
  filter : Option Program
  select : Option Program
  gate : Option Gate

/-- What becomes of an event. -/
inductive Outcome where
  | emit (payload : Envelope)
  | filtered
  | held

namespace Channel

/-- A trigger counts in aggregate mode only. -/
def ofConfig (c : ChannelConfig) : Except ProcessorError Channel := do
  let filter ← Role.filter.compile [c.binding] c.filter
  let select ← Role.select.compile [c.binding] c.select
  let gate ← match c.mode with
    | .stream => .ok none
    | .aggregate =>
      (Role.trigger.compile ["trigger"] c.trigger).map fun trigger => some (Gate.ofTrigger trigger)
  .ok ⟨c.binding, filter, select, gate⟩

def bindings (c : Channel) (v : Value) : Bindings :=
  Bindings.empty.insert c.binding v

/-- Without a filter the payload is not even read. -/
def shouldCollect (c : Channel) (e : Event) : Except ProcessorError Bool :=
  match c.filter with
  | none => .ok true
  | some filter => do
    let v ← e.value.mapError .event
    filter.holds (c.bindings v)

/-- What is selected from an event, or its payload as it came. -/
def collect (c : Channel) (e : Event) : Except ProcessorError Bytes := do
  let v ← e.value.mapError .event
  match c.select with
  | none => .ok e.payload
  | some select => select.selected (c.bindings v)

/-- The gate is the only thing that an event changes. -/
def pass (c : Channel) (payload : Bytes) (now : Instant) :
    Except ProcessorError (Option Bytes × Channel) :=
  match c.gate with
  | none => .ok (some payload, c)
  | some gate => (gate.offer payload now).map fun (out, gate) => (out, { c with gate := some gate })

def process (c : Channel) (e : Event) (now : Instant) :
    Except ProcessorError (Outcome × Channel) := do
  if ← c.shouldCollect e then
    let payload ← c.collect e
    let (out, c) ← c.pass payload now
    .ok (match out with
      | some body => .emit ⟨body⟩
      | none => .held, c)
  else .ok (.filtered, c)

/-- How many payloads wait. -/
def pending (c : Channel) : Nat :=
  (c.gate.map fun g => g.pending.length).getD 0

end Channel

end EventStream
