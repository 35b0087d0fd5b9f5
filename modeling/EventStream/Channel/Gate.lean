import EventStream.Payload
import EventStream.Processor.Expression

namespace EventStream

/-- A point in time, in nanoseconds after some start. -/
abbrev Instant := Nat

/-- Payloads wait here until the trigger lets all of them out together. -/
structure Gate where
  /-- Without a trigger nothing waits. -/
  trigger : Option Program
  pending : List Bytes
  /-- When the first of the waiting payloads came. -/
  since : Option Instant

namespace Gate

def ofTrigger (trigger : Option Program) : Gate :=
  ⟨trigger, [], none⟩

def millisecond : Nat := 1000000

/-- Whole milliseconds, none if time went back. -/
def elapsed (since now : Instant) : Nat :=
  (now - since) / millisecond

/-- The largest integer stands for all beyond it. -/
def capped (n : Nat) : Value :=
  .int ((word? n).getD Int64.maxValue)

/-- What a trigger sees. -/
def state (count : Nat) (since now : Instant) : Value :=
  .map [("count", capped count), ("duration", capped (elapsed since now))]

def fires (trigger : Program) (count : Nat) (since now : Instant) : Except ProcessorError Bool :=
  trigger.holds (Bindings.empty.insert "trigger" (state count since now))

/-- The payload that goes out, if one does, and the gate after it. A payload for which the trigger
fails does not enter. -/
def offer (g : Gate) (payload : Bytes) (now : Instant) :
    Except ProcessorError (Option Bytes × Gate) :=
  match g.trigger with
  | none => .ok (some payload, g)
  | some trigger =>
    let since := g.since.getD now
    let pending := g.pending ++ [payload]
    match fires trigger (g.pending.length + 1) since now with
    | .error e => .error e
    | .ok true => .ok (some (jsonArray pending), { g with pending := [], since := none })
    | .ok false => .ok (none, { g with pending := pending, since := some since })

/-- Whether the trigger holds for what is waiting. -/
def shouldTrigger (g : Gate) (now : Instant) : Except ProcessorError Bool :=
  match g.trigger with
  | none => .ok true
  | some trigger => fires trigger g.pending.length (g.since.getD now) now

end Gate

end EventStream
