import EventStream.Channel.Basic
import EventStream.Window.Joiner

namespace EventStream

/-- What a processor becomes, what it sends, and what is counted. -/
structure Reaction (π : Type) where
  next : π
  payload : Option Envelope
  measured : List Measurement

/-- Processors as a pipeline sees them. -/
class Stage (π : Type) where
  receive : π → Event → Instant → Reaction π
  close : π → Reaction π
  /-- What is left of a processor when its run ends. -/
  finish : π → π

/-- An event that fails is dropped, and leaves the channel as it was. -/
def Channel.react (c : Channel) (e : Event) (now : Instant) : Reaction Channel :=
  match c.process e now with
  | .ok (.emit payload, c) => ⟨c, some payload, []⟩
  | .ok (.filtered, c) => ⟨c, none, [.dropped "filtered" 1]⟩
  | .ok (.held, c) => ⟨c, none, []⟩
  | .error e => ⟨c, none, [.dropped e.reason 1]⟩

/-- A channel has no windows; payloads that wait at its gate stay there when its run ends. -/
instance : Stage Channel where
  receive := Channel.react
  close c := ⟨c, none, []⟩
  finish c := c

def Joiner.closeWindow (j : Joiner) : Reaction Joiner :=
  let (joined, next) := j.close
  ⟨next, joined.payload?, joined.measured⟩

instance : Stage Joiner where
  receive j e _ := ⟨j.append e, none, []⟩
  close := Joiner.closeWindow
  finish := Joiner.discard

end EventStream
