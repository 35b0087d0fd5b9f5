import EventStream.Metrics.Basic
import EventStream.Window.Join

namespace EventStream

/-- Events are gathered in a window and joined when it closes. -/
structure Joiner where
  engine : JoinEngine
  store : WindowStore

namespace Joiner

def ofConfig (c : JoinerConfig) : Except ProcessorError Joiner := do
  let engine ← JoinEngine.ofConfig c
  .ok ⟨engine, .ofTopics engine.topics⟩

def append (j : Joiner) (e : Event) : Joiner :=
  { j with store := j.store.append e }

/-- The window closes: its events are joined and dropped, whatever comes of them. -/
def close (j : Joiner) : Joined × Joiner :=
  let (joined, store) := j.store.flushWith j.engine.join
  (joined, { j with store := store })

/-- The open window is dropped, and nothing is joined. -/
def discard (j : Joiner) : Joiner :=
  { j with store := j.store.snapshotAndReset.2 }

end Joiner

namespace Joined

/-- The payload to send. -/
def payload? (r : Joined) : Option Envelope :=
  match r.result with
  | .ok out => some out.payload
  | .error _ => none

def measured (r : Joined) : List Measurement :=
  (r.dropped.map fun reason => .dropped reason 1) ++
    match r.result with
    | .ok out => [.windowClosed "emitted", .pairsMatched out.matched]
    | .error (.emptyBucket _) => [.windowClosed "empty"]
    | .error (.noMatches _) => [.windowClosed "no_match"]

end Joined

end EventStream
