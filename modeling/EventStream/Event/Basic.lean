import EventStream.Expr.Value
import EventStream.Json.Reader

namespace EventStream

def jsonType : String := "application/json"

def cloudEventsType : String := "application/cloudevents+json"

structure Event where
  /-- What the sender called it; an event without a name of its own gets one made up. -/
  id : Option String
  topic : String
  contentType : String
  payload : Bytes

/-- Why a payload is not an object. -/
inductive EventError where
  | invalidJson
  | notAnObject (kind : String)

/-- Where a text leaves the grammar is not told: a star stands for it. -/
def EventError.message : EventError → String
  | .invalidJson => "invalid JSON payload: *"
  | .notAnObject k => "payload must be a JSON object, got " ++ k

namespace Event

/-- The entries of the payload, which has to be an object. -/
def entries (e : Event) : Except EventError (List (String × Json)) :=
  match Json.parse? e.payload with
  | none => .error .invalidJson
  | some (.object entries) => .ok entries
  | some j => .error (.notAnObject j.kind)

/-- The payload as a value of expressions. -/
def value (e : Event) : Except EventError Value :=
  e.entries.map fun entries => Value.ofJson (.object entries)

end Event

end EventStream
