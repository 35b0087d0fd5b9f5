import EventStream.Event.CloudEvent

namespace EventStream

/-- A content type without its parameters, in small letters. -/
def mediaType (contentType : String) : String :=
  String.ofList ((trim (contentType.toList.takeWhile (· ≠ ';'))).map Char.toLower)

namespace Event

/-- An envelope gives its payload and its name, if that is not empty; the topic is never taken from
it. -/
def ofEnvelope (topic : String) (body : Bytes) : Except IngestError Event := do
  let envelope ← CloudEvent.parse body
  let payload ← envelope.payload
  .ok ⟨envelope.id.filter fun id => !id.isEmpty, topic, jsonType, payload⟩

def ofBody (topic contentType : String) (body : Bytes) : Except IngestError Event :=
  if mediaType contentType = jsonType then .ok ⟨none, topic, jsonType, body⟩
  else if mediaType contentType = cloudEventsType then ofEnvelope topic body
  else .error (.unsupportedType contentType)

/-- The event of a delivery, if its payload is an object. -/
def decode (topic contentType : String) (body : Bytes) : Except IngestError Event := do
  let event ← ofBody topic contentType body
  match event.entries with
  | .ok _ => .ok event
  | .error e => .error (.payload e)

end Event

end EventStream
