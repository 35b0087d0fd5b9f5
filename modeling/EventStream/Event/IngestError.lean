import EventStream.Event.Basic
import EventStream.Queue
import EventStream.Text.Base64

namespace EventStream

inductive IngestError where
  | unsupportedType (contentType : String)
  | invalidEnvelope
  | missingData
  | invalidBase64 (e : Base64.DecodeError)
  | payload (e : EventError)
  | queue (e : QueueError)

namespace IngestError

def message : IngestError → String
  | .unsupportedType t => "unsupported event type: " ++ t
  | .invalidEnvelope => "invalid cloudevent envelope: *"
  | .missingData => "cloudevent has no data"
  | .invalidBase64 e => "invalid data_base64: " ++ e.message
  | .payload e => "invalid payload: " ++ e.message
  | .queue e => e.message

/-- Whether the same delivery may succeed later. -/
def isRetryable : IngestError → Bool
  | .queue _ => true
  | _ => false

/-- The label under which the loss is counted. -/
def reason : IngestError → String
  | .unsupportedType _ => "unsupported_type"
  | .invalidEnvelope | .missingData | .invalidBase64 _ | .payload _ => "invalid_payload"
  | .queue .full => "queue_full"
  | .queue .closed => "closed"

end IngestError

end EventStream
