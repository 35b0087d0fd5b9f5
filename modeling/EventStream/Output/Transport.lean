import EventStream.Payload
import EventStream.Target

namespace EventStream

inductive TransportError where
  | init (reason : String)
  | publish (reason : String)
  | invoke (reason : String)
  | connection (reason : String)
  | rejected (status : Nat) (body : String)
  | notReady
  | shutdown (reason : String)

def TransportError.message : TransportError → String
  | .init r => "initialization failed: " ++ r
  | .publish r => "publish failed: " ++ r
  | .invoke r => "invoke failed: " ++ r
  | .connection r => "connection error: " ++ r
  | .rejected s b => "rejected with status " ++ s.repr ++ ": " ++ b
  | .notReady => "transport not ready"
  | .shutdown r => "shutdown error: " ++ r

inductive DispatchKind where
  /-- To everyone who listens to a topic. -/
  | publish
  /-- To one component. -/
  | invoke
  deriving DecidableEq

def DispatchKind.name : DispatchKind → String
  | .publish => "publish"
  | .invoke => "invoke"

/-- One payload for one target. -/
structure Dispatch where
  kind : DispatchKind
  target : Target
  payload : Envelope

/-- What becomes of a dispatch depends on what went before, which the state holds. -/
structure Transport (σ : Type) where
  name : String
  send : σ → Dispatch → Except TransportError Unit × σ

end EventStream
