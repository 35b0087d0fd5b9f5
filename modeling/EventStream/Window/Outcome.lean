import EventStream.Payload

namespace EventStream

/-- Why a window yields nothing. -/
inductive EmptyWindow where
  /-- A topic has no event that could be joined. -/
  | emptyBucket (topic : String)
  | noMatches (candidates : Nat)

def EmptyWindow.message : EmptyWindow → String
  | .emptyBucket t => "topic '" ++ t ++ "' has no events in this window"
  | .noMatches n => "no pairs matched out of " ++ n.repr ++ " candidates"

structure JoinOutput where
  payload : Envelope
  /-- Pairs that have an entry in the payload. -/
  matched : Nat
  candidates : Nat
  /-- Events and pairs that failed. -/
  errors : Nat

end EventStream
