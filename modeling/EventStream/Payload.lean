import EventStream.Event.Basic
import EventStream.Json.Writer

namespace EventStream

/-- An array of items that are JSON texts already. -/
def jsonArray (items : List Bytes) : Bytes :=
  0x5B :: Json.commaSeparated items ++ [0x5D]

/-- An object with two entries, whose values are JSON texts already. -/
def pairObject (firstKey : String) (first : Bytes) (secondKey : String) (second : Bytes) : Bytes :=
  0x7B :: Json.commaSeparated
    [Json.quoted firstKey ++ 0x3A :: first, Json.quoted secondKey ++ 0x3A :: second] ++ [0x7D]

/-- A payload on its way out. -/
structure Envelope where
  body : Bytes

namespace Envelope

def contentType (_ : Envelope) : String :=
  jsonType

def size (e : Envelope) : Nat :=
  e.body.length

def isEmpty (e : Envelope) : Bool :=
  e.body.isEmpty

end Envelope

end EventStream
