import EventStream.Double.Rounding
import EventStream.Entries
/-!
JSON data. An object that was read has its entries sorted by key, each key once.
-/
namespace EventStream

inductive Json where
  | null
  | bool (b : Bool)
  | integer (n : Int)
  | double (d : Double)
  | string (s : String)
  | array (items : List Json)
  | object (entries : List (String × Json))

namespace Json

def kind : Json → String
  | .null => "null"
  | .bool _ => "bool"
  | .integer _ | .double _ => "number"
  | .string _ => "string"
  | .array _ => "array"
  | .object _ => "object"

def ofEntries (entries : List (String × Json)) : Json :=
  .object (sortedEntries entries)

end Json

end EventStream
