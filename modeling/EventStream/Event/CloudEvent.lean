import EventStream.Event.IngestError
import EventStream.Text.Blank

namespace EventStream

structure CloudEvent where
  id : Option String
  topic : Option String
  pubsubname : Option String
  datacontenttype : Option String
  data : Option Json
  dataBase64 : Option String

namespace CloudEvent

/-- What stands in a place of an envelope. -/
inductive Field where
  | text (s : Option String)
  | data (j : Json)
  | unread

def textOrNull : Json.Reader (Option String) := fun b =>
  match b with
  | 0x6E :: _ => (Json.scalar b).map fun (_, r) => (none, r)
  | _ => (Json.quotedText b).map fun (s, r) => (some s, r)

/-- The places, in the order in which an array gives them. -/
def fieldNames : List String :=
  ["id", "topic", "pubsubname", "datacontenttype", "data", "data_base64"]

/-- Data lie one level deeper than the envelope; what has no place is skipped at any depth. -/
def field (fuel : Nat) (name : String) : Json.Reader Field := fun b =>
  if name = "data" then (Json.value fuel (Json.depthLimit - 1) b).map fun (j, r) => (.data j, r)
  else if fieldNames.contains name then (textOrNull b).map fun (s, r) => (.text s, r)
  else (Json.skipped.nested fuel fuel b).map fun (_, r) => (.unread, r)

/-- Fields of an array, after its opening bracket or a comma. -/
def fieldsInPlace (fuel : Nat) (done : List (String × Field)) :
    List String → Json.Reader (List (String × Field))
  | [], _ => none
  | name :: names, b =>
    match field fuel name (Json.skipSpace b) with
    | none => none
    | some (x, r) =>
      match Json.skipSpace r with
      | 0x2C :: r => fieldsInPlace fuel ((name, x) :: done) names r
      | 0x5D :: r => some (((name, x) :: done).reverse, r)
      | _ => none

/-- An object by names, or an array by places. -/
def fields (fuel : Nat) : Json.Reader (List (String × Field))
  | 0x7B :: r => Json.members Json.quotedText (field fuel) fuel r
  | 0x5B :: r =>
    match Json.skipSpace r with
    | 0x5D :: r => some ([], r)
    | r => fieldsInPlace fuel [] fieldNames r
  | _ => none

def textAt (fields : List (String × Field)) (name : String) : Option String :=
  match lookup? fields name with
  | some (.text s) => s
  | _ => none

/-- Null is as good as nothing. -/
def dataAt (fields : List (String × Field)) : Option Json :=
  match lookup? fields "data" with
  | some (.data .null) => none
  | some (.data j) => some j
  | _ => none

def ofFields (fields : List (String × Field)) : CloudEvent where
  id := textAt fields "id"
  topic := textAt fields "topic"
  pubsubname := textAt fields "pubsubname"
  datacontenttype := textAt fields "datacontenttype"
  data := dataAt fields
  dataBase64 := textAt fields "data_base64"

/-- No place is filled twice. -/
def placesOnce (fields : List (String × Field)) : Bool :=
  fieldNames.all fun name => (fields.map Prod.fst).count name ≤ 1

def parse (body : Bytes) : Except IngestError CloudEvent :=
  match Json.whole (fields (body.length + 1)) body with
  | some fs => if placesOnce fs then .ok (ofFields fs) else .error .invalidEnvelope
  | none => .error .invalidEnvelope

/-- A string is taken for the text of the payload; without data the payload is in base 64. -/
def payload (e : CloudEvent) : Except IngestError Bytes :=
  match e.data, e.dataBase64 with
  | some (.string s), _ => .ok (Bytes.ofString s)
  | some j, _ => .ok j.write
  | none, some s => (Base64.decode (Bytes.ofString (trimmed s))).mapError .invalidBase64
  | none, none => .error .missingData

end CloudEvent

end EventStream
