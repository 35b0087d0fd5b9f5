import EventStream.Double.Arithmetic
import EventStream.Entries
import EventStream.Json.Writer

namespace EventStream

inductive Value where
  | null
  | bool (b : Bool)
  | int (n : Int64)
  | double (d : Double)
  | string (s : String)
  | list (items : List Value)
  | map (entries : List (String × Value))

inductive ValueType where
  | null
  | bool
  | int
  | double
  | string
  | list
  | map
  deriving DecidableEq

def ValueType.name : ValueType → String
  | .null => "null"
  | .bool => "bool"
  | .int => "int"
  | .double => "double"
  | .string => "string"
  | .list => "list"
  | .map => "map"

structure TypeMismatch where
  expected : ValueType
  found : ValueType

def TypeMismatch.message (e : TypeMismatch) : String :=
  "type mismatch: expected " ++ e.expected.name ++ ", found " ++ e.found.name

namespace Value

def type : Value → ValueType
  | .null => .null
  | .bool _ => .bool
  | .int _ => .int
  | .double _ => .double
  | .string _ => .string
  | .list _ => .list
  | .map _ => .map

def bool? : Value → Except TypeMismatch Bool
  | .bool b => .ok b
  | v => .error ⟨.bool, v.type⟩

def string? : Value → Option String
  | .string s => some s
  | _ => none

def get? (v : Value) (key : String) : Option Value :=
  match v with
  | .map entries => lookup? entries key
  | _ => none

mutual

/-- Numbers become doubles. -/
def ofJson : Json → Value
  | .null => .null
  | .bool b => .bool b
  | .integer n => .double (.ofInt n)
  | .double d => .double d
  | .string s => .string s
  | .array items => .list (ofItems items)
  | .object entries => .map (ofEntries entries)
termination_by structural j => j

def ofItems : List Json → List Value
  | [] => []
  | j :: r => ofJson j :: ofItems r
termination_by structural items => items

def ofEntries : List (String × Json) → List (String × Value)
  | [] => []
  | (k, j) :: r => (k, ofJson j) :: ofEntries r
termination_by structural entries => entries

end

/-- Two to the power of 53: up to this magnitude every whole number is a double of its own. -/
def exactLimit : Nat := 9007199254740992

/-- Whole doubles up to the limit are written as integers; those that are not finite have no JSON,
and the double is given back. -/
def doubleJson (d : Double) : Except Double Json :=
  match d.whole? with
  | some n => if n.natAbs ≤ exactLimit then .ok (.integer n) else .ok (.double d)
  | none => if d.isFinite then .ok (.double d) else .error d

mutual

def toJson : Value → Except Double Json
  | .null => .ok .null
  | .bool b => .ok (.bool b)
  | .int n => .ok (.integer n.toInt)
  | .double d => doubleJson d
  | .string s => .ok (.string s)
  | .list items => (jsonItems items).map .array
  | .map entries => (jsonEntries entries).map .ofEntries
termination_by structural v => v

def jsonItems : List Value → Except Double (List Json)
  | [] => .ok []
  | v :: r =>
    match toJson v with
    | .error d => .error d
    | .ok j => (jsonItems r).map (j :: ·)
termination_by structural items => items

def jsonEntries : List (String × Value) → Except Double (List (String × Json))
  | [] => .ok []
  | (k, v) :: r =>
    match toJson v with
    | .error d => .error d
    | .ok j => (jsonEntries r).map ((k, j) :: ·)
termination_by structural entries => entries

end

mutual

/-- Text for people: strings stand in quotes as they are. -/
def display : Value → String
  | .null => "null"
  | .bool b => if b then "true" else "false"
  | .int n => String.ofList (Json.integerText n.toInt)
  | .double d => d.text
  | .string s => "\"" ++ s ++ "\""
  | .list items => "[" ++ displayItems items ++ "]"
  | .map entries => "\x7b" ++ displayEntries entries ++ "\x7d"
termination_by structural v => v

def displayItems : List Value → String
  | [] => ""
  | [v] => display v
  | v :: r => display v ++ ", " ++ displayItems r
termination_by structural items => items

def displayEntries : List (String × Value) → String
  | [] => ""
  | [(k, v)] => "\"" ++ k ++ "\": " ++ display v
  | (k, v) :: r => "\"" ++ k ++ "\": " ++ display v ++ ", " ++ displayEntries r
termination_by structural entries => entries

end

mutual

/-- Equality: an int and a double are equal as doubles, maps without regard to order. -/
def equal : Value → Value → Bool
  | .null, .null => true
  | .bool a, .bool b => a == b
  | .int a, .int b => a == b
  | .int a, .double b => (Double.ofInt a.toInt).eq b
  | .double a, .int b => (Double.ofInt b.toInt).eq a
  | .double a, .double b => a.eq b
  | .string a, .string b => a == b
  | .list a, .list b => a.length == b.length && equalItems a b
  | .map a, .map b => a.length == b.length && equalEntries a b
  | _, _ => false
termination_by structural v => v

def equalItems : List Value → List Value → Bool
  | [], _ => true
  | v :: r, w :: s => equal v w && equalItems r s
  | _ :: _, [] => true
termination_by structural items => items

/-- Every entry has an equal one under its key. -/
def equalEntries : List (String × Value) → List (String × Value) → Bool
  | [], _ => true
  | (k, v) :: r, b =>
    (match lookup? b k with
      | some w => equal v w
      | none => false) && equalEntries r b
termination_by structural entries => entries

end

/-- Numbers as doubles. -/
def double? : Value → Option Double
  | .int n => some (.ofInt n.toInt)
  | .double d => some d
  | _ => none

end Value

end EventStream
