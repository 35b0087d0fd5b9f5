namespace EventStream

inductive Builtin where
  | size
  | contains
  | startsWith
  | endsWith
  | int
  | double
  | string
  deriving DecidableEq

namespace Builtin

def name : Builtin → String
  | .size => "size"
  | .contains => "contains"
  | .startsWith => "startsWith"
  | .endsWith => "endsWith"
  | .int => "int"
  | .double => "double"
  | .string => "string"

def ofName? (s : String) : Option Builtin :=
  [size, contains, startsWith, endsWith, int, double, string].find? (·.name == s)

end Builtin

end EventStream
