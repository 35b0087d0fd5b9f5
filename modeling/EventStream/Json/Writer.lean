import EventStream.Double.Layout
import EventStream.Json.Basic
import EventStream.Text.Bytes

namespace EventStream.Json

/-- From `10 ^ (-5)` and below `10 ^ 16` all places, and always a point. -/
def numberFormat : NumberFormat :=
  ⟨some (-5, 16), true, .even⟩

def hexDigit (n : Nat) : Char :=
  Nat.digitChar n

/-- Quote, backslash and the controls below the space are escaped. -/
def escapeChar (c : Char) : List Char :=
  if c = '"' then ['\\', '"']
  else if c = '\\' then ['\\', '\\']
  else if c = '\n' then ['\\', 'n']
  else if c = '\r' then ['\\', 'r']
  else if c = '\t' then ['\\', 't']
  else if c = '\x08' then ['\\', 'b']
  else if c = '\x0c' then ['\\', 'f']
  else if c.toNat < 0x20 then
    ['\\', 'u', '0', '0', hexDigit (c.toNat / 16), hexDigit (c.toNat % 16)]
  else [c]

def charBytes (c : Char) : Bytes :=
  String.utf8EncodeChar c

def quoted (s : String) : Bytes :=
  0x22 :: (s.toList.flatMap fun c => (escapeChar c).flatMap charBytes) ++ [0x22]

def ascii (s : List Char) : Bytes :=
  s.map Char.toUInt8

def integerText (n : Int) : List Char :=
  if n < 0 then '-' :: digitsOf n.natAbs else digitsOf n.natAbs

/-- Texts with a comma between neighbours. -/
def commaSeparated : List Bytes → Bytes
  | [] => []
  | [b] => b
  | b :: r => b ++ 0x2C :: commaSeparated r

mutual

def write : Json → Bytes
  | .null => ascii ['n', 'u', 'l', 'l']
  | .bool true => ascii ['t', 'r', 'u', 'e']
  | .bool false => ascii ['f', 'a', 'l', 's', 'e']
  | .integer n => ascii (integerText n)
  | .double d => ascii (numberFormat.write d)
  | .string s => quoted s
  | .array items => 0x5B :: commaSeparated (writeItems items) ++ [0x5D]
  | .object entries => 0x7B :: commaSeparated (writeEntries entries) ++ [0x7D]
termination_by structural j => j

def writeItems : List Json → List Bytes
  | [] => []
  | j :: r => write j :: writeItems r
termination_by structural items => items

def writeEntries : List (String × Json) → List Bytes
  | [] => []
  | (k, j) :: r => (quoted k ++ 0x3A :: write j) :: writeEntries r
termination_by structural entries => entries

end

theorem writeItems_eq (items : List Json) : writeItems items = items.map write := by
  induction items with
  | nil => rfl
  | cons j r ih => simp [writeItems, ih]

theorem writeEntries_eq (entries : List (String × Json)) :
    writeEntries entries = entries.map fun e => quoted e.1 ++ 0x3A :: write e.2 := by
  induction entries with
  | nil => rfl
  | cons e r ih => obtain ⟨k, j⟩ := e; simp [writeEntries, ih]

/-- The written bytes as text. -/
def text (j : Json) : String :=
  j.write.lossyText

end EventStream.Json
