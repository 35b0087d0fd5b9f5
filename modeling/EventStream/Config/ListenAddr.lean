import EventStream.Config.Error
import EventStream.Text.Blank
import EventStream.Text.Numeral

namespace EventStream

inductive Host where
  /-- Four octets. -/
  | v4 (octets : List Nat)
  /-- Eight groups of sixteen bits, and the zone if it is not zero. -/
  | v6 (groups : List Nat) (zone : Nat)
  deriving DecidableEq

structure ListenAddr where
  host : Host
  port : Nat
  deriving DecidableEq

namespace ListenAddr

/-- Takes something from the front of a text. -/
abbrev Scan (α : Type) := List Char → Option (α × List Char)

def char (c : Char) : Scan Unit
  | d :: r => if c = d then some ((), r) else none
  | [] => none

def hexValue? (c : Char) : Option Nat :=
  if c.isDigit then some (digitValue c)
  else if 'a' ≤ c ∧ c ≤ 'f' then some (c.toNat - 'a'.toNat + 10)
  else if 'A' ≤ c ∧ c ≤ 'F' then some (c.toNat - 'A'.toNat + 10)
  else none

/-- Decimal digits for a number below a limit. -/
def decimal (limit : Nat) : Scan Nat := fun s =>
  ((numeral? (s.takeWhile Char.isDigit)).filter (· < limit)).map fun n =>
    (n, s.dropWhile Char.isDigit)

/-- At most three digits, none a zero before another. -/
def octet : Scan Nat := fun s =>
  let digits := s.takeWhile Char.isDigit
  if digits.length ≤ 3 ∧ (digits.length ≤ 1 ∨ digits.head? ≠ some '0') then decimal 256 s else none

/-- At most four hexadecimal digits. -/
def group : Scan Nat := fun s =>
  let digits := s.takeWhile fun c => (hexValue? c).isSome
  if digits = [] ∨ 4 < digits.length then none
  else
    some (digits.foldl (fun n c => 16 * n + (hexValue? c).getD 0) 0, s.drop digits.length)

def dotted : Scan (List Nat) := fun s => do
  let (a, s) ← octet s
  let (_, s) ← char '.' s
  let (b, s) ← octet s
  let (_, s) ← char '.' s
  let (c, s) ← octet s
  let (_, s) ← char '.' s
  let (d, s) ← octet s
  some ([a, b, c, d], s)

/-- Something after a colon, which the first of a row does without. -/
def separated {α : Type} (first : Bool) (scan : Scan α) : Scan α := fun s =>
  if first then scan s else (char ':' s).bind fun (_, s) => scan s

def pairs : List Nat → List Nat
  | [a, b, c, d] => [a * 256 + b, c * 256 + d]
  | _ => []

/-- Up to `room` groups; four octets may stand for the last two, which is told as well. -/
def groups : Nat → Bool → List Char → List Nat × Bool × List Char
  | 0, _, s => ([], false, s)
  | room + 1, first, s =>
    match if 0 < room then separated first dotted s else none with
    | some (octets, s) => (pairs octets, true, s)
    | none =>
      match separated first group s with
      | some (g, s) =>
        let (gs, octets, s) := groups room false s
        (g :: gs, octets, s)
      | none => ([], false, s)

/-- Eight groups, or fewer with two colons in place of the zeros. -/
def hostV6 : Scan (List Nat) := fun s =>
  let (head, octets, rest) := groups 8 true s
  if head.length = 8 then some (head, rest)
  else if octets then none
  else do
    let (_, rest) ← char ':' rest
    let (_, rest) ← char ':' rest
    let (tail, _, rest) := groups (7 - head.length) true rest
    some (head ++ List.replicate (8 - head.length - tail.length) 0 ++ tail, rest)

def zonePart : Scan Nat := fun s =>
  match char '%' s with
  | some (_, r) => (decimal 4294967296 r).or (some (0, s))
  | none => some (0, s)

def portPart : Scan Nat := fun s =>
  (char ':' s).bind fun (_, s) => decimal 65536 s

def addressV4 : Scan ListenAddr := fun s => do
  let (octets, s) ← dotted s
  let (p, s) ← portPart s
  some (⟨.v4 octets, p⟩, s)

def addressV6 : Scan ListenAddr := fun s => do
  let (_, s) ← char '[' s
  let (gs, s) ← hostV6 s
  let (z, s) ← zonePart s
  let (_, s) ← char ']' s
  let (p, s) ← portPart s
  some (⟨.v6 gs z, p⟩, s)

/-- A scan that takes the whole text. -/
def complete {α : Type} (scan : Scan α) (s : List Char) : Option α :=
  match scan s with
  | some (x, []) => some x
  | _ => none

def ofChars? (s : List Char) : Option ListenAddr :=
  (complete addressV4 s).or (complete addressV6 s)

/-- All interfaces. -/
def anyHost : List Char :=
  ['0', '.', '0', '.', '0', '.', '0', ':']

/-- A host and a port, or a port alone with or without its colon. -/
def parse (setting text : String) : Except ConfigError ListenAddr :=
  let s := trim text.toList
  let full := match s with
    | ':' :: r => anyHost ++ r
    | _ => if s.all Char.isDigit then anyHost ++ s else s
  match ofChars? full with
  | some a => .ok a
  | none => .error (.invalid setting ("'" ++ String.ofList s ++ "' is not a listen address"))

def hexText (n : Nat) : String :=
  String.ofList (Nat.toDigits 16 n)

def joined (separator : String) (parts : List String) : String :=
  separator.intercalate parts

def groupsText (gs : List Nat) : String :=
  joined ":" (gs.map hexText)

/-- Where the longest run of zeros starts, the first of several, and its length. -/
def longestZeros (gs : List Nat) : Nat × Nat :=
  let runs := (List.range gs.length).map fun i => (i, ((gs.drop i).takeWhile (· = 0)).length)
  runs.foldl (fun best r => if best.2 < r.2 then r else best) (0, 0)

/-- The longest run of at least two zeros is left out. -/
def v6Text (gs : List Nat) : String :=
  match gs with
  | [0, 0, 0, 0, 0, 0xFFFF, a, b] =>
    "::ffff:" ++ joined "." ([a / 256, a % 256, b / 256, b % 256].map Nat.repr)
  | _ =>
    let (start, length) := longestZeros gs
    if 1 < length then groupsText (gs.take start) ++ "::" ++ groupsText (gs.drop (start + length))
    else groupsText gs

def display (a : ListenAddr) : String :=
  match a.host with
  | .v4 octets => joined "." (octets.map Nat.repr) ++ ":" ++ a.port.repr
  | .v6 gs z =>
    "[" ++ v6Text gs ++ (if z = 0 then "" else "%" ++ z.repr) ++ "]:" ++ a.port.repr

end ListenAddr

end EventStream
