import EventStream.Double.Decimal
import EventStream.Json.Basic
import EventStream.Text.Bytes
/-!
JSON text, from bytes. A reader takes a text from the front of the bytes and gives what follows it.
-/
namespace EventStream.Json

abbrev Reader (α : Type) := Bytes → Option (α × Bytes)

def isSpace (b : UInt8) : Bool :=
  b == 0x20 || b == 0x09 || b == 0x0A || b == 0x0D

def skipSpace (b : Bytes) : Bytes :=
  b.dropWhile isSpace

def isDigit (b : UInt8) : Bool :=
  0x30 ≤ b && b ≤ 0x39

def charOf (b : UInt8) : Char :=
  Char.ofNat b.toNat

def digits (b : Bytes) : List Char :=
  (b.takeWhile isDigit).map charOf

def word (w : Bytes) : Reader Unit := fun b =>
  if w.isPrefixOf b then some ((), b.drop w.length) else none

/-- What a number is written with; without fraction and exponent it is an integer. -/
structure Numeral where
  negative : Bool
  whole : List Char
  fraction : Option (List Char)
  exponent : Option Int

/-- An optional part that starts with a mark. -/
def fractionPart : Reader (Option (List Char))
  | 0x2E :: r => if digits r = [] then none else some (some (digits r), r.dropWhile isDigit)
  | b => some (none, b)

def exponentDigits (negative : Bool) : Reader (Option Int) := fun b =>
  let e : Int := ofDigits (digits b)
  if digits b = [] then none
  else some (some (if negative then -e else e), b.dropWhile isDigit)

def exponentSign : Reader (Option Int)
  | 0x2D :: r => exponentDigits true r
  | 0x2B :: r => exponentDigits false r
  | b => exponentDigits false b

def exponentMark : Reader (Option Int)
  | 0x65 :: r => exponentSign r
  | 0x45 :: r => exponentSign r
  | b => some (none, b)

/-- No zero stands before another digit. -/
def unsignedNumeral (negative : Bool) : Reader Numeral := fun b =>
  let whole := digits b
  if whole = [] ∨ (whole.head? = some '0' ∧ 1 < whole.length) then none
  else do
    let (fraction, b) ← fractionPart (b.dropWhile isDigit)
    let (exponent, b) ← exponentMark b
    some (⟨negative, whole, fraction, exponent⟩, b)

def numeral : Reader Numeral
  | 0x2D :: r => unsignedNumeral true r
  | b => unsignedNumeral false b

/-- The double nearest to a decimal. A reader that rounds the digits and then the power of ten may
find a neighbour of it: what depends on this assumes that decimals are rounded once. -/
def Numeral.double (n : Numeral) : Double :=
  (Decimal.ofParts n.whole (n.fraction.getD []) (n.exponent.getD 0)).toDouble n.negative

/-- Integers between `-2 ^ 63` and `2 ^ 64` stay integers, minus zero is a double, and a number
beyond the largest double has no value. -/
def Numeral.json? (n : Numeral) : Option Json :=
  let value : Int := ofDigits n.whole
  if n.fraction.isNone ∧ n.exponent.isNone ∧ !n.negative ∧ value < 18446744073709551616 then
    some (.integer value)
  else if n.fraction.isNone ∧ n.exponent.isNone ∧ n.negative ∧ 0 < value ∧
      value ≤ 9223372036854775808 then
    some (.integer (-value))
  else if n.double.isFinite then some (.double n.double)
  else none

def hexValue? (b : UInt8) : Option Nat :=
  if isDigit b then some (b.toNat - 0x30)
  else if 0x61 ≤ b ∧ b ≤ 0x66 then some (b.toNat - 0x61 + 10)
  else if 0x41 ≤ b ∧ b ≤ 0x46 then some (b.toNat - 0x41 + 10)
  else none

def hexUnit? (a b c d : UInt8) : Option Nat := do
  let a ← hexValue? a
  let b ← hexValue? b
  let c ← hexValue? c
  let d ← hexValue? d
  some (((a * 16 + b) * 16 + c) * 16 + d)

def isHighSurrogate (u : Nat) : Bool :=
  0xD800 ≤ u && u < 0xDC00

def isLowSurrogate (u : Nat) : Bool :=
  0xDC00 ≤ u && u < 0xE000

def joinSurrogates (high low : Nat) : Nat :=
  0x10000 + (high - 0xD800) * 0x400 + (low - 0xDC00)

/-- The byte that a backslash and a letter stand for. -/
def escaped? (b : UInt8) : Option UInt8 :=
  if b = 0x22 ∨ b = 0x5C ∨ b = 0x2F then some b
  else if b = 0x62 then some 0x08
  else if b = 0x66 then some 0x0C
  else if b = 0x6E then some 0x0A
  else if b = 0x72 then some 0x0D
  else if b = 0x74 then some 0x09
  else none

def pushChar (code : Nat) (done : Bytes) : Bytes :=
  (String.utf8EncodeChar (Char.ofNat code)).reverse ++ done

/-- The bytes of a string up to its closing quote; a high surrogate waits for its low one. -/
def stringBody (high : Option Nat) (done : Bytes) : Reader Bytes
  | 0x5C :: 0x75 :: a :: b :: c :: d :: r =>
    match hexUnit? a b c d, high with
    | none, _ => none
    | some u, none =>
      if isHighSurrogate u then stringBody (some u) done r
      else if isLowSurrogate u then none
      else stringBody none (pushChar u done) r
    | some u, some h =>
      if isLowSurrogate u then stringBody none (pushChar (joinSurrogates h u) done) r else none
  | 0x5C :: c :: r =>
    match escaped? c, high with
    | some b, none => stringBody none (b :: done) r
    | _, _ => none
  | 0x22 :: r => if high.isNone then some (done.reverse, r) else none
  | b :: r => if b < 0x20 ∨ high.isSome then none else stringBody none (b :: done) r
  | [] => none

def quotedText : Reader String
  | 0x22 :: r => do
    let (body, r) ← stringBody none [] r
    let s ← Bytes.text? body
    some (s, r)
  | _ => none

/-- A string whose bytes nobody reads: escapes have their form, but need not name a character. -/
def skippedBody : Reader Unit
  | 0x5C :: 0x75 :: a :: b :: c :: d :: r =>
    if (hexUnit? a b c d).isSome then skippedBody r else none
  | 0x5C :: c :: r => if (escaped? c).isSome then skippedBody r else none
  | 0x22 :: r => some ((), r)
  | b :: r => if b < 0x20 then none else skippedBody r
  | [] => none

def skippedString : Reader Unit
  | 0x22 :: r => skippedBody r
  | _ => none

/-- What the places of a document are read as. -/
structure Contents (κ α : Type) where
  key : Reader κ
  scalar : Reader α
  array : List α → α
  object : List (κ × α) → α

/-- Items up to a closing bracket, after the opening one or a comma. -/
def itemsFrom {α : Type} (close : UInt8) (item : Reader α) : Nat → List α → Reader (List α)
  | 0, _, _ => none
  | n + 1, done, b =>
    match item (skipSpace b) with
    | none => none
    | some (x, r) =>
      match skipSpace r with
      | [] => none
      | c :: r =>
        if c = 0x2C then itemsFrom close item n (x :: done) r
        else if c = close then some ((x :: done).reverse, r)
        else none

def items {α : Type} (close : UInt8) (item : Reader α) (fuel : Nat) : Reader (List α) := fun b =>
  match skipSpace b with
  | [] => none
  | c :: r => if c = close then some ([], r) else itemsFrom close item fuel [] (c :: r)

/-- A key, a colon and what its value is read as. -/
def member {κ α : Type} (key : Reader κ) (value : κ → Reader α) : Reader (κ × α) := fun b =>
  match key b with
  | none => none
  | some (k, r) =>
    match skipSpace r with
    | 0x3A :: r => (value k (skipSpace r)).map fun (x, r) => ((k, x), r)
    | _ => none

def members {κ α : Type} (key : Reader κ) (value : κ → Reader α) (fuel : Nat) :
    Reader (List (κ × α)) :=
  items 0x7D (member key value) fuel

/-- A value with at most `depth` arrays and objects around a place; `fuel` bounds the items of each
by the length of the text. -/
def Contents.nested {κ α : Type} (c : Contents κ α) (fuel : Nat) : Nat → Reader α
  | 0, b => c.scalar b
  | depth + 1, b =>
    match b with
    | 0x5B :: r => (items 0x5D (c.nested fuel depth) fuel r).map fun (xs, r) => (c.array xs, r)
    | 0x7B :: r =>
      (members c.key (fun _ => c.nested fuel depth) fuel r).map fun (xs, r) => (c.object xs, r)
    | _ => c.scalar b

def named (w : Bytes) (j : Json) : Reader Json := fun b =>
  (word w b).map fun (_, r) => (j, r)

def scalar : Reader Json := fun b =>
  match b with
  | 0x22 :: _ => (quotedText b).map fun (s, r) => (.string s, r)
  | 0x6E :: _ => named [0x6E, 0x75, 0x6C, 0x6C] .null b
  | 0x74 :: _ => named [0x74, 0x72, 0x75, 0x65] (.bool true) b
  | 0x66 :: _ => named [0x66, 0x61, 0x6C, 0x73, 0x65] (.bool false) b
  | _ => (numeral b).bind fun (n, r) => n.json?.map fun j => (j, r)

def skippedScalar : Reader Unit := fun b =>
  match b with
  | 0x22 :: _ => skippedString b
  | 0x6E :: _ | 0x74 :: _ | 0x66 :: _ => (scalar b).map fun (_, r) => ((), r)
  | _ => (numeral b).map fun (_, r) => ((), r)

def data : Contents String Json :=
  ⟨quotedText, scalar, .array, ofEntries⟩

/-- A value of which only the form counts. -/
def skipped : Contents Unit Unit :=
  ⟨skippedString, skippedScalar, fun _ => (), fun _ => ()⟩

/-- At most this many arrays and objects lie one within another. -/
def depthLimit : Nat := 127

def value (fuel depth : Nat) : Reader Json :=
  data.nested fuel depth

/-- A whole text is one value with spaces around it. -/
def whole {α : Type} (r : Reader α) (b : Bytes) : Option α :=
  match r (skipSpace b) with
  | some (x, rest) => if skipSpace rest = [] then some x else none
  | none => none

def parse? (b : Bytes) : Option Json :=
  whole (value (b.length + 1) depthLimit) b

end EventStream.Json
