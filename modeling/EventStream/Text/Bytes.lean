namespace EventStream

abbrev Bytes := List UInt8

namespace Bytes

def ofString (s : String) : Bytes :=
  s.toUTF8.data.toList

/-- The text that the bytes encode, if they are UTF-8. -/
def text? (b : Bytes) : Option String :=
  String.fromUTF8? ⟨b.toArray⟩

theorem text?_ofString (s : String) : text? (ofString s) = some s := by
  have h : (⟨(ofString s).toArray⟩ : ByteArray) = s.toUTF8 := rfl
  simp [text?, h, String.fromUTF8?, s.isValidUTF8, String.fromUTF8]

/-- A character of which some bytes are still owed, the next one between `low` and `high`. -/
structure Unfinished where
  code : Nat
  owed : Nat
  low : UInt8
  high : UInt8

/-- What has been read, and the character that is under way. -/
structure Reading where
  done : List Char
  current : Option Unfinished

def replacement : Char := Char.ofNat 0xFFFD

/-- A byte at the start of a character; no character starts with a tail byte, C0, C1 or above F4. -/
def Reading.start (done : List Char) (b : UInt8) : Reading :=
  let n := b.toNat
  if n < 0x80 then ⟨Char.ofNat n :: done, none⟩
  else if n < 0xC2 then ⟨replacement :: done, none⟩
  else if n < 0xE0 then ⟨done, some ⟨n - 0xC0, 1, 0x80, 0xBF⟩⟩
  else if n = 0xE0 then ⟨done, some ⟨n - 0xE0, 2, 0xA0, 0xBF⟩⟩
  else if n = 0xED then ⟨done, some ⟨n - 0xE0, 2, 0x80, 0x9F⟩⟩
  else if n < 0xF0 then ⟨done, some ⟨n - 0xE0, 2, 0x80, 0xBF⟩⟩
  else if n = 0xF0 then ⟨done, some ⟨n - 0xF0, 3, 0x90, 0xBF⟩⟩
  else if n < 0xF4 then ⟨done, some ⟨n - 0xF0, 3, 0x80, 0xBF⟩⟩
  else if n = 0xF4 then ⟨done, some ⟨n - 0xF0, 3, 0x80, 0x8F⟩⟩
  else ⟨replacement :: done, none⟩

def Reading.step (r : Reading) (b : UInt8) : Reading :=
  match r.current with
  | none => .start r.done b
  | some u =>
    if u.low ≤ b ∧ b ≤ u.high then
      let code := u.code * 64 + (b.toNat - 0x80)
      if u.owed ≤ 1 then ⟨Char.ofNat code :: r.done, none⟩
      else ⟨r.done, some ⟨code, u.owed - 1, 0x80, 0xBF⟩⟩
    else .start (replacement :: r.done) b

def Reading.finish (r : Reading) : List Char :=
  match r.current with
  | none => r.done.reverse
  | some _ => (replacement :: r.done).reverse

/-- The text with U+FFFD for each longest piece that starts a character but does not end one. -/
def lossyText (b : Bytes) : String :=
  String.ofList (b.foldl Reading.step ⟨[], none⟩).finish

/-- A line feed. -/
def lineFeed : UInt8 := 0x0A

/-- The byte that two hexadecimal digits write. -/
def ofHex? (high low : UInt8) : Option UInt8 :=
  (digit? high).bind fun h => (digit? low).map fun l => 16 * h + l
where
  digit? (b : UInt8) : Option UInt8 :=
    if 0x30 ≤ b ∧ b ≤ 0x39 then some (b - 0x30)
    else if 0x41 ≤ b ∧ b ≤ 0x46 then some (b - 0x41 + 10)
    else if 0x61 ≤ b ∧ b ≤ 0x66 then some (b - 0x61 + 10)
    else none

/-- A percent sign and two digits stand for a byte. -/
def percentDecoded : Bytes → Bytes
  | 0x25 :: high :: low :: r =>
    match ofHex? high low with
    | some b => b :: percentDecoded r
    | none => 0x25 :: percentDecoded (high :: low :: r)
  | b :: r => b :: percentDecoded r
  | [] => []

end Bytes

end EventStream
