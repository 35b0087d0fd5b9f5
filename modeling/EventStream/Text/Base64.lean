import EventStream.Text.Bytes

namespace EventStream.Base64

inductive DecodeError where
  | symbol (byte : UInt8) (offset : Nat)
  | length (n : Nat)
  /-- The last symbol has bits that no byte takes. -/
  | lastSymbol (byte : UInt8) (offset : Nat)
  | padding

def DecodeError.message : DecodeError → String
  | .symbol b n => "Invalid symbol " ++ b.toNat.repr ++ ", offset " ++ n.repr ++ "."
  | .length n => "Invalid input length: " ++ n.repr
  | .lastSymbol b n => "Invalid last symbol " ++ b.toNat.repr ++ ", offset " ++ n.repr ++ "."
  | .padding => "Invalid padding"

/-- The byte of the sign `=`. -/
def pad : UInt8 := 0x3D

def symbolOf (v : Nat) : UInt8 :=
  UInt8.ofNat <|
    if v < 26 then 0x41 + v
    else if v < 52 then 0x61 + (v - 26)
    else if v < 62 then 0x30 + (v - 52)
    else if v = 62 then 0x2B
    else 0x2F

def valueOf? (b : UInt8) : Option Nat :=
  if 0x41 ≤ b ∧ b ≤ 0x5A then some (b.toNat - 0x41)
  else if 0x61 ≤ b ∧ b ≤ 0x7A then some (b.toNat - 0x61 + 26)
  else if 0x30 ≤ b ∧ b ≤ 0x39 then some (b.toNat - 0x30 + 52)
  else if b = 0x2B then some 62
  else if b = 0x2F then some 63
  else none

def encode : Bytes → Bytes
  | [] => []
  | [a] =>
    let n := a.toNat * 16
    [symbolOf (n / 64), symbolOf (n % 64), pad, pad]
  | [a, b] =>
    let n := (a.toNat * 256 + b.toNat) * 4
    [symbolOf (n / 4096), symbolOf (n / 64 % 64), symbolOf (n % 64), pad]
  | a :: b :: c :: r =>
    let n := (a.toNat * 256 + b.toNat) * 256 + c.toNat
    symbolOf (n / 262144) :: symbolOf (n / 4096 % 64) :: symbolOf (n / 64 % 64) ::
      symbolOf (n % 64) :: encode r

def value (offset : Nat) (b : UInt8) : Except DecodeError Nat :=
  match valueOf? b with
  | some v => .ok v
  | none => .error (.symbol b offset)

/-- What of the last group has been read: its symbols, and where its padding starts. -/
structure Group where
  symbols : List (UInt8 × Nat)
  padding : List Nat

/-- A sign of padding needs two symbols before it, and nothing but padding follows it. -/
def Group.step (g : Group) (offset : Nat) (b : UInt8) : Except DecodeError Group :=
  if b = pad then
    if g.symbols.length + g.padding.length < 2 then .error (.symbol b offset)
    else .ok { g with padding := g.padding ++ [offset] }
  else
    match g.padding with
    | p :: _ => .error (.symbol pad p)
    | [] => (value offset b).map fun v => { g with symbols := g.symbols ++ [(b, v)] }

def Group.read (g : Group) (offset : Nat) : Bytes → Except DecodeError Group
  | [] => .ok g
  | b :: r =>
    match g.step offset b with
    | .ok g => g.read (offset + 1) r
    | .error e => .error e

/-- The bytes of a last group of at most four signs. -/
def decodeLast (offset : Nat) (s : Bytes) : Except DecodeError Bytes := do
  let g ← Group.read ⟨[], []⟩ offset s
  let count := g.symbols.length
  let last := (g.symbols.getLast?.map Prod.fst).getD 0
  if count < 2 then .error (.length (offset + count))
  else if (count + g.padding.length) % 4 ≠ 0 then .error .padding
  else
    match g.symbols.map Prod.snd with
    | [a, b] =>
      if b % 16 = 0 then .ok [UInt8.ofNat (a * 4 + b / 16)]
      else .error (.lastSymbol last (offset + 1))
    | [a, b, c] =>
      if c % 4 = 0 then .ok [UInt8.ofNat (a * 4 + b / 16), UInt8.ofNat (b % 16 * 16 + c / 4)]
      else .error (.lastSymbol last (offset + 2))
    | [a, b, c, d] =>
      .ok [UInt8.ofNat (a * 4 + b / 16), UInt8.ofNat (b % 16 * 16 + c / 4),
        UInt8.ofNat (c % 4 * 64 + d)]
    | _ => .error .padding

/-- Groups of four symbols, of which all but the last are full. -/
def decodeGroups (done : Bytes) (offset : Nat) : Bytes → Except DecodeError Bytes
  | a :: b :: c :: d :: e :: r => do
    let a ← value offset a
    let b ← value (offset + 1) b
    let c ← value (offset + 2) c
    let d ← value (offset + 3) d
    let bytes := [UInt8.ofNat (a * 4 + b / 16), UInt8.ofNat (b % 16 * 16 + c / 4),
      UInt8.ofNat (c % 4 * 64 + d)]
    decodeGroups (bytes.reverse ++ done) (offset + 4) (e :: r)
  | s => (decodeLast offset s).map (done.reverse ++ ·)

/-- One sign too many is looked at first: most often it is a stray line feed. -/
def decode (s : Bytes) : Except DecodeError Bytes :=
  match s, s.getLast? with
  | [], _ => .ok []
  | s, some last =>
    if s.length % 4 = 1 ∧ last ≠ pad ∧ (valueOf? last).isNone then
      .error (.symbol last (s.length - 1))
    else decodeGroups [] 0 s
  | _, none => .ok []

end EventStream.Base64
