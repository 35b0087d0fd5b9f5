import EventStream.Config.ListenAddr

namespace EventStream.HostName

/-- A number in a name: decimal, octal after a zero, or hexadecimal. -/
def number? (s : List Char) : Option Nat :=
  match s with
  | '0' :: 'x' :: r | '0' :: 'X' :: r =>
    if r.all fun c => (ListenAddr.hexValue? c).isSome then
      some (r.foldl (fun n c => n * 16 + (ListenAddr.hexValue? c).getD 0) 0)
    else none
  | '0' :: c :: r =>
    if (c :: r).all fun c => '0' ≤ c ∧ c ≤ '7' then
      some ((c :: r).foldl (fun n c => n * 8 + digitValue c) 0)
    else none
  | _ => numeral? s

/-- The labels of a name; a dot at the end is not followed by one. -/
def labels (name : List Char) : List (List Char) :=
  let ls := name.splitOn '.'
  if ls.getLast? = some [] ∧ 1 < ls.length then ls.dropLast else ls

/-- Each number but the last is a byte, and the last fills the bytes left. -/
def areBytes : Nat → List (List Char) → Bool
  | _, [] => false
  | free, [l] => (number? l).any (· < Nat.pow 256 free)
  | 0, _ :: _ => false
  | free + 1, l :: r => (number? l).any (· < 256) && areBytes free r

def endsInNumber (name : List Char) : Bool :=
  ((labels name).getLast?).any fun l => (l ≠ [] && l.all Char.isDigit) || (number? l).isSome

/-- A name that ends in a number is an address of four bytes. -/
def isAddressIfNumber (name : List Char) : Bool :=
  !endsInNumber name || (labels name).length ≤ 4 && areBytes 4 (labels name)

end EventStream.HostName
