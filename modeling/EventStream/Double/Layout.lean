import EventStream.Double.Shortest

namespace EventStream

structure NumberFormat where
  /-- From which power of ten, and below which, a number is written with all its places. -/
  places : Option (Int × Int)
  /-- Whole numbers get a point and a zero. -/
  pointed : Bool
  tie : Tie

namespace NumberFormat

/-- Always all places, and no point without a fraction. -/
def plain : NumberFormat :=
  ⟨none, false, .up⟩

/-- All places of `digits * 10 ^ exponent`. -/
def positional (pointed : Bool) (digits : List Char) (exponent : Int) : List Char :=
  let zeros := fun (n : Int) => List.replicate n.toNat '0'
  let whole := digits.length + exponent
  if 0 ≤ exponent then digits ++ zeros exponent ++ (if pointed then ['.', '0'] else [])
  else if 0 < whole then digits.take whole.toNat ++ '.' :: digits.drop whole.toNat
  else '0' :: '.' :: (zeros (-whole) ++ digits)

/-- The first digit, the others after a point, and the power of ten of the first with its sign. -/
def scientific (digits : List Char) (exponent : Int) : List Char :=
  let power := digits.length + exponent - 1
  let sign := if power < 0 then '-' else '+'
  let fraction := match digits.drop 1 with
    | [] => []
    | ds => '.' :: ds
  digits.take 1 ++ fraction ++ 'e' :: sign :: digitsOf power.natAbs

def decimal (f : NumberFormat) (d : Decimal) : List Char :=
  let digits := digitsOf d.digits
  let power := digits.length + d.exponent - 1
  let inPlaces : Bool := match f.places with
    | none => true
    | some (least, limit) => d.digits = 0 ∨ (least ≤ power ∧ power < limit)
  if inPlaces then positional f.pointed digits d.exponent else scientific digits d.exponent

def write (f : NumberFormat) : Double → List Char
  | .nan => "NaN".toList
  | .infinity s => (if s then ['-'] else []) ++ "inf".toList
  | .finite s u _ =>
    let d := if u = 0 then ⟨0, 0⟩ else Double.shortest f.tie u
    (if s then ['-'] else []) ++ f.decimal d

end NumberFormat

/-- The text of a number outside JSON. -/
def Double.text (d : Double) : String :=
  String.ofList (NumberFormat.plain.write d)

end EventStream
