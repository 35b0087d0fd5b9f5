import EventStream.Double.Rounding
import EventStream.Text.Numeral

namespace EventStream

/-- The magnitude `digits * 10 ^ exponent`. -/
structure Decimal where
  digits : Nat
  exponent : Int

namespace Decimal

/-- Beyond this power of ten, up or down, no number but zero and the infinities is near. -/
def range : Nat := 400

/-- The nearest number; far outside the range it is known without the power of ten. -/
def toDouble (negative : Bool) (d : Decimal) : Double :=
  if d.digits = 0 ∨ d.exponent < -(range + d.digits.log2 : Int) then
    .finite negative 0 Double.fits_zero
  else if (range : Int) < d.exponent then .infinity negative
  else match d.exponent with
    | .ofNat e => .ofQuotient negative (d.digits * Nat.pow 10 e * Double.one) 1
    | .negSucc e => .ofQuotient negative (d.digits * Double.one) (Nat.pow 10 (e + 1))

/-- The value of whole digits, digits after the point and an exponent. -/
def ofParts (whole fraction : List Char) (exponent : Int) : Decimal :=
  ⟨ofDigits (whole ++ fraction), exponent - fraction.length⟩

end Decimal

/-- An exponent mark with its numeral, or nothing. -/
def exponentPart? : List Char → Option Int
  | [] => some 0
  | c :: r => if c = 'e' ∨ c = 'E' then signed? r else none

/-- A decimal fraction: digits, a point and digits of which one side may lack, an exponent. -/
def decimal? (s : List Char) : Option Decimal :=
  let whole := s.takeWhile Char.isDigit
  let rest := s.dropWhile Char.isDigit
  let fraction := match rest with
    | '.' :: r => r.takeWhile Char.isDigit
    | _ => []
  let tail := match rest with
    | '.' :: r => r.dropWhile Char.isDigit
    | _ => rest
  if whole = [] ∧ fraction = [] then none
  else (exponentPart? tail).map (Decimal.ofParts whole fraction)

namespace Double

/-- A word for a number that has no digits. -/
def word? (negative : Bool) (s : List Char) : Option Double :=
  match s.map Char.toLower with
  | ['n', 'a', 'n'] => some .nan
  | ['i', 'n', 'f'] => some (.infinity negative)
  | ['i', 'n', 'f', 'i', 'n', 'i', 't', 'y'] => some (.infinity negative)
  | _ => none

def magnitude? (negative : Bool) (s : List Char) : Option Double :=
  (word? negative s).or ((decimal? s).map (Decimal.toDouble negative))

/-- The number nearest to a decimal fraction with an optional sign, or a word. -/
def read? : List Char → Option Double
  | '-' :: r => magnitude? true r
  | '+' :: r => magnitude? false r
  | s => magnitude? false s

end Double

end EventStream
