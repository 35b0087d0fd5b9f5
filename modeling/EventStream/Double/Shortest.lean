import EventStream.Double.Decimal
/-!
The shortest decimal that reads back: of all powers of ten whose multiples reach the numbers that
round to the given one the largest is taken, and on its grid the multiple nearest to the number.
-/
namespace EventStream

/-- Where a decimal goes that lies in the middle of two grid points. -/
inductive Tie where
  | up
  | even

namespace Double

/-- What rounds to a number, in quarters of a unit; the ends belong to it if it is `closed`. -/
structure Catchment where
  low : Nat
  middle : Nat
  high : Nat
  closed : Bool

/-- Below a power of two the numbers lie twice as dense. -/
def catchment (units : Nat) : Catchment :=
  let s := spacing units
  { low := 4 * units - (if 1 < s ∧ units = Nat.pow 2 52 * s then s else 2 * s)
    middle := 4 * units
    high := 4 * units + 2 * s
    closed := units / s % 2 == 0 }

def Catchment.contains (c : Catchment) (n d : Nat) : Bool :=
  if c.closed then c.low * d ≤ n ∧ n ≤ c.high * d else c.low * d < n ∧ n < c.high * d

/-- The multiple of `10 ^ exponent` in the catchment that is nearest to its middle. -/
def Catchment.point? (c : Catchment) (tie : Tie) (exponent : Int) : Option Nat :=
  let step := 4 * one * Nat.pow 10 exponent.toNat
  let d := Nat.pow 10 (-exponent).toNat
  let p := c.middle * d / step
  let r := 2 * (c.middle * d % step)
  let upper : Bool := match tie with
    | .up => step ≤ r
    | .even => step < r ∨ (r = step ∧ p % 2 = 1)
  match c.contains (p * step) d, c.contains ((p + 1) * step) d with
  | true, true => some (if upper then p + 1 else p)
  | true, false => some p
  | false, true => some (p + 1)
  | false, false => none

/-- Goes down from an exponent until a grid has a point. -/
def Catchment.search (c : Catchment) (tie : Tie) : Nat → Int → Decimal
  | 0, e => ⟨0, e⟩
  | n + 1, e =>
    match c.point? tie e with
    | some p => ⟨p, e⟩
    | none => c.search tie n (e - 1)

/-- The grid of `10 ^ (-1074)` holds every number, so the search ends by then. -/
def shortest (tie : Tie) (units : Nat) : Decimal :=
  let start := (digitsOf (units / one)).length
  (catchment units).search tie (start + 1075) start

end Double

end EventStream
