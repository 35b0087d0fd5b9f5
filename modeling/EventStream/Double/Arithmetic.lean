import EventStream.Double.Rounding

namespace EventStream.Double

/-- The units with their sign. -/
def signed (negative : Bool) (units : Nat) : Int :=
  if negative then -units else units

def add : Double → Double → Double
  | .nan, _ | _, .nan => .nan
  | .infinity s, .infinity t => if s = t then .infinity s else .nan
  | .infinity s, .finite _ _ _ => .infinity s
  | .finite _ _ _, .infinity t => .infinity t
  | .finite s u _, .finite t v _ =>
    let total := signed s u + signed t v
    if total = 0 then .finite (s && t) 0 fits_zero
    else ofQuotient (total < 0) total.natAbs 1

def sub (a b : Double) : Double :=
  add a b.neg

def mul : Double → Double → Double
  | .nan, _ | _, .nan => .nan
  | .infinity s, .infinity t => .infinity (s != t)
  | .infinity s, .finite t v _ => if v = 0 then .nan else .infinity (s != t)
  | .finite s u _, .infinity t => if u = 0 then .nan else .infinity (s != t)
  | .finite s u _, .finite t v _ => ofQuotient (s != t) (u * v) one

def div : Double → Double → Double
  | .nan, _ | _, .nan => .nan
  | .infinity _, .infinity _ => .nan
  | .infinity s, .finite t _ _ => .infinity (s != t)
  | .finite s _ _, .infinity t => .finite (s != t) 0 fits_zero
  | .finite s u _, .finite t v _ =>
    if v ≠ 0 then ofQuotient (s != t) (u * one) v
    else if u ≠ 0 then .infinity (s != t)
    else .nan

/-- Remainder of the division toward zero, with the sign of the dividend. -/
def mod : Double → Double → Double
  | .nan, _ | _, .nan => .nan
  | .infinity _, _ => .nan
  | .finite s u h, .infinity _ => .finite s u h
  | .finite s u _, .finite _ v _ => if v = 0 then .nan else ofQuotient s (u % v) 1

/-- The whole part, toward zero. -/
def truncate? : Double → Option Int
  | .finite s u _ => some (signed s (u / one))
  | _ => none

/-- The number as an integer, if it is one. -/
def whole? : Double → Option Int
  | .finite s u _ => if one ∣ u then some (signed s (u / one)) else none
  | _ => none

/-- The nearest integer, a half going away from zero. -/
def round? : Double → Option Int
  | .finite s u _ => some (signed s (roundHalfUp u one))
  | _ => none

end EventStream.Double
