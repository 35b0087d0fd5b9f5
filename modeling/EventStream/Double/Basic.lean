/-!
Binary64 numbers. A finite one is a whole number of units of `2 ^ (-1074)`; the units that have a
number are those whose binary digits, up to the trailing zeros, are at most 53.
-/
namespace EventStream

namespace Double

/-- The units in the number one. -/
def one : Nat := Nat.pow 2 1074

/-- Every finite number counts fewer units than this. -/
def bound : Nat := Nat.pow 2 2098

/-- The distance between neighbouring numbers. -/
def spacing (units : Nat) : Nat := Nat.pow 2 (units.log2 - 52)

def Fits (units : Nat) : Prop := spacing units ∣ units ∧ units < bound

instance (units : Nat) : Decidable (Fits units) :=
  inferInstanceAs (Decidable (_ ∧ _))

theorem powerOfTwo_pos (n : Nat) : 0 < Nat.pow 2 n :=
  Nat.two_pow_pos n

theorem bound_pos : 0 < bound :=
  powerOfTwo_pos _

theorem one_pos : 0 < one :=
  powerOfTwo_pos _

theorem spacing_pos (u : Nat) : 0 < spacing u :=
  powerOfTwo_pos _

theorem spacing_eq_one {u : Nat} (h : u < 9007199254740992) : spacing u = 1 := by
  by_cases hu : u = 0
  · subst hu; rfl
  · have := (Nat.log2_lt (k := 53) hu).2 h
    simp [spacing, show u.log2 - 52 = 0 by omega]

theorem div_spacing_lt (u : Nat) : u / spacing u < 9007199254740992 := by
  rw [Nat.div_lt_iff_lt_mul (spacing_pos u), spacing, Nat.pow_eq,
    show 9007199254740992 = 2 ^ 53 from rfl, ← Nat.pow_add]
  exact Nat.lt_of_lt_of_le Nat.lt_log2_self (Nat.pow_le_pow_right (by omega) (by omega))

end Double

/-- A binary64 number; all not-a-numbers are one value. -/
inductive Double where
  | nan
  | infinity (negative : Bool)
  | finite (negative : Bool) (units : Nat) (fits : Double.Fits units)
  deriving DecidableEq

namespace Double

theorem fits_zero : Fits 0 :=
  ⟨Nat.dvd_zero _, bound_pos⟩

def zero : Double := .finite false 0 fits_zero

/-- Place on the number line in units, the infinities past every finite number. -/
def place? : Double → Option Int
  | .nan => none
  | .infinity false => some bound
  | .infinity true => some (-bound)
  | .finite false u _ => some u
  | .finite true u _ => some (-u)

/-- Equality of places: the two zeros are equal and nan is equal to nothing. -/
def eq (a b : Double) : Bool :=
  match a.place?, b.place? with
  | some x, some y => x == y
  | _, _ => false

def lt (a b : Double) : Bool :=
  match a.place?, b.place? with
  | some x, some y => x < y
  | _, _ => false

def le (a b : Double) : Bool :=
  match a.place?, b.place? with
  | some x, some y => x ≤ y
  | _, _ => false

def isFinite : Double → Bool
  | .finite _ _ _ => true
  | _ => false

def isZero : Double → Bool
  | .finite _ 0 _ => true
  | _ => false

def neg : Double → Double
  | .nan => .nan
  | .infinity s => .infinity !s
  | .finite s u h => .finite (!s) u h

end Double

end EventStream
