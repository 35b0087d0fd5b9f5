namespace EventStream

def digitValue (c : Char) : Nat :=
  c.toNat - '0'.toNat

/-- The number that decimal digits write, the first digit weighing most. -/
def ofDigits (ds : List Char) : Nat :=
  ds.foldl (fun n c => 10 * n + digitValue c) 0

def digitsOf (n : Nat) : List Char :=
  Nat.toDigits 10 n

/-- Digits only, and at least one. -/
def numeral? (s : List Char) : Option Nat :=
  if s ≠ [] ∧ s.all Char.isDigit then some (ofDigits s) else none

/-- A numeral below `limit`, after an optional plus. -/
def unsigned? (limit : Nat) (s : List Char) : Option Nat :=
  let digits := match s with
    | '+' :: r => r
    | _ => s
  (numeral? digits).filter (· < limit)

/-- A numeral after an optional sign. -/
def signed? (s : List Char) : Option Int :=
  match s with
  | '-' :: r => (numeral? r).map fun n => -(n : Int)
  | '+' :: r => (numeral? r).map fun n => (n : Int)
  | _ => (numeral? s).map fun n => (n : Int)

/-- The integers of 64 bits. -/
def word? (n : Int) : Option Int64 :=
  if -9223372036854775808 ≤ n ∧ n < 9223372036854775808 then some (Int64.ofInt n) else none

theorem toInt_of_word? {n : Int} {w : Int64} (h : word? n = some w) : w.toInt = n := by
  unfold word? at h
  split at h
  next hn =>
    cases Option.some.inj h
    exact Int64.toInt_ofInt_of_le hn.1 hn.2
  next => simp at h

end EventStream
