/-!
Punycode: a label in ASCII. The ASCII characters of the label come first, then numbers that say
which other characters to put in, and where.
-/
namespace EventStream.Punycode

/-- Letters are the digits below 26. -/
def digit? (c : Char) : Option Nat :=
  if 'a' ≤ c ∧ c ≤ 'z' then some (c.toNat - 'a'.toNat)
  else if '0' ≤ c ∧ c ≤ '9' then some (c.toNat - '0'.toNat + 26)
  else none

/-- A digit below this is the last one of its number. -/
def threshold (position bias : Nat) : Nat :=
  max 1 (min 26 (position - bias))

/-- Brings a number down below what takes two digits, counting the digits taken off. -/
def reduced (n : Nat) : Nat × Nat :=
  if 455 < n then
    let (m, digits) := reduced (n / 35)
    (m, digits + 1)
  else (n, 0)
termination_by n
decreasing_by omega

/-- Numbers are expected to be about as long as the last one. -/
def bias (number size : Nat) (first : Bool) : Nat :=
  let n := if first then number / 700 else number / 2
  let (m, digits) := reduced (n + n / size)
  36 * digits + 36 * m / (m + 38)

structure Decoding where
  text : List Char
  /-- The code point of the next character, if the number comes out as zero. -/
  code : Nat
  /-- Where it would go. -/
  place : Nat
  bias : Nat
  /-- What the digits of the present number come to so far. -/
  sum : Nat
  weight : Nat
  /-- Grows by 36 with each digit. -/
  position : Nat

namespace Decoding

def start (text : List Char) : Decoding :=
  ⟨text, 128, 0, 72, 0, 1, 36⟩

/-- Places are counted through the text, and once more for each code point above the last. -/
def insert? (d : Decoding) (number : Nat) : Option Decoding :=
  let size := d.text.length + 1
  let code := d.code + (d.place + number) / size
  let place := (d.place + number) % size
  if code.isValidChar then
    some { text := d.text.insertIdx place (Char.ofNat code)
           code := code
           place := place + 1
           bias := Punycode.bias number size (d.place = 0)
           sum := 0
           weight := 1
           position := 36 }
  else none

def step? (d : Decoding) (c : Char) : Option Decoding :=
  (digit? c).bind fun n =>
    let sum := d.sum + n * d.weight
    let t := threshold d.position d.bias
    if n < t then d.insert? sum
    else some { d with sum := sum, weight := d.weight * (36 - t), position := d.position + 36 }

/-- No number is under way. -/
def isBetween (d : Decoding) : Bool :=
  d.position == 36

end Decoding

/-- The label; the last hyphen parts its ASCII characters from the numbers, of which there is one at
least. -/
def decode? (s : List Char) : Option (List Char) :=
  let digits := (s.reverse.takeWhile (· ≠ '-')).reverse
  let plain := (s.take (s.length - digits.length)).dropLast
  if digits = [] ∨ s.head? = some '-' ∧ plain = [] then none
  else
    ((digits.foldlM Decoding.step? (.start plain)).filter Decoding.isBetween).map Decoding.text

end EventStream.Punycode
