import EventStream.Config.Duration
import EventStream.Double.Arithmetic
import EventStream.Double.Decimal

namespace EventStream

namespace Duration

def isNumeral (c : Char) : Bool :=
  c.isDigit || c == '.'

/-- Digits and points, and what stands between them and the next ones. -/
structure Piece where
  number : List Char
  unit : List Char

def Piece.text (p : Piece) : List Char :=
  p.number ++ p.unit

/-- A text cut before each run of digits and points. -/
def pieces (s : List Char) : List Piece :=
  match s with
  | [] => []
  | c :: r =>
    let rest := (c :: r).dropWhile isNumeral
    ⟨(c :: r).takeWhile isNumeral, rest.takeWhile (!isNumeral ·)⟩ ::
      pieces (rest.dropWhile (!isNumeral ·))
termination_by s.length
decreasing_by
  have hle : ∀ (p : Char → Bool) (t : List Char), (t.dropWhile p).length ≤ t.length :=
    fun p t => (List.dropWhile_sublist p).length_le
  by_cases hc : isNumeral c = true
  · have h1 := hle (!isNumeral ·) (r.dropWhile isNumeral)
    have h2 := hle isNumeral r
    simp only [List.dropWhile_cons, hc, if_true, List.length_cons]
    omega
  · have h1 := hle (!isNumeral ·) r
    simp only [List.dropWhile_cons, hc, List.length_cons]
    simp only [Bool.not_eq_true] at hc
    simp [hc]
    omega

/-- The units that take a fraction, by their one name. -/
def fractionScale? (name : List Char) : Option Nat :=
  [(['n', 's'], TimeUnit.nanosecond), (['u', 's'], .microsecond), (['m', 's'], .millisecond),
    (['s'], .second), (['m'], .minute), (['h'], .hour)].lookup name |>.map TimeUnit.nanos

/-- Whole nanoseconds, a half away from zero; 64 bits hold at most one less than the bound. -/
def fractionNanos (number unit : List Char) : Except FractionError Nat :=
  let name := trim unit
  match fractionScale? name with
  | none => if name = [] then .error .missingUnit else .error (.unit (String.ofList name))
  | some scale =>
    match Double.read? number with
    | none => .error (.number (String.ofList number))
    | some value =>
      match (value.mul (.ofNat scale)).round? with
      | none => .error .range
      | some n => if (limit : Int) < n then .error .range else .ok (min n.toNat (limit - 1))

/-- A piece without a point stays as it is. -/
def Piece.expand (p : Piece) : Except FractionError (List Char) :=
  if p.number.contains '.' then
    (fractionNanos p.number p.unit).map fun n => digitsOf n ++ ['n', 's', ' ']
  else .ok p.text

/-- Each number with a point becomes whole nanoseconds. -/
def expandFractions (s : List Char) : Except FractionError (List Char) :=
  ((pieces s).mapM Piece.expand).map List.flatten

/-- Both letters for micro are read as `u`. -/
def plainMicro (c : Char) : Char :=
  if c = 'µ' ∨ c = 'μ' then 'u' else c

/-- A duration in blanks: segments after an optional plus, or a zero without a unit. -/
def parse (text : String) : Except DurationError Duration :=
  match trim text.toList with
  | '-' :: _ => .error .negative
  | '+' :: r => unsigned (r.map plainMicro)
  | s => unsigned (s.map plainMicro)
where
  unsigned (s : List Char) : Except DurationError Duration :=
    if s = ['0'] then .ok ⟨0⟩
    else if s.contains '.' then
      match expandFractions s with
      | .ok s => ofSegments s
      | .error e => .error (.fraction e)
    else ofSegments s

end Duration

end EventStream
