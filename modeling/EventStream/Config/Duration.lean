import EventStream.Text.Blank
import EventStream.Text.Numeral
import EventStream.Text.Size

namespace EventStream

/-- A length of time in nanoseconds. -/
structure Duration where
  nanos : Nat
  deriving DecidableEq

namespace Duration

def second : Nat := 1000000000

def seconds (d : Duration) : Nat :=
  d.nanos / second

/-- The nanoseconds past the last whole second. -/
def subsecond (d : Duration) : Nat :=
  d.nanos % second

def ofSeconds (n : Nat) : Duration :=
  ⟨n * second⟩

end Duration

inductive TimeUnit where
  | nanosecond
  | microsecond
  | millisecond
  | second
  | minute
  | hour
  | day
  | week
  | month
  | year
  deriving DecidableEq

namespace TimeUnit

def names : TimeUnit → List String
  | .nanosecond => ["nanos", "nsec", "ns"]
  | .microsecond => ["usec", "us"]
  | .millisecond => ["millis", "msec", "ms"]
  | .second => ["seconds", "second", "secs", "sec", "s"]
  | .minute => ["minutes", "minute", "min", "mins", "m"]
  | .hour => ["hours", "hour", "hr", "hrs", "h"]
  | .day => ["days", "day", "d"]
  | .week => ["weeks", "week", "wk", "wks", "w"]
  | .month => ["months", "month", "M"]
  | .year => ["years", "year", "yr", "yrs", "y"]

def all : List TimeUnit :=
  [.nanosecond, .microsecond, .millisecond, .second, .minute, .hour, .day, .week, .month, .year]

def ofName? (s : String) : Option TimeUnit :=
  all.find? fun u => u.names.contains s

def isBelowSecond : TimeUnit → Bool
  | .nanosecond | .microsecond | .millisecond => true
  | _ => false

/-- A month is 30.44 days and a year 365.25 days. -/
def nanos : TimeUnit → Nat
  | .nanosecond => 1
  | .microsecond => 1000
  | .millisecond => 1000000
  | .second => Duration.second
  | .minute => 60 * Duration.second
  | .hour => 3600 * Duration.second
  | .day => 86400 * Duration.second
  | .week => 604800 * Duration.second
  | .month => 2630016 * Duration.second
  | .year => 31557600 * Duration.second

end TimeUnit

/-- Why a number with a fraction is refused. -/
inductive FractionError where
  | missingUnit
  | unit (name : String)
  | number (text : String)
  | range

def FractionError.message : FractionError → String
  | .missingUnit => "missing unit"
  | .unit u => "unit '" ++ u ++ "' does not take a fraction"
  | .number n => "bad number '" ++ n ++ "'"
  | .range => "out of range"

inductive DurationError where
  | negative
  | empty
  | numberExpected (byte : Nat)
  | invalidCharacter (byte : Nat)
  | unitNeeded (number : Nat)
  | unknownUnit (name : String)
  | tooLarge
  | fraction (e : FractionError)

def DurationError.message (text : String) : DurationError → String
  | .negative => "'" ++ text ++ "' is negative"
  | .empty => "'" ++ text ++ "': value was empty"
  | .numberExpected n => "'" ++ text ++ "': expected number at " ++ n.repr
  | .invalidCharacter n => "'" ++ text ++ "': invalid character at " ++ n.repr
  | .unitNeeded n =>
    "'" ++ text ++ "': time unit needed, for example " ++ n.repr ++ "sec or " ++ n.repr ++ "ms"
  | .unknownUnit u =>
    "'" ++ text ++ "': unknown time unit \"" ++ u ++ "\", supported units: ns, us/µs, ms, sec, " ++
      "min, hours, days, weeks, months, years (and few variations)"
  | .tooLarge =>
    "'" ++ text ++ "': number is too large or cannot be represented without a lack of precision " ++
      "(values below 1ns are not supported)"
  | .fraction e => "'" ++ text ++ "': " ++ e.message

namespace Duration

/-- Numbers, their products with the unit and sums are counted in 64 bits. -/
def limit : Nat := 18446744073709551616

/-- Adds a number of units: short ones to the nanoseconds past the second, long ones to the
seconds. -/
def add? (total : Duration) (n : Nat) (u : TimeUnit) : Option Duration :=
  let sum := total.nanos + n * u.nanos
  let fits :=
    if u.isBelowSecond then total.subsecond + n * u.nanos < limit
    else n * u.nanos < limit * second
  if fits ∧ sum / second < limit then some ⟨sum⟩ else none

/-- Blanks may stand between the digits of a number. -/
def inNumber (c : Char) : Bool :=
  c.isDigit || isBlank c

/-- The unit at the front of a text that starts at a byte, after its number. -/
def unitAt (number byte : Nat) (s : List Char) : Except DurationError TimeUnit :=
  let name := s.takeWhile Char.isAlpha
  match s.dropWhile Char.isAlpha with
  | [] => known name
  | c :: _ => if inNumber c then known name else .error (.invalidCharacter (byte + byteSize name))
where
  known (name : List Char) : Except DurationError TimeUnit :=
    if name = [] then .error (.unitNeeded number)
    else
      match TimeUnit.ofName? (String.ofList name) with
      | some u => .ok u
      | none => .error (.unknownUnit (String.ofList name))

/-- What follows a unit; one blank after it belongs to it. -/
def afterUnit (s : List Char) : List Char :=
  match s.dropWhile Char.isAlpha with
  | [] => []
  | c :: r => if isBlank c then r else c :: r

theorem afterUnit_length_le (s : List Char) : (afterUnit s).length ≤ s.length := by
  have h : (s.dropWhile Char.isAlpha).length ≤ s.length := (List.dropWhile_sublist _).length_le
  unfold afterUnit
  split
  · simp
  · next c r heq =>
    rw [heq] at h
    simp only [List.length_cons] at h
    split
    · omega
    · simpa using h

/-- Adds the segments of a text that starts at a byte. -/
def addSegments (total : Duration) (byte : Nat) (s : List Char) : Except DurationError Duration :=
  match _h : s.dropWhile isBlank with
  | [] => .ok total
  | c :: r =>
    if c.isDigit then
      let number := c :: r.takeWhile inNumber
      let rest := r.dropWhile inNumber
      let start := byte + byteSize (s.takeWhile isBlank) + byteSize number
      let n := ofDigits (number.filter Char.isDigit)
      if limit ≤ n then .error .tooLarge
      else
        match unitAt n start rest with
        | .error e => .error e
        | .ok u =>
          match total.add? n u with
          | none => .error .tooLarge
          | some sum =>
            addSegments sum (start + (byteSize rest - byteSize (afterUnit rest))) (afterUnit rest)
    else .error (.numberExpected byte)
termination_by s.length
decreasing_by
  have h1 : (s.dropWhile isBlank).length ≤ s.length := (List.dropWhile_sublist _).length_le
  have h2 : (r.dropWhile inNumber).length ≤ r.length := (List.dropWhile_sublist _).length_le
  have h3 := afterUnit_length_le (r.dropWhile inNumber)
  rw [_h] at h1
  simp only [List.length_cons] at h1
  omega

/-- A text of segments, at least one. -/
def ofSegments (s : List Char) : Except DurationError Duration :=
  if s.all isBlank then .error .empty else addSegments ⟨0⟩ 0 s

end Duration

end EventStream
