import EventStream.Text.Numeral

namespace EventStream

/-- The parts of a text between blanks and line ends. -/
def words (s : List Char) : List (List Char) :=
  (s.splitOnP fun c => c = ' ' || c = '\n').filter (· ≠ [])

/-- A run goes from its first code point to the one before its second. -/
structure CharRuns where
  runs : List (Nat × Nat)

namespace CharRuns

def contains (s : CharRuns) (c : Char) : Bool :=
  s.runs.any fun (first, next) => first ≤ c.toNat && c.toNat < next

/-- Counts by turns: how many code points are out, and how many in. -/
def runsFrom (n : Nat) : List Nat → List (Nat × Nat)
  | out :: inside :: r => (n + out, n + out + inside) :: runsFrom (n + out + inside) r
  | _ => []

def ofCounts (table : String) : CharRuns :=
  ⟨runsFrom 0 ((words table.toList).map ofDigits)⟩

end CharRuns

end EventStream
