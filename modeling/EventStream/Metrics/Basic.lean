import EventStream.Config.Duration
import EventStream.Double.Arithmetic
import EventStream.Double.Decimal
import EventStream.Entries

namespace EventStream

inductive Measurement where
  | received (stream : String)
  | dropped (reason : String) (count : Nat)
  | dispatched (kind : String) (ok : Bool) (took : Duration)
  | windowClosed (outcome : String)
  | pairsMatched (count : Nat)
  | queueDepth (count : Nat)

namespace Count

/-- A count keeps 53 binary digits: a large one may stay as it is when little is added. -/
def add (count n : Nat) : Nat :=
  Double.nearest (count + Double.nearest n 1) 1

/-- Small counts are exact. -/
theorem add_of_lt {count n : Nat} (h : count + n < 9007199254740992) : add count n = count + n := by
  rw [add, Double.nearest_one_of_lt (by omega : n < 9007199254740992),
    Double.nearest_one_of_lt h]

end Count

/-- Counts by the values of labels, sorted by them. -/
abbrev Counts := List (List String × Nat)

namespace Counts

def get (c : Counts) (labels : List String) : Nat :=
  (lookup? c labels).getD 0

/-- A count that was never touched starts from zero, also when nothing is added. -/
def add (c : Counts) (labels : List String) (n : Nat) : Counts :=
  insertSorted labels (Count.add (c.get labels) n) c

end Counts

/-- How values are spread: for each bound how many are not above it. -/
structure Histogram where
  atMost : List Nat
  sum : Double
  count : Nat

namespace Histogram

/-- From a millisecond to ten seconds. -/
def bounds : List Double :=
  ([⟨1, -3⟩, ⟨5, -3⟩, ⟨1, -2⟩, ⟨5, -2⟩, ⟨1, -1⟩, ⟨5, -1⟩, ⟨1, 0⟩, ⟨5, 0⟩, ⟨1, 1⟩] :
    List Decimal).map (Decimal.toDouble false)

def empty : Histogram :=
  ⟨bounds.map fun _ => 0, .zero, 0⟩

def observe (h : Histogram) (v : Double) : Histogram where
  atMost := List.zipWith (fun b n => if v.le b then n + 1 else n) bounds h.atMost
  sum := h.sum.add v
  count := h.count + 1

end Histogram

/-- A duration in seconds: the whole ones and the part of one are rounded each by itself. -/
def Duration.inSeconds (d : Duration) : Double :=
  (Double.ofNat d.seconds).add ((Double.ofNat d.subsecond).div (.ofNat Duration.second))

structure Metrics where
  received : Counts
  dropped : Counts
  dispatched : Counts
  dispatchTimes : List (List String × Histogram)
  windows : Counts
  pairsMatched : Nat
  queueDepth : Nat

namespace Metrics

def empty : Metrics :=
  ⟨[], [], [], [], [], 0, 0⟩

def observe (times : List (List String × Histogram)) (labels : List String) (took : Duration) :
    List (List String × Histogram) :=
  insertSorted labels (((lookup? times labels).getD .empty).observe took.inSeconds) times

def record (m : Metrics) : Measurement → Metrics
  | .received stream => { m with received := m.received.add [stream] 1 }
  | .dropped reason n => { m with dropped := m.dropped.add [reason] n }
  | .dispatched kind ok took =>
    { m with
      dispatched := m.dispatched.add [kind, if ok then "ok" else "error"] 1
      dispatchTimes := observe m.dispatchTimes [kind] took }
  | .windowClosed outcome => { m with windows := m.windows.add [outcome] 1 }
  | .pairsMatched n => { m with pairsMatched := Count.add m.pairsMatched n }
  | .queueDepth n => { m with queueDepth := n }

def recordAll (m : Metrics) (ms : List Measurement) : Metrics :=
  ms.foldl record m

end Metrics

end EventStream
