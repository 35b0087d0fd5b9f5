import EventStream.Double.Layout
import EventStream.Metrics.Basic

namespace EventStream

inductive Sample where
  | value (n : Nat)
  | histogram (h : Histogram)

inductive FamilyKind where
  | counter
  | gauge
  | histogram

def FamilyKind.name : FamilyKind → String
  | .counter => "counter"
  | .gauge => "gauge"
  | .histogram => "histogram"

/-- Samples of one name, each with values of the same labels. -/
structure Family where
  name : String
  help : String
  kind : FamilyKind
  labels : List String
  samples : List (List String × Sample)

namespace Metrics

def countSamples (c : Counts) : List (List String × Sample) :=
  c.map fun (labels, n) => (labels, .value n)

/-- Families by name, without those that have no sample. -/
def families (m : Metrics) : List Family :=
  [⟨"rivulet_dispatch_duration_seconds", "Time spent in a single publish or invoke", .histogram,
      ["kind"], m.dispatchTimes.map fun (labels, h) => (labels, .histogram h)⟩,
    ⟨"rivulet_dispatch_total", "Total output dispatch attempts", .counter, ["kind", "outcome"],
      countSamples m.dispatched⟩,
    ⟨"rivulet_events_dropped_total", "Total events or pairs dropped", .counter, ["reason"],
      countSamples m.dropped⟩,
    ⟨"rivulet_events_received_total", "Total events accepted for processing", .counter, ["stream"],
      countSamples m.received⟩,
    ⟨"rivulet_input_queue_depth", "Events waiting in the input queue", .gauge, [],
      [([], .value m.queueDepth)]⟩,
    ⟨"rivulet_join_pairs_matched_total", "Total event pairs that passed the join filter", .counter,
      [], [([], .value m.pairsMatched)]⟩,
    ⟨"rivulet_windows_total", "Total join windows closed", .counter, ["outcome"],
      countSamples m.windows⟩].filter fun f => !f.samples.isEmpty

end Metrics

namespace Exposition

def escapeChar (c : Char) : List Char :=
  if c = '\\' then ['\\', '\\']
  else if c = '"' then ['\\', '"']
  else if c = '\n' then ['\\', 'n']
  else [c]

def label (name value : String) : String :=
  name ++ "=\"" ++ String.ofList (value.toList.flatMap escapeChar) ++ "\""

def line (name : String) (labels : List String) (value : Double) : String :=
  let inBraces := if labels = [] then "" else "\x7b" ++ ",".intercalate labels ++ "\x7d"
  name ++ inBraces ++ " " ++ value.text ++ "\n"

/-- A line for each bound, the last one without end, then the sum and the count. -/
def histogram (name : String) (labels : List String) (h : Histogram) : String :=
  let bucket := fun (bound : String) n =>
    line (name ++ "_bucket") (labels ++ [label "le" bound]) (.ofNat n)
  String.join (List.zipWith (fun b n => bucket b.text n) Histogram.bounds h.atMost) ++
    bucket "+Inf" h.count ++ line (name ++ "_sum") labels h.sum ++
    line (name ++ "_count") labels (.ofNat h.count)

def sample (f : Family) (values : List String) (s : Sample) : String :=
  let labels := List.zipWith label f.labels values
  match s with
  | .value n => line f.name labels (.ofNat n)
  | .histogram h => histogram f.name labels h

def family (f : Family) : String :=
  "# HELP " ++ f.name ++ " " ++ f.help ++ "\n# TYPE " ++ f.name ++ " " ++ f.kind.name ++ "\n" ++
    String.join (f.samples.map fun (values, s) => sample f values s)

end Exposition

def Metrics.text (m : Metrics) : String :=
  String.join (m.families.map Exposition.family)

end EventStream
