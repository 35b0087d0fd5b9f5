import EventStream.Output.Transport

namespace EventStream

/-- Each dispatch is written as a line. -/
structure Lines where
  written : String
  /-- Dispatches are counted in 64 bits. -/
  counter : UInt64

namespace Lines

def empty : Lines :=
  ⟨"", 0⟩

def count (s : Lines) : Nat :=
  s.counter.toNat

def line (d : Dispatch) : String :=
  d.kind.name ++ " " ++ d.target.display ++ " " ++ d.payload.body.lossyText

def send (s : Lines) (d : Dispatch) : Except TransportError Unit × Lines :=
  (.ok (), ⟨s.written ++ line d ++ "\n", s.counter + 1⟩)

def transport : Transport Lines :=
  ⟨"stdout", send⟩

end Lines

end EventStream
