import EventStream.HostName.Folding
import EventStream.HostName.Joining
import EventStream.HostName.Punycode

namespace EventStream.HostName

/-- Characters that stand for nothing else, as those of a label written in ASCII have to. -/
def isSettled (c : Char) : Bool :=
  c.toNat < 0x80 || !(refused.contains c || variants.contains c)

def longestPunycode : Nat := 2000

/-- The characters of a label that may be written in ASCII. -/
def readLabel? : List Char → Option (List Char)
  | 'x' :: 'n' :: '-' :: '-' :: code =>
    if code.length ≤ longestPunycode then (Punycode.decode? code).filter (·.all isSettled) else none
  | label => some label

/-- No more characters of a label can be written in ASCII. -/
def longestLabel : Nat := 1000

def isLabel (label : List Char) : Bool :=
  !(label.head?.any isMark) && joinersFit [] label &&
    (label.all (·.toNat < 0x80) || label.length ≤ longestLabel)

/-- Where one character turns the direction, all labels have to be in order. -/
def areLabels (labels : List (List Char)) : Bool :=
  labels.all isLabel && (!(labels.any (·.any turns)) || labels.all isOrdered)

/-- The name that a text stands for, if it is one. -/
def ofText? (s : List Char) : Option (List Char) :=
  ((s.mapM fold?).map List.flatten).filter fun name =>
    name ≠ [] && (((name.splitOn '.').mapM readLabel?).any areLabels)

end EventStream.HostName
