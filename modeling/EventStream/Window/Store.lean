import EventStream.Entries
import EventStream.Event.Basic

namespace EventStream

/-- The events of an open window. Topics that came once stay, with an empty list. -/
structure WindowStore where
  /-- Sorted by topic. -/
  buckets : List (String × List Event)

namespace WindowStore

def ofTopics (topics : List String) : WindowStore :=
  ⟨sortedEntries (topics.map fun t => (t, []))⟩

/-- The events of a topic in the order in which they came. -/
def get (s : WindowStore) (topic : String) : List Event :=
  (lookup? s.buckets topic).getD []

def append (s : WindowStore) (e : Event) : WindowStore :=
  ⟨insertSorted e.topic (s.get e.topic ++ [e]) s.buckets⟩

def reset (s : WindowStore) : WindowStore :=
  ⟨s.buckets.map fun (topic, _) => (topic, [])⟩

/-- The contents, and what stays when they are taken. -/
def snapshotAndReset (s : WindowStore) : List (String × List Event) × WindowStore :=
  (s.buckets, s.reset)

/-- A pass over the contents before they are dropped. -/
def flushWith {α : Type} (s : WindowStore) (pass : WindowStore → α) : α × WindowStore :=
  (pass s, s.reset)

def size (s : WindowStore) (topic : String) : Nat :=
  (s.get topic).length

def total (s : WindowStore) : Nat :=
  (s.buckets.flatMap Prod.snd).length

def isEmpty (s : WindowStore) : Bool :=
  s.total == 0

end WindowStore

end EventStream
