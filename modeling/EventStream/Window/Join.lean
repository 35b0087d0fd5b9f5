import EventStream.Config.Joiner
import EventStream.Processor.Expression
import EventStream.Window.Store

namespace EventStream

/-- A topic and the variable that holds its events. -/
structure JoinSide where
  topic : String
  binding : String

structure JoinEngine where
  left : JoinSide
  right : JoinSide
  filter : Option Program
  select : Option Program
  /-- Without a filter, whether no pair or every pair matches. -/
  requireFilter : Bool

/-- The objects among the events of a topic, with their values, and how many are none. -/
structure Valid where
  events : List (Event × Value)
  invalid : Nat

def Valid.ofEvents : List Event → Valid
  | [] => ⟨[], 0⟩
  | e :: r =>
    let rest := ofEvents r
    match e.value with
    | .ok v => { rest with events := (e, v) :: rest.events }
    | .error _ => { rest with invalid := rest.invalid + 1 }

/-- What a window yields, and for what reasons events and pairs were dropped. -/
structure Joined where
  result : Except EmptyWindow JoinOutput
  dropped : List String

/-- What has come of the pairs so far, the latest first: entries, and the reasons of those that
failed. -/
structure Pass where
  entries : List Bytes
  failures : List String

namespace Pass

def start : Pass :=
  ⟨[], []⟩

/-- A pair that fails does not stop the others. -/
def add (p : Pass) : Except ProcessorError (Option Bytes) → Pass
  | .ok (some entry) => { p with entries := entry :: p.entries }
  | .ok none => p
  | .error e => { p with failures := e.reason :: p.failures }

end Pass

namespace JoinEngine

def ofConfig (c : JoinerConfig) : Except ProcessorError JoinEngine := do
  let left : JoinSide := ⟨c.left.topic, c.left.binding⟩
  let right : JoinSide := ⟨c.right.topic, c.right.binding⟩
  let filter ← Role.filter.compile [left.binding, right.binding] c.filter
  let select ← Role.select.compile [left.binding, right.binding] c.select
  .ok ⟨left, right, filter, select, c.requireFilter⟩

def topics (j : JoinEngine) : List String :=
  [j.left.topic, j.right.topic]

def bindings (j : JoinEngine) (a b : Value) : Bindings :=
  (Bindings.empty.insert j.left.binding a).insert j.right.binding b

def accepts (j : JoinEngine) (b : Bindings) : Except ProcessorError Bool :=
  match j.filter with
  | none => .ok true
  | some filter => filter.holds b

/-- The entry of a pair, if the filter lets it pass. -/
def entry (j : JoinEngine) (a b : Event × Value) : Except ProcessorError (Option Bytes) := do
  let values := j.bindings a.2 b.2
  if ← j.accepts values then
    match j.select with
    | none => .ok (some (pairObject j.left.topic a.1.payload j.right.topic b.1.payload))
    | some select => (select.selected values).map some
  else .ok none

/-- Goes through all pairs, those of the first event of the left side first. -/
def pass (j : JoinEngine) (left right : List (Event × Value)) : Pass :=
  left.foldl (fun p a => right.foldl (fun p b => p.add (j.entry a b)) p) .start

def invalidEvents (n : Nat) : List String :=
  List.replicate n (ProcessorError.event .invalidJson).reason

/-- The pairs of two sides that both have events. -/
def joinPairs (j : JoinEngine) (left right : Valid) : Joined :=
  let pass := j.pass left.events right.events
  let candidates := left.events.length * right.events.length
  let dropped := invalidEvents (left.invalid + right.invalid) ++ pass.failures.reverse
  if pass.entries.isEmpty then ⟨.error (.noMatches candidates), dropped⟩
  else
    ⟨.ok ⟨⟨jsonArray pass.entries.reverse⟩, pass.entries.length, candidates,
      left.invalid + right.invalid + pass.failures.length⟩, dropped⟩

/-- Events of other topics do not matter. The right side is not looked at when the left one has
nothing to join. -/
def join (j : JoinEngine) (s : WindowStore) : Joined :=
  let left := Valid.ofEvents (s.get j.left.topic)
  let right := Valid.ofEvents (s.get j.right.topic)
  let candidates := left.events.length * right.events.length
  if left.events.isEmpty then ⟨.error (.emptyBucket j.left.topic), invalidEvents left.invalid⟩
  else if right.events.isEmpty then
    ⟨.error (.emptyBucket j.right.topic), invalidEvents (left.invalid + right.invalid)⟩
  else if j.filter.isNone ∧ j.requireFilter then
    ⟨.error (.noMatches candidates), invalidEvents (left.invalid + right.invalid)⟩
  else j.joinPairs left right

end JoinEngine

end EventStream
