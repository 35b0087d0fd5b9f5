import EventStream.Pipeline.Basic
import EventStream.Window.Schedule

namespace EventStream.Pipeline

variable {π σ : Type}

/-- A step that needs no one from outside; without a router payloads stay in the output queue. -/
def step? [Stage π] (router : Option (Router σ)) (now : Instant) (p : Pipeline π σ) :
    Option (Pipeline π σ) :=
  (router.bind p.dispatch?).or (p.send?.or ((p.receive? now).or p.finish?))

/-- How many steps can follow one another: an event is received, sent and dispatched. -/
def work (p : Pipeline π σ) : Nat :=
  3 * p.input.size + (if p.waiting.isSome then 2 else 0) + p.output.size +
    if p.isRunning then 1 else 0

def settleFor [Stage π] (router : Option (Router σ)) (now : Instant) :
    Nat → Pipeline π σ → Pipeline π σ
  | 0, p => p
  | n + 1, p =>
    match p.step? router now with
    | some p => settleFor router now n p
    | none => p

/-- All steps that can be taken. -/
def settle [Stage π] (router : Option (Router σ)) (now : Instant) (p : Pipeline π σ) :
    Pipeline π σ :=
  settleFor router now p.work p

end Pipeline

/-- A pipeline in time. -/
structure Timeline (π σ : Type) where
  pipeline : Pipeline π σ
  now : Instant
  /-- When windows close, if there are windows. -/
  schedule : Option Schedule

namespace Timeline

variable {π σ : Type} [Stage π]

/-- Windows close one after another until a time is reached; none closes while the processor
waits. -/
def advanceFor (router : Option (Router σ)) (limit : Instant) :
    Nat → Schedule → Timeline π σ → Timeline π σ
  | 0, s, t => { t with now := limit, schedule := some s }
  | n + 1, s, t =>
    match t.pipeline.close? with
    | none => { t with now := limit, schedule := some s }
    | some p =>
      if s.wakes ≤ limit then
        let (time, s) := s.tick t.now
        advanceFor router limit n s { t with pipeline := p.settle router 0, now := time }
      else { t with now := limit, schedule := some s }

/-- Nothing is left to do at a time to come. The clock of events stands still meanwhile. -/
def advance (router : Option (Router σ)) (t : Timeline π σ) (limit : Instant) : Timeline π σ :=
  let t := { t with pipeline := t.pipeline.settle router 0 }
  match t.schedule with
  | none => { t with now := limit }
  | some s => advanceFor router limit ((limit - s.due) / s.stride + 2) s t

end Timeline

end EventStream
