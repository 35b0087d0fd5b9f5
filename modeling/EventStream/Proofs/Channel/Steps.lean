import EventStream.Processor.Stage
import EventStream.Proofs.Traversal

namespace EventStream

namespace Gate

/-- What a trigger sees when one more payload is offered. -/
def seen (g : Gate) (now : Instant) : Bindings :=
  Bindings.empty.insert "trigger" (state (g.pending.length + 1) (g.since.getD now) now)

theorem fires_seen (g : Gate) (trigger : Program) (now : Instant) :
    fires trigger (g.pending.length + 1) (g.since.getD now) now =
      ((trigger.evaluate (g.seen now)).mapError .eval >>= fun v => v.bool?.mapError .typeMismatch) :=
  rfl

theorem offer_cases {g : Gate} {trigger : Program} (ht : g.trigger = some trigger)
    (payload : Bytes) (now : Instant) :
    (trigger.evaluate (g.seen now) = .ok (.bool true) ∧
      g.offer payload now =
        .ok (some (jsonArray (g.pending ++ [payload])), .ofTrigger (some trigger))) ∨
    (trigger.evaluate (g.seen now) = .ok (.bool false) ∧
      g.offer payload now =
        .ok (none, ⟨some trigger, g.pending ++ [payload], some (g.since.getD now)⟩)) ∨
    (∃ err, trigger.evaluate (g.seen now) = .error err ∧
      g.offer payload now = .error (.eval err)) ∨
    ∃ v, trigger.evaluate (g.seen now) = .ok v ∧ v.type ≠ .bool ∧
      g.offer payload now = .error (.typeMismatch ⟨.bool, v.type⟩) := by
  unfold offer
  rw [ht]
  dsimp only
  rw [fires_seen]
  cases trigger.evaluate (g.seen now) with
  | error err => exact .inr (.inr (.inl ⟨err, rfl, rfl⟩))
  | ok v =>
    cases v with
    | bool b =>
      cases b with
      | true => exact .inl ⟨rfl, rfl⟩
      | false => exact .inr (.inl ⟨rfl, rfl⟩)
    | null | int | double | string | list | map =>
      exact .inr (.inr (.inr ⟨_, rfl, by simp [Value.type], rfl⟩))

def releaseInPlace : StateM Gate Bytes := do
  modify fun g => { g with since := none }
  let g ← get
  set { g with pending := [] }
  return jsonArray g.pending

/-- The writes of an offer, one after another, once it is known whether the trigger holds. -/
def enterInPlace (payload : Bytes) (since : Instant) (verdict : Except ProcessorError Bool) :
    ExceptT ProcessorError (StateM Gate) (Option Bytes) := do
  let fire ← MonadExcept.ofExcept verdict
  modify fun g => { g with since := some since }
  modify fun g => { g with pending := g.pending ++ [payload] }
  if fire then
    return some (← releaseInPlace)
  else
    return none

/-- An offer to a gate that is changed in place, so that a failure leaves what was written before
it. -/
def offerInPlace (payload : Bytes) (now : Instant) :
    ExceptT ProcessorError (StateM Gate) (Option Bytes) := do
  let g ← get
  match g.trigger with
  | none => return some payload
  | some trigger =>
    let since := g.since.getD now
    enterInPlace payload since (fires trigger (g.pending.length + 1) since now)

/-- The gate after an offer, of which a failure leaves it as it was. -/
def afterOffer (g : Gate) (payload : Bytes) (now : Instant) : Gate :=
  ((g.offer payload now).toOption.map Prod.snd).getD g

theorem offerInPlace_run (g : Gate) (payload : Bytes) (now : Instant) :
    (offerInPlace payload now).run g =
      ((g.offer payload now).map Prod.fst, g.afterOffer payload now) := by
  obtain ⟨_ | trigger, pending, since⟩ := g
  · rfl
  · -- the trigger is asked before the first write
    have henter : (offerInPlace payload now).run ⟨some trigger, pending, since⟩ =
        (enterInPlace payload (since.getD now)
          (fires trigger (pending.length + 1) (since.getD now) now)).run
            ⟨some trigger, pending, since⟩ := rfl
    rw [henter]
    unfold afterOffer offer
    dsimp only
    cases fires trigger (pending.length + 1) (since.getD now) now with
    | error e => rfl
    | ok b => cases b <;> rfl

end Gate

namespace Channel

/-- The gate is written back whatever came of the offer. -/
def leaveInPlace (offered : Except ProcessorError (Option Bytes) × Gate) :
    ExceptT ProcessorError (StateM Channel) Outcome := do
  modify fun c => { c with gate := some offered.2 }
  match ← MonadExcept.ofExcept offered.1 with
  | some body => return .emit ⟨body⟩
  | none => return .held

def passInPlace (payload : Bytes) (now : Instant) :
    ExceptT ProcessorError (StateM Channel) Outcome := do
  match (← get).gate with
  | none => return .emit ⟨payload⟩
  | some gate => leaveInPlace ((Gate.offerInPlace payload now).run gate)

def collectInPlace (wanted : Except ProcessorError Bool) (payload : Except ProcessorError Bytes)
    (now : Instant) : ExceptT ProcessorError (StateM Channel) Outcome := do
  if ← MonadExcept.ofExcept wanted then
    passInPlace (← MonadExcept.ofExcept payload) now
  else
    return .filtered

/-- An event to a channel that is changed in place, so that a failure leaves what was written before
it. -/
def processInPlace (e : Event) (now : Instant) : ExceptT ProcessorError (StateM Channel) Outcome := do
  let c ← get
  collectInPlace (c.shouldCollect e) (c.collect e) now

theorem run_get {σ ε α : Type} (f : σ → ExceptT ε (StateM σ) α) (s : σ) :
    (get >>= f).run s = (f s).run s :=
  rfl

theorem passInPlace_run (c : Channel) (payload : Bytes) (now : Instant) :
    (passInPlace payload now).run c =
      ((c.pass payload now).map fun passed => passed.1.elim .held fun body => .emit ⟨body⟩,
        ((c.pass payload now).toOption.map Prod.snd).getD c) := by
  obtain ⟨binding, filter, select, _ | gate⟩ := c
  · rfl
  · have hleave : (passInPlace payload now).run ⟨binding, filter, select, some gate⟩ =
        (leaveInPlace ((Gate.offerInPlace payload now).run gate)).run
          ⟨binding, filter, select, some gate⟩ := rfl
    rw [hleave, Gate.offerInPlace_run]
    unfold Gate.afterOffer pass
    dsimp only
    cases gate.offer payload now with
    | error err => rfl
    | ok result => obtain ⟨_ | body, next⟩ := result <;> rfl

def waiting (c : Channel) : List Bytes :=
  (c.gate.map Gate.pending).getD []

theorem pending_eq (c : Channel) : c.pending = c.waiting.length := by
  unfold pending waiting
  cases c.gate <;> rfl

def trigger? (c : Channel) : Option Program :=
  c.gate.bind Gate.trigger

/-- Channels that differ only in what waits. -/
structure Alike (c d : Channel) : Prop where
  binding : d.binding = c.binding
  filter : d.filter = c.filter
  select : d.select = c.select
  trigger : d.trigger? = c.trigger?

theorem Alike.refl (c : Channel) : Alike c c :=
  ⟨rfl, rfl, rfl, rfl⟩

theorem Alike.trans {b c d : Channel} (h : Alike b c) (k : Alike c d) : Alike b d :=
  ⟨k.binding.trans h.binding, k.filter.trans h.filter, k.select.trans h.select,
    k.trigger.trans h.trigger⟩

theorem Alike.collect {c d : Channel} (h : Alike c d) (e : Event) : d.collect e = c.collect e := by
  unfold Channel.collect bindings
  rw [h.select, h.binding]

theorem pass_cases (c : Channel) (payload : Bytes) (now : Instant) :
    (c.trigger? = none ∧ c.pass payload now = .ok (some payload, c)) ∨
    (c.trigger? ≠ none ∧ ∃ next, Alike c next ∧ next.waiting = [] ∧
      c.pass payload now = .ok (some (jsonArray (c.waiting ++ [payload])), next)) ∨
    (c.trigger? ≠ none ∧ ∃ next, Alike c next ∧ next.waiting = c.waiting ++ [payload] ∧
      c.pass payload now = .ok (none, next)) ∨
    ∃ err, c.pass payload now = .error err := by
  obtain ⟨binding, filter, select, _ | ⟨_ | trigger, pending, since⟩⟩ := c
  · exact .inl ⟨rfl, rfl⟩
  · exact .inl ⟨rfl, rfl⟩
  · unfold pass
    dsimp only
    rcases Gate.offer_cases (g := ⟨some trigger, pending, since⟩) rfl payload now with
      ⟨_, h⟩ | ⟨_, h⟩ | ⟨_, _, h⟩ | ⟨_, _, _, h⟩
    · rw [h]
      exact .inr (.inl ⟨nofun, ⟨binding, filter, select, some (.ofTrigger (some trigger))⟩,
        ⟨rfl, rfl, rfl, rfl⟩, rfl, rfl⟩)
    · rw [h]
      exact .inr (.inr (.inl ⟨nofun, ⟨binding, filter, select,
        some ⟨some trigger, pending ++ [payload], some (since.getD now)⟩⟩, ⟨rfl, rfl, rfl, rfl⟩, rfl, rfl⟩))
    · rw [h]
      exact .inr (.inr (.inr ⟨_, rfl⟩))
    · rw [h]
      exact .inr (.inr (.inr ⟨_, rfl⟩))

theorem process_cases (c : Channel) (e : Event) (now : Instant) :
    (∃ err, c.process e now = .error err ∧ (processInPlace e now).run c = (.error err, c)) ∨
    (c.process e now = .ok (.filtered, c) ∧ (processInPlace e now).run c = (.ok .filtered, c)) ∨
    ∃ payload, c.collect e = .ok payload ∧
      c.process e now = ((c.pass payload now).map fun passed =>
        (passed.1.elim .held fun body => .emit ⟨body⟩, passed.2)) ∧
      (processInPlace e now).run c = (passInPlace payload now).run c := by
  -- left to `rfl`, both sides would be evaluated down to the reading of the payload
  have hcollect : (processInPlace e now).run c =
      (collectInPlace (c.shouldCollect e) (c.collect e) now).run c :=
    run_get (fun c => collectInPlace (c.shouldCollect e) (c.collect e) now) c
  rw [hcollect]
  unfold process
  cases c.shouldCollect e with
  | error err => exact .inl ⟨err, rfl, rfl⟩
  | ok wanted =>
    cases wanted with
    | false => exact .inr (.inl ⟨rfl, rfl⟩)
    | true =>
      cases c.collect e with
      | error err => exact .inl ⟨err, rfl, rfl⟩
      | ok payload =>
        refine .inr (.inr ⟨payload, rfl, ?_, rfl⟩)
        change c.pass payload now >>= _ = _
        cases c.pass payload now with
        | error err => rfl
        | ok passed => obtain ⟨_ | body, next⟩ := passed <;> rfl

theorem react_next (c : Channel) (e : Event) (now : Instant) :
    (c.react e now).next = ((c.process e now).toOption.map Prod.snd).getD c := by
  unfold react
  cases c.process e now with
  | error err => rfl
  | ok result => obtain ⟨_ | _, next⟩ := result <;> rfl

theorem processInPlace_run (c : Channel) (e : Event) (now : Instant) :
    (processInPlace e now).run c = ((c.process e now).map Prod.fst, (c.react e now).next) := by
  rw [react_next]
  rcases process_cases c e now with ⟨err, hr, hi⟩ | ⟨hr, hi⟩ | ⟨payload, _, hr, hi⟩
  · rw [hr, hi]
    rfl
  · rw [hr, hi]
    rfl
  · rw [hr, hi, passInPlace_run]
    cases c.pass payload now <;> rfl

end Channel

end EventStream
