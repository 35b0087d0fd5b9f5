import EventStream.Proofs.Channel.Batches
import EventStream.Proofs.Channel.Steps

namespace EventStream

namespace Channel

def history (c : Channel) :
    List (Event × Instant) → List ((Event × Instant) × Except ProcessorError Outcome) × Channel
  | [] => ([], c)
  | (e, now) :: events =>
    let (results, last) := (c.react e now).next.history events
    (((e, now), (c.process e now).map Prod.fst) :: results, last)

theorem history_cons (c : Channel) (e : Event) (now : Instant) (events : List (Event × Instant)) :
    c.history ((e, now) :: events) =
      (((e, now), (c.process e now).map Prod.fst) :: ((c.react e now).next.history events).1,
        ((c.react e now).next.history events).2) :=
  rfl

theorem history_concat (c : Channel) (events : List (Event × Instant)) (e : Event) (now : Instant) :
    c.history (events ++ [(e, now)]) =
      ((c.history events).1 ++ [((e, now), ((c.history events).2.process e now).map Prod.fst)],
        ((c.history events).2.react e now).next) := by
  induction events generalizing c with
  | nil => rfl
  | cons first events ih =>
    obtain ⟨f, time⟩ := first
    rw [List.cons_append, history_cons, ih, history_cons, List.cons_append]

theorem history_map_fst (c : Channel) (events : List (Event × Instant)) :
    (c.history events).1.map Prod.fst = events := by
  induction events generalizing c with
  | nil => rfl
  | cons first events ih =>
    obtain ⟨f, time⟩ := first
    rw [history_cons, List.map_cons, ih]

def isFiltered : Except ProcessorError Outcome → Bool
  | .ok .filtered => true
  | .ok (.emit _) => false
  | .ok .held => false
  | .error _ => false

def isFailed : Except ProcessorError Outcome → Bool
  | .ok _ => false
  | .error _ => true

/-- A result that says that an event was not taken in. -/
def isLost (result : Except ProcessorError Outcome) : Bool :=
  isFailed result || isFiltered result

/-- An event that was taken in, with what went out for it. -/
def accepted? : (Event × Instant) × Except ProcessorError Outcome → Option (Event × Option Envelope)
  | ((e, _), .ok (.emit payload)) => some (e, some payload)
  | ((e, _), .ok .held) => some (e, none)
  | (_, .ok .filtered) => none
  | (_, .error _) => none

def accepted (log : List ((Event × Instant) × Except ProcessorError Outcome)) :
    List (Event × Option Envelope) :=
  log.filterMap accepted?

theorem accepted_concat (log : List ((Event × Instant) × Except ProcessorError Outcome))
    (entry : (Event × Instant) × Except ProcessorError Outcome) :
    accepted (log ++ [entry]) = accepted log ++ (accepted? entry).toList := by
  unfold accepted
  rw [List.filterMap_append]
  cases h : accepted? entry <;> simp [h]

/-- Each event fails, is filtered or is taken in. -/
theorem length_eq (log : List ((Event × Instant) × Except ProcessorError Outcome)) :
    log.length = log.countP (fun entry => isFailed entry.2) +
      log.countP (fun entry => isFiltered entry.2) + (accepted log).length := by
  induction log using List.reverseRecOn with
  | nil => rfl
  | append_singleton log entry ih =>
    have hone : (if isFailed entry.2 then 1 else 0) + (if isFiltered entry.2 then 1 else 0) +
        (accepted? entry).toList.length = 1 := by
      obtain ⟨_, (_ | (_ | _ | _))⟩ := entry <;> rfl
    rw [accepted_concat, List.length_append, List.length_append, List.countP_append,
      List.countP_append, List.countP_singleton, List.countP_singleton, List.length_singleton]
    omega

def Contains (c : Channel) (envelope : Envelope) (payloads : List Bytes) : Prop :=
  (c.trigger? = none → payloads = [envelope.body]) ∧
    (c.trigger? ≠ none → payloads ≠ [] ∧ envelope.body = jsonArray payloads)

/-- What the events of a channel are divided into: those in payloads that went out and those whose
payloads wait. -/
structure Divides (c : Channel) (b : Batches Event Envelope) (last : Channel) : Prop where
  alike : Alike c last
  idle : c.trigger? = none → last.waiting = []
  waiting : List.Forall₂ (fun e payload => c.collect e = .ok payload) b.waiting last.waiting
  out : ∀ batch ∈ b.out, ∃ payloads,
    List.Forall₂ (fun e payload => c.collect e = .ok payload) batch.1 payloads ∧
      c.Contains batch.2 payloads

variable {c last next : Channel} {b : Batches Event Envelope} {e : Event} {payload : Bytes}

theorem Divides.emit (h : Divides c b last) {envelope : Envelope}
    (hp : c.collect e = .ok payload) (ha : Alike last next) (hw : next.waiting = [])
    (hc : c.Contains envelope (last.waiting ++ [payload])) :
    Divides c (b.add (e, some envelope)) next := by
  refine ⟨h.alike.trans ha, fun _ => hw, hw.symm ▸ .nil, fun batch hb => ?_⟩
  rcases List.mem_append.mp hb with hb | hb
  · exact h.out batch hb
  · rw [List.mem_singleton.mp hb]
    exact ⟨_, List.rel_append h.waiting (.cons hp .nil), hc⟩

theorem Divides.hold (h : Divides c b last) (hp : c.collect e = .ok payload) (ha : Alike last next)
    (hw : next.waiting = last.waiting ++ [payload]) (ht : c.trigger? ≠ none) :
    Divides c (b.add (e, none)) next :=
  ⟨h.alike.trans ha, fun hn => absurd hn ht, hw.symm ▸ List.rel_append h.waiting (.cons hp .nil),
    h.out⟩

theorem Divides.react {log : List ((Event × Instant) × Except ProcessorError Outcome)}
    (h : Divides c (.ofLog (accepted log)) last) (e : Event) (now : Instant) :
    Divides c
      (.ofLog (accepted (log ++ [((e, now), (last.process e now).map Prod.fst)])))
      (last.react e now).next := by
  rw [accepted_concat, react_next]
  have lost : Divides c (.ofLog (accepted log ++ [])) last := by
    rw [List.append_nil]
    exact h
  rcases process_cases last e now with ⟨err, hr, _⟩ | ⟨hr, _⟩ | ⟨payload, hp, hr, _⟩
  · rw [hr]
    exact lost
  · rw [hr]
    exact lost
  rw [hr]
  have hcollect : c.collect e = .ok payload := (h.alike.collect e).symm.trans hp
  have htrigger := h.alike.trigger
  rcases pass_cases last payload now with
    ⟨ht, ho⟩ | ⟨ht, next, ha, hw, ho⟩ | ⟨ht, next, ha, hw, ho⟩ | ⟨err, ho⟩
  · rw [ho]
    have hn : c.trigger? = none := htrigger.symm.trans ht
    have hi := h.idle hn
    -- nothing waits here, so that the batch is this event alone
    have hc : c.Contains ⟨payload⟩ (last.waiting ++ [payload]) := by
      rw [hi]
      exact ⟨fun _ => rfl, fun h => absurd hn h⟩
    change Divides c (.ofLog (accepted log ++ [(e, some ⟨payload⟩)])) last
    rw [Batches.ofLog_concat]
    exact h.emit hcollect (.refl last) hi hc
  · rw [ho]
    have hc : c.Contains ⟨jsonArray (last.waiting ++ [payload])⟩ (last.waiting ++ [payload]) :=
      ⟨fun hn => absurd (htrigger.trans hn) ht, fun _ => ⟨by simp, rfl⟩⟩
    change Divides c
      (.ofLog (accepted log ++ [(e, some ⟨jsonArray (last.waiting ++ [payload])⟩)])) next
    rw [Batches.ofLog_concat]
    exact h.emit hcollect ha hw hc
  · rw [ho]
    change Divides c (.ofLog (accepted log ++ [(e, none)])) next
    rw [Batches.ofLog_concat]
    exact h.hold hcollect ha hw (htrigger ▸ ht)
  · rw [ho]
    exact lost

theorem divides_history (hw : c.waiting = []) (events : List (Event × Instant)) :
    Divides c (.ofLog (accepted (c.history events).1)) (c.history events).2 := by
  induction events using List.reverseRecOn with
  | nil => exact ⟨.refl c, fun _ => hw, hw.symm ▸ .nil, nofun⟩
  | append_singleton events last ih =>
    obtain ⟨e, now⟩ := last
    rw [history_concat]
    exact ih.react e now

theorem next_of_lost {now : Instant} (h : isLost ((c.process e now).map Prod.fst)) :
    (c.react e now).next = c := by
  rw [react_next]
  rcases process_cases c e now with ⟨err, hr, _⟩ | ⟨hr, _⟩ | ⟨payload, _, hr, _⟩
  · rw [hr]
    rfl
  · rw [hr]
    rfl
  · rw [hr] at h ⊢
    cases hp : c.pass payload now with
    | error err => rfl
    | ok passed =>
      obtain ⟨_ | _, next⟩ := passed <;> rw [hp] at h <;> cases h

/-- Each result is that of processing the event where those before it lead. -/
theorem result_of_getElem? {events : List (Event × Instant)} {i : Nat} {now : Instant}
    {result : Except ProcessorError Outcome}
    (h : (c.history events).1[i]? = some ((e, now), result)) :
    result = ((c.history (events.take i)).2.process e now).map Prod.fst := by
  induction events generalizing c i with
  | nil => cases h
  | cons first events ih =>
    obtain ⟨f, time⟩ := first
    rw [history_cons] at h
    cases i with
    | zero =>
      cases Option.some.inj h
      rfl
    | succ i => exact ih h

/-- An event that is lost may as well never have come. -/
theorem history_eraseIdx {events : List (Event × Instant)} {i : Nat}
    {entry : (Event × Instant) × Except ProcessorError Outcome}
    (h : (c.history events).1[i]? = some entry) (hl : isLost entry.2) :
    c.history (events.eraseIdx i) = ((c.history events).1.eraseIdx i, (c.history events).2) := by
  induction events generalizing c i with
  | nil => cases h
  | cons first events ih =>
    obtain ⟨f, time⟩ := first
    rw [history_cons] at h ⊢
    cases i with
    | zero =>
      cases Option.some.inj h
      rw [List.eraseIdx_cons_zero, List.eraseIdx_cons_zero, next_of_lost hl]
    | succ i =>
      rw [List.eraseIdx_cons_succ, List.eraseIdx_cons_succ, history_cons, ih h]

/-- Nothing waits in a new channel, and it has a trigger if it is to use the one it was given. -/
theorem ofConfig_gate {config : ChannelConfig} (h : ofConfig config = .ok c) :
    c.waiting = [] ∧
    (config.mode = .stream ∨ config.trigger = none → c.trigger? = none) ∧
    (config.mode = .aggregate → config.trigger ≠ none → c.trigger? ≠ none) := by
  obtain ⟨filter, _, h⟩ := bind_eq_ok.mp h
  obtain ⟨select, _, h⟩ := bind_eq_ok.mp h
  cases hm : config.mode with
  | stream =>
    rw [hm] at h
    cases Except.ok.inj h
    exact ⟨rfl, fun _ => rfl, nofun⟩
  | aggregate =>
    rw [hm] at h
    obtain ⟨gate, hg, h⟩ := bind_eq_ok.mp h
    cases Except.ok.inj h
    obtain ⟨trigger, ht, rfl⟩ := map_eq_ok.mp hg
    cases hs : config.trigger with
    | none =>
      rw [hs] at ht
      cases Except.ok.inj ht
      exact ⟨rfl, fun _ => rfl, fun _ h => absurd rfl h⟩
    | some source =>
      rw [hs] at ht
      obtain _ | p := trigger
      · unfold Role.compile at ht
        dsimp only at ht
        split at ht <;> cases ht
      · exact ⟨rfl, fun h => h.elim nofun nofun, fun _ _ => nofun⟩

/-- An event that fails or is filtered leaves the channel as it was, also one that is changed in
place, and without it all others have the same results. Each other event is in one of the payloads
that went out or waits, in order: in stream mode or without a trigger one payload is one event's,
else it is the array of those of a whole batch. -/
theorem history_accounts {config : ChannelConfig} (h : ofConfig config = .ok c)
    (events : List (Event × Instant)) :
    let log := (c.history events).1
    let last := (c.history events).2
    let batches := Batches.ofLog (accepted log)
    log.map Prod.fst = events ∧
    (∀ (i : Nat) (e : Event) (now : Instant) (result : Except ProcessorError Outcome),
      log[i]? = some ((e, now), result) → isLost result = true →
        (processInPlace e now).run (c.history (events.take i)).2 =
          (result, (c.history (events.take i)).2) ∧
        c.history (events.eraseIdx i) = (log.eraseIdx i, last)) ∧
    events.length = log.countP (fun entry => isFailed entry.2) +
      log.countP (fun entry => isFiltered entry.2) +
      (batches.out.map fun batch => batch.1.length).sum + last.pending ∧
    (accepted log).map Prod.fst = batches.out.flatMap Prod.fst ++ batches.waiting ∧
    (accepted log).filterMap Prod.snd = batches.out.map Prod.snd ∧
    (batches.waiting.mapM c.collect = .ok last.waiting ∧ last.pending = batches.waiting.length) ∧
    ∀ batch ∈ batches.out, ∃ payloads, batch.1.mapM c.collect = .ok payloads ∧
      (config.mode = .stream ∨ config.trigger = none → payloads = [batch.2.body]) ∧
      (config.mode = .aggregate → config.trigger ≠ none →
        payloads ≠ [] ∧ batch.2.body = jsonArray payloads) := by
  intro log last batches
  obtain ⟨hempty, huntriggered, htriggered⟩ := ofConfig_gate h
  have hd : Divides c batches last := divides_history hempty events
  have hitems : batches.out.flatMap Prod.fst ++ batches.waiting = (accepted log).map Prod.fst :=
    Batches.items_ofLog _
  have hwaiting : last.pending = batches.waiting.length :=
    (pending_eq last).trans hd.waiting.length_eq.symm
  refine ⟨history_map_fst c events, fun i e now result hi hl => ?_, ?_, hitems.symm,
    (Batches.out_ofLog _).symm, ⟨mapM_eq_ok.mpr hd.waiting, hwaiting⟩, fun batch hb => ?_⟩
  · refine ⟨?_, history_eraseIdx hi hl⟩
    have hr := result_of_getElem? hi
    rw [processInPlace_run, ← hr, next_of_lost (hr ▸ hl)]
  · have hlength := length_eq log
    have haccepted := congrArg List.length hitems
    rw [List.length_append, List.length_flatMap, List.length_map] at haccepted
    have hevents : log.length = events.length := by
      rw [← List.length_map Prod.fst, history_map_fst c events]
    omega
  · obtain ⟨payloads, hp, hc⟩ := hd.out batch hb
    exact ⟨payloads, mapM_eq_ok.mpr hp, fun hm => hc.1 (huntriggered hm),
      fun hm ht => hc.2 (htriggered hm ht)⟩

/-- An event that is no JSON comes between the two of a batch. -/
theorem history_accounts_around_failure :
    let good : Event := ⟨none, "A", jsonType, Bytes.ofString "\x7b\x7d"⟩
    let bad : Event := ⟨none, "A", jsonType, []⟩
    let both : Envelope := ⟨Bytes.ofString "[\x7b\x7d,\x7b\x7d]"⟩
    let config : ChannelConfig := ⟨⟨.v4 [0, 0, 0, 0], 80⟩, "route", none, "event", .aggregate,
      some "trigger.count == 2", none, none, ⟨none, none⟩⟩
    let pairs : Channel := ⟨"event", none, none, some (.ofTrigger (some ⟨"trigger.count == 2",
      ["trigger"], .binary .equal (.member (.variable "trigger") "count") (.int 2)⟩))⟩
    ofConfig config = .ok pairs ∧
    (pairs.history [(good, 0), (bad, 1), (good, 2)]).1 = [((good, 0), .ok .held),
      ((bad, 1), .error (.event .invalidJson)), ((good, 2), .ok (.emit both))] ∧
    (pairs.history [(good, 0), (good, 2)]).1 =
      [((good, 0), .ok .held), ((good, 2), .ok (.emit both))] := by
  intro good bad both config pairs
  have hc : ofConfig config = .ok pairs := by
    unfold config pairs
    cbv
  have hlog : (pairs.history [(good, 0), (bad, 1), (good, 2)]).1 = [((good, 0), .ok .held),
      ((bad, 1), .error (.event .invalidJson)), ((good, 2), .ok (.emit both))] := by
    unfold pairs good bad both
    cbv
  have hwithout := ((history_accounts hc [(good, 0), (bad, 1), (good, 2)]).2.1 1 bad 1
    (.error (.event .invalidJson)) (by rw [hlog]; rfl) rfl).2
  rw [hlog] at hwithout
  exact ⟨hc, hlog, congrArg Prod.fst hwithout⟩

end Channel

end EventStream
