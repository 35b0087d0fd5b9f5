import EventStream.Output.Lines
import EventStream.Proofs.Pipeline.Progress

namespace EventStream

namespace Channel

/-- The payloads that a channel emits for events one after another, and the channel after them. An
event that fails changes nothing. -/
def emitAll (c : Channel) : List (Event × Instant) → List Envelope × Channel
  | [] => ([], c)
  | (e, now) :: rest =>
    match c.process e now with
    | .ok (.emit payload, c) =>
      let (later, c) := c.emitAll rest
      (payload :: later, c)
    | .ok (.filtered, c) => c.emitAll rest
    | .ok (.held, c) => c.emitAll rest
    | .error _ => c.emitAll rest

theorem emitAll_cons (c : Channel) (e : Event) (now : Instant) (rest : List (Event × Instant)) :
    c.emitAll ((e, now) :: rest) =
      ((c.react e now).payload.toList ++ ((c.react e now).next.emitAll rest).1,
        ((c.react e now).next.emitAll rest).2) := by
  rw [emitAll]
  unfold react
  cases c.process e now with
  | error => rfl
  | ok result =>
    obtain ⟨outcome, next⟩ := result
    cases outcome <;> rfl

theorem emitAll_append_singleton (c : Channel) (events : List (Event × Instant)) (e : Event)
    (now : Instant) :
    c.emitAll (events ++ [(e, now)]) =
      ((c.emitAll events).1 ++ ((c.emitAll events).2.react e now).payload.toList,
        ((c.emitAll events).2.react e now).next) := by
  induction events generalizing c with
  | nil => simp [emitAll_cons, emitAll]
  | cons first events ih =>
    obtain ⟨f, time⟩ := first
    rw [List.cons_append, emitAll_cons, emitAll_cons, ih, List.append_assoc]

end Channel

open Pipeline

variable {σ : Type} {router : Router σ} {trace : List (Label Channel)} {p q : Pipeline Channel σ}
  {l : Label Channel} {c : Channel}

/-- The channel of a run stands where it stands when the events are processed one after another. -/
theorem emitAll_step (h : c.emitAll (received trace) = (emitted trace, p.processor))
    (hs : Step router p l q) :
    c.emitAll (received (trace ++ [l])) = (emitted (trace ++ [l]), q.processor) := by
  rw [received_append, emitted_append]
  cases l with
  | received before e now =>
    obtain ⟨rfl, hq, _⟩ := hs.of_received
    change c.emitAll (received trace ++ [(e, now)]) = _
    rw [Channel.emitAll_append_singleton, h, hq]
    rfl
  | closed before =>
    obtain ⟨rfl, hq, _⟩ := hs.of_closed
    simpa [Stage.close, hq] using h
  | accepted | sent | dispatched | inputClosed | finished | shutDown =>
    -- nothing of a channel changes when its run ends
    have hq : q.processor = p.processor := (hs.processor_cases rfl rfl).elim And.left And.left
    simpa [hq] using h

theorem reaches_emitAll {inputs outputs : Nat} {t : σ}
    (h : Reaches router (.start c inputs outputs t) trace p) :
    c.emitAll (received trace) = (emitted trace, p.processor) := by
  induction h with
  | start => rfl
  | next _ hs ih => exact emitAll_step ih hs

/-- Events are processed in the order in which they were accepted, and what goes out, to each target
that is set, is a beginning of what the channel emits for them one after another. Without a shutdown
the rest is on its way, and every run can come to an end, at which nothing is. -/
theorem channel_run_in_order {inputs outputs : Nat} {t : σ}
    (h : Reaches router (.start c inputs outputs t) trace p) :
    (received trace).map Prod.fst ++ p.input.items <+: accepted trace ∧
    dispatched trace ++ p.output.items ++ p.waiting.toList <+: (c.emitAll (received trace)).1 ∧
    p.transport =
      (router.transport.sendAll t ((dispatched trace).flatMap router.targets.calls)).2 ∧
    (.shutDown ∉ trace →
      accepted trace = (received trace).map Prod.fst ++ p.input.items ∧
      (c.emitAll (received trace)).1 = dispatched trace ++ p.output.items ++ p.waiting.toList ∧
      (Final router p → accepted trace = (received trace).map Prod.fst ∧
        (c.emitAll (received trace)).1 = dispatched trace)) ∧
    ∃ later last, Reaches router (.start c inputs outputs t) (trace ++ later) last ∧
      Final router last ∧ .shutDown ∉ later := by
  obtain ⟨lostEvents, lostPayloads, ha⟩ := h.accounts
  have he : (c.emitAll (received trace)).1 = emitted trace := by rw [reaches_emitAll h]
  rw [he]
  refine ⟨⟨lostEvents, ha.events.symm⟩, ⟨lostPayloads, ha.payloads.symm⟩, ha.transport,
    fun hd => ?_, h.exists_final⟩
  obtain ⟨rfl, rfl⟩ := ha.lost.resolve_right fun hl => hd hl.2
  have hevents := ha.events
  have hpayloads := ha.payloads
  rw [List.append_nil] at hevents hpayloads
  refine ⟨hevents, hpayloads, fun hf => ?_⟩
  obtain ⟨ho, hr⟩ := ha.final hf
  obtain ⟨hi, hw⟩ := ha.stopped hr
  rw [hi, List.append_nil] at hevents
  rw [ho, hw] at hpayloads
  exact ⟨hevents, by simpa using hpayloads⟩

/-- Payloads go out two by two. -/
def twoByTwo : Channel where
  binding := "event"
  filter := none
  select := none
  gate := some (.ofTrigger (some ⟨"trigger.count > 1", ["trigger"],
    .binary .greater (.member (.variable "trigger") "count") (.int 1)⟩))

/-- The input ends before the channel has processed what is in it; an event that is no JSON counts
for nothing. -/
theorem channel_run_two_by_two :
    let good : Event := ⟨none, "A", jsonType, Bytes.ofString "\x7b\x7d"⟩
    let bad : Event := ⟨none, "A", jsonType, []⟩
    let both : Envelope := ⟨Bytes.ofString "[\x7b\x7d,\x7b\x7d]"⟩
    let router : Router Lines := ⟨Lines.transport, ⟨some ⟨"sink", "sink"⟩, none⟩⟩
    ∃ trace p, Reaches router (.start twoByTwo 3 1 .empty) trace p ∧ .shutDown ∉ trace ∧
      Final router p ∧ accepted trace = [good, bad, good] ∧
      (received trace).map Prod.fst = [good, bad, good] ∧
      (twoByTwo.emitAll (received trace)).1 = [both] ∧ dispatched trace = [both] ∧
      p.transport.written = "publish sink/sink [\x7b\x7d,\x7b\x7d]\n" ∧ p.transport.count = 1 := by
  intro good bad both router
  have hstart : Reaches router (.start twoByTwo 3 1 .empty) [] _ := .start
  have hfed := ((((hstart.next (.accept (e := good) rfl rfl)).next
    (.receive rfl (rfl : receive? _ 0 = _))).next (.accept (e := bad) rfl rfl)).next
      (.accept (e := good) rfl rfl)).next (.closeInput rfl)
  have hemitted := (hfed.next (.receive rfl (rfl : receive? _ 1 = _))).next
    (.receive rfl (rfl : receive? _ 2 = _))
  have hsent := hemitted.next (.send (send?_of_push (by cbv : _ = some both) rfl))
  have h := (hsent.next (.dispatch rfl rfl)).next (.finish rfl)
  obtain ⟨_, _, htransport, hd, _⟩ := channel_run_in_order h
  obtain ⟨_, _, hfinal⟩ := hd (by simp)
  obtain ⟨hevents, hpayloads⟩ := hfinal ⟨rfl, fun _ => rfl⟩
  have hwritten :
      (Lines.transport.sendAll .empty ([both].flatMap router.targets.calls)).2.written =
        "publish sink/sink [\x7b\x7d,\x7b\x7d]\n" := by
    unfold both router
    cbv
  exact ⟨_, _, h, by simp, ⟨rfl, fun _ => rfl⟩, rfl, hevents.symm, hpayloads, rfl,
    (congrArg Lines.written htransport).trans hwritten, congrArg Lines.count htransport⟩

end EventStream
