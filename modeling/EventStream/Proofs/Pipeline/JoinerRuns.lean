import EventStream.Output.Lines
import EventStream.Proofs.Pipeline.Accounts
import EventStream.Proofs.Window.Independence

namespace EventStream

open Pipeline

variable {σ : Type} {router : Router σ} {trace : List (Label Joiner)} {p q : Pipeline Joiner σ}
  {l : Label Joiner} {engine : JoinEngine}

/-- What the windows that closed held, as the join saw it. -/
def windows (trace : List (Label Joiner)) : List WindowStore :=
  (closed trace).map Joiner.store

@[simp]
theorem windows_append (trace : List (Label Joiner)) (l : Label Joiner) :
    windows (trace ++ [l]) = windows trace ++ (l.closed?.map Joiner.store).toList := by
  unfold windows
  rw [closed_append, List.map_append, Option.toList_map]

/-- What a joiner has gathered and sent, by the windows so far and the one that is open, or was when
the run ended. -/
structure JoinerHistory (engine : JoinEngine) (trace : List (Label Joiner))
    (p : Pipeline Joiner σ) (opened : WindowStore) : Prop where
  joins : p.processor.engine = engine
  events : ∀ topic, (windows trace).flatMap (·.get topic) ++ opened.get topic =
    ((received trace).map Prod.fst).filter (·.topic = topic)
  payloads : emitted trace = (windows trace).filterMap fun w => (engine.join w).payload?
  running : p.isRunning = true → p.processor.store = opened
  stopped : p.isRunning = false → p.processor.store.isEmpty = true
  finished : ∀ last, .finished last ∈ trace → p.isRunning = false ∧ last.store = opened

namespace JoinerHistory

variable {opened : WindowStore}

theorem start {j : Joiner} {topics : List String} (h : j.store = .ofTopics topics)
    (inputs outputs : Nat) (t : σ) :
    JoinerHistory j.engine [] (.start j inputs outputs t) j.store where
  joins := rfl
  events topic := by
    rw [h]
    exact WindowStore.get_ofTopics topic topics
  payloads := rfl
  running _ := rfl
  stopped h := nomatch h
  finished := nofun

/-- A run that goes on has not finished. -/
theorem not_finished (h : JoinerHistory engine trace p opened) (hr : p.isRunning = true)
    (last : Joiner) : .finished last ∉ trace := fun hl =>
  Bool.false_ne_true ((h.finished last hl).1.symm.trans hr)

theorem receive (h : JoinerHistory engine trace p opened) {before : Joiner} {e : Event}
    {now : Instant} (hs : Step router p (.received before e now) q) :
    JoinerHistory engine (trace ++ [.received before e now]) q (opened.append e) := by
  obtain ⟨rfl, hq, hp, hr⟩ := hs.of_received
  obtain rfl := h.running hp
  refine ⟨hq ▸ h.joins, fun topic => ?_, ?_, fun _ => hq ▸ rfl, fun hn => ?_, fun last hl => ?_⟩
  · rw [WindowStore.get_append, ← List.append_assoc]
    by_cases ht : e.topic = topic <;> simp [ht, ← h.events topic]
  · simp [h.payloads, Stage.receive]
  · exact absurd (hn.symm.trans hr) Bool.false_ne_true
  · exact absurd (by simpa using hl) (h.not_finished hp last)

theorem close (h : JoinerHistory engine trace p opened) {before : Joiner}
    (hs : Step router p (.closed before) q) :
    JoinerHistory engine (trace ++ [.closed before]) q opened.reset := by
  obtain ⟨rfl, hq, hp, hr⟩ := hs.of_closed
  obtain rfl := h.running hp
  refine ⟨hq ▸ h.joins, fun topic => ?_, ?_, fun _ => hq ▸ rfl, fun hn => ?_, fun last hl => ?_⟩
  · rw [WindowStore.get_reset]
    simpa using h.events topic
  · have hpayload : (Stage.close p.processor).payload =
        (engine.join p.processor.store).payload? := by
      rw [← h.joins]
      rfl
    rw [emitted_append, windows_append, h.payloads]
    change _ ++ (Stage.close p.processor).payload.toList =
      (_ ++ [p.processor.store]).filterMap _
    rw [hpayload, filterMap_append_singleton]
  · exact absurd (hn.symm.trans hr) Bool.false_ne_true
  · exact absurd (by simpa using hl) (h.not_finished hp last)

/-- A step in which the joiner does not react leaves the windows as they are; at the end of the run
the open one is dropped. -/
theorem pass (h : JoinerHistory engine trace p opened) (hs : Step router p l q)
    (hr : l.received? = none) (hc : l.closed? = none) :
    JoinerHistory engine (trace ++ [l]) q opened := by
  have hemitted : l.emitted? = none := by
    cases l with
    | received => cases hr
    | closed => cases hc
    | _ => rfl
  have hevents : ∀ topic, (windows (trace ++ [l])).flatMap (·.get topic) ++ opened.get topic =
      ((received (trace ++ [l])).map Prod.fst).filter (·.topic = topic) := by
    intro topic
    rw [windows_append, received_append, hr, hc]
    simpa using h.events topic
  have hpayloads : emitted (trace ++ [l]) =
      (windows (trace ++ [l])).filterMap fun w => (engine.join w).payload? := by
    rw [emitted_append, windows_append, hemitted, hc]
    simpa using h.payloads
  have hfinished : q.isRunning = p.isRunning ∨ q.isRunning = false →
      ∀ last, .finished last ∈ trace ++ [l] → q.isRunning = false ∧ last.store = opened := by
    intro hq last hm
    rcases List.mem_append.mp hm with hm | hm
    · obtain ⟨hp, hstore⟩ := h.finished last hm
      exact ⟨hq.elim (·.trans hp) id, hstore⟩
    · obtain rfl := List.mem_singleton.mp hm
      obtain ⟨rfl, hp, rfl⟩ := hs.of_finished
      exact ⟨rfl, h.running hp⟩
  rcases hs.processor_cases hr hc with ⟨hq, hrun⟩ | ⟨hq, hrun⟩
  · exact ⟨hq ▸ h.joins, hevents, hpayloads, fun hn => hq ▸ h.running (hrun ▸ hn),
      fun hn => hq ▸ h.stopped (hrun ▸ hn), hfinished (.inl hrun)⟩
  · refine ⟨hq ▸ h.joins, hevents, hpayloads, fun hn => ?_, fun _ => ?_, hfinished (.inr hrun)⟩
    · exact absurd (hrun.symm.trans hn) Bool.false_ne_true
    · rw [hq]
      exact WindowStore.isEmpty_reset

theorem step (h : JoinerHistory engine trace p opened) (hs : Step router p l q) :
    ∃ opened, JoinerHistory engine (trace ++ [l]) q opened := by
  cases l with
  | received => exact ⟨_, h.receive hs⟩
  | closed => exact ⟨_, h.close hs⟩
  | accepted | sent | dispatched | inputClosed | finished | shutDown =>
    exact ⟨opened, h.pass hs rfl rfl⟩

end JoinerHistory

theorem reaches_joinerHistory {c : JoinerConfig} {j : Joiner} (hj : Joiner.ofConfig c = .ok j)
    {inputs outputs : Nat} {t : σ} (h : Reaches router (.start j inputs outputs t) trace p) :
    ∃ opened, JoinerHistory j.engine trace p opened := by
  obtain ⟨_, hstore⟩ := Joiner.ofConfig_eq_ok.mp hj
  induction h with
  | start => exact ⟨_, .start hstore inputs outputs t⟩
  | next _ hs ih =>
    obtain ⟨_, ih⟩ := ih
    exact ih.step hs

/-- Up to the end of its run, the events of a topic that a joiner has accepted are those in the
windows that closed, then those in the open window, then those that wait. When the input has been
closed and used up, the open window is dropped with what it holds. The payloads that went out, those
in the queue and one that waits for room are those of the windows that have one, and those that went
out were sent to each target that is set. -/
theorem joiner_run_keeps_every_event {c : JoinerConfig} {j : Joiner}
    (hj : Joiner.ofConfig c = .ok j) {inputs outputs : Nat} {t : σ}
    (h : Reaches router (.start j inputs outputs t) trace p) (hd : .shutDown ∉ trace) :
    ((∀ last, .finished last ∉ trace) → ∀ topic, (accepted trace).filter (·.topic = topic) =
      (windows trace).flatMap (·.get topic) ++ p.processor.store.get topic ++
        p.input.items.filter (·.topic = topic)) ∧
    (∀ last, .finished last ∈ trace → p.input.items = [] ∧ p.processor.store.isEmpty = true ∧
      ∀ topic, (accepted trace).filter (·.topic = topic) =
        (windows trace).flatMap (·.get topic) ++ last.store.get topic) ∧
    dispatched trace ++ p.output.items ++ p.waiting.toList =
      (windows trace).filterMap (fun w => (j.engine.join w).payload?) ∧
    p.transport =
      (router.transport.sendAll t ((dispatched trace).flatMap router.targets.calls)).2 := by
  obtain ⟨lostEvents, lostPayloads, ha⟩ := h.accounts
  obtain ⟨rfl, rfl⟩ := ha.lost.resolve_right fun hl => hd hl.2
  obtain ⟨opened, hh⟩ := reaches_joinerHistory hj h
  have hevents : ∀ topic, (accepted trace).filter (·.topic = topic) =
      (windows trace).flatMap (·.get topic) ++ opened.get topic ++
        p.input.items.filter (·.topic = topic) := by
    intro topic
    rw [ha.events, hh.events topic, List.append_nil, List.filter_append]
  refine ⟨fun hf topic => ?_, fun last hl => ?_, ?_, ha.transport⟩
  · have hr : p.isRunning = true := by
      by_contra hn
      rcases ha.ended (Bool.eq_false_iff.mpr hn) with hs | ⟨last, hl⟩
      · exact hd hs
      · exact hf last hl
    rw [hh.running hr, hevents topic]
  · obtain ⟨hs, hstore⟩ := hh.finished last hl
    obtain ⟨hi, _⟩ := ha.stopped hs
    refine ⟨hi, hh.stopped hs, fun topic => ?_⟩
    rw [hevents topic, hi, hstore, List.filter_nil, List.append_nil]
  · rw [← hh.payloads, ha.payloads, List.append_nil]

/-- A pair goes out, an event is in the next window and one waits; after the end of the input both
are gone. -/
theorem joiner_run_of_equal_pairs :
    let a : Event := ⟨none, "A", jsonType, Bytes.ofString "\x7b\x7d"⟩
    let b : Event := ⟨none, "B", jsonType, Bytes.ofString "\x7b\x7d"⟩
    let pair : Envelope := ⟨Bytes.ofString "[\x7b\"A\":\x7b\x7d,\"B\":\x7b\x7d\x7d]"⟩
    let router : Router Lines := ⟨Lines.transport, equalPairs.targets⟩
    ∃ trace p later q last, Joiner.ofConfig equalPairs = .ok pairJoiner ∧
      Reaches router (.start pairJoiner 2 1 .empty) trace p ∧ .shutDown ∉ trace ∧
      (∀ last, .finished last ∉ trace) ∧
      accepted trace = [a, b, a, b] ∧ (windows trace).length = 1 ∧ p.input.items = [b] ∧
      dispatched trace = [pair] ∧
      (∀ topic, [a, b, a, b].filter (·.topic = topic) =
        (windows trace).flatMap (·.get topic) ++ p.processor.store.get topic ++
          [b].filter (·.topic = topic)) ∧
      [pair] = (windows trace).filterMap (fun w => (pairJoiner.engine.join w).payload?) ∧
      p.transport.written = "publish sink/sink [\x7b\"A\":\x7b\x7d,\"B\":\x7b\x7d\x7d]\n" ∧
      Reaches router (.start pairJoiner 2 1 .empty) later q ∧ .shutDown ∉ later ∧
      .finished last ∈ later ∧ accepted later = [a, b, a, b] ∧ q.processor.store.isEmpty = true ∧
      ∀ topic, [a, b, a, b].filter (·.topic = topic) =
        (windows later).flatMap (·.get topic) ++ last.store.get topic := by
  intro a b pair router
  have hstart : Reaches router (.start pairJoiner 2 1 .empty) [] _ := .start
  have htaken := (((hstart.next (.accept (e := a) rfl rfl)).next (.accept (e := b) rfl rfl)).next
    (.receive rfl (rfl : receive? _ 0 = _))).next (.receive rfl (rfl : receive? _ 0 = _))
  have hsent := (htaken.next (.close rfl)).next
    (.send (send?_of_push (by cbv : _ = some pair) rfl))
  have h := (((hsent.next (.accept (e := a) rfl rfl)).next (.accept (e := b) rfl rfl)).next
    (.receive rfl (rfl : receive? _ 0 = _))).next (.dispatch rfl rfl)
  have hend := ((h.next (.receive rfl (rfl : receive? _ 0 = _))).next (.closeInput rfl)).next
    (.finish rfl)
  obtain ⟨hevents, _, hpayloads, htransport⟩ :=
    joiner_run_keeps_every_event ofConfig_equalPairs h (by simp)
  obtain ⟨_, hdropped, _, _⟩ :=
    joiner_run_keeps_every_event ofConfig_equalPairs hend (by simp)
  have hwritten : (Lines.transport.sendAll .empty ([pair].flatMap equalPairs.targets.calls)).2.written =
      "publish sink/sink [\x7b\"A\":\x7b\x7d,\"B\":\x7b\x7d\x7d]\n" := by
    unfold pair
    cbv
  obtain ⟨_, hempty, hlost⟩ := hdropped _ (List.mem_append_right _ (List.mem_singleton_self _))
  exact ⟨_, _, _, _, _, ofConfig_equalPairs, h, by simp, by simp, rfl, rfl, rfl, rfl,
    hevents (by simp), hpayloads, (congrArg Lines.written htransport).trans hwritten, hend, by simp,
    List.mem_append_right _ (List.mem_singleton_self _), rfl, hempty, hlost⟩

end EventStream
