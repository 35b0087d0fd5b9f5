import EventStream.Proofs.Channel.WholeEvents
import EventStream.Proofs.Json.SingleLine
import EventStream.Proofs.Output.Transcripts
import EventStream.Proofs.Pipeline.ChannelRuns
import EventStream.Proofs.Pipeline.Dispatches
import EventStream.Proofs.Pipeline.JoinerRuns

namespace EventStream

open Pipeline

theorem Role.compile_ne_none {role : Role} {declared : List String} {source : Option String}
    {p : Option Program} (h : role.compile declared source = .ok p) (hs : source ≠ none) :
    p ≠ none := by
  rintro rfl
  obtain ⟨s, rfl⟩ := Option.ne_none_iff_exists'.mp hs
  unfold Role.compile at h
  dsimp only at h
  split at h <;> cases h

theorem lineFeed_not_mem_selected {s : Program} {b : Bindings} {body : Bytes}
    (h : s.selected b = .ok body) : Bytes.lineFeed ∉ body := by
  obtain ⟨_, _, hj⟩ := Program.selected_eq_ok.mp h
  exact lineFeed_not_mem_jsonBytes hj

namespace Channel

variable {c : Channel} {e : Event} {body : Bytes} {payload : Envelope} {bodies : List Bytes}
  {events : List (Event × Instant)}

theorem lineFeed_not_mem_collect (h : c.collect e = .ok body)
    (he : c.select ≠ none ∨ Bytes.lineFeed ∉ e.payload) : Bytes.lineFeed ∉ body := by
  obtain ⟨v, _, h⟩ := bind_eq_ok.mp h
  cases hs : c.select with
  | none =>
    rw [hs] at h
    cases Except.ok.inj h
    exact he.resolve_left fun hn => hn hs
  | some s =>
    rw [hs] at h
    exact lineFeed_not_mem_selected h

/-- A batch has line feeds only where its payloads have. -/
theorem Contains.lineFeed_not_mem (h : c.Contains payload bodies)
    (hb : ∀ body ∈ bodies, Bytes.lineFeed ∉ body) : Bytes.lineFeed ∉ payload.body := by
  by_cases ht : c.trigger? = none
  · exact hb _ (h.1 ht ▸ List.mem_singleton_self _)
  · rw [(h.2 ht).2]
    intro hm
    obtain ⟨body, hmem, hm⟩ := lineFeed_mem_jsonArray hm
    exact hb body hmem hm

theorem emitAll_eq_accepted (c : Channel) (events : List (Event × Instant)) :
    (c.emitAll events).1 = (accepted (c.history events).1).filterMap Prod.snd := by
  induction events generalizing c with
  | nil => rfl
  | cons first events ih =>
    obtain ⟨e, now⟩ := first
    have hfirst : (c.react e now).payload.toList =
        (accepted [((e, now), (c.process e now).map Prod.fst)]).filterMap Prod.snd := by
      unfold react
      cases c.process e now with
      | error err => rfl
      | ok result => obtain ⟨_ | _ | _, next⟩ := result <;> rfl
    rw [emitAll_cons, history_cons, ih, hfirst, ← List.filterMap_append]
    exact congrArg _ List.filterMap_append.symm

/-- What goes out is made of what is collected from some of the events. -/
theorem exists_contains_of_mem_emitAll (hw : c.waiting = [])
    (h : payload ∈ (c.emitAll events).1) :
    ∃ batch bodies, batch ⊆ events.map Prod.fst ∧
      List.Forall₂ (fun e body => c.collect e = .ok body) batch bodies ∧
      c.Contains payload bodies := by
  have hd := divides_history hw events
  rw [emitAll_eq_accepted, ← Batches.out_ofLog] at h
  obtain ⟨⟨batch, _⟩, hbatch, rfl⟩ := List.mem_map.mp h
  obtain ⟨bodies, hcollect, hcontains⟩ := hd.out _ hbatch
  refine ⟨batch, bodies, fun e he => ?_, hcollect, hcontains⟩
  have hitem : e ∈ (accepted (c.history events).1).map Prod.fst := by
    rw [← Batches.items_ofLog]
    exact List.mem_append_left _ (List.mem_flatMap.mpr ⟨_, hbatch, he⟩)
  obtain ⟨entry, hentry, rfl⟩ := List.mem_map.mp hitem
  obtain ⟨⟨⟨e, now⟩, result⟩, hlog, hentry⟩ := List.mem_filterMap.mp hentry
  have hevent : (e, now) ∈ events := by
    rw [← history_map_fst c events]
    exact List.mem_map_of_mem hlog
  have hsame : entry.1 = e := by
    obtain _ | _ | _ | _ := result <;> cases hentry <;> rfl
  exact hsame ▸ List.mem_map_of_mem hevent

end Channel

namespace JoinEngine

variable {j : JoinEngine} {a b : Event × Value} {entry : Bytes} {store : WindowStore}
  {payload : Envelope}

theorem lineFeed_not_mem_yields (h : j.Yields a b entry)
    (hp : j.select ≠ none ∨ Bytes.lineFeed ∉ a.1.payload ∧ Bytes.lineFeed ∉ b.1.payload) :
    Bytes.lineFeed ∉ entry := by
  unfold Yields at h
  cases hs : j.select with
  | none =>
    rw [hs] at h
    obtain ⟨ha, hb⟩ := hp.resolve_left fun hn => hn hs
    rw [h, ← pairObject_eq_objectText]
    exact fun hm => (lineFeed_mem_pairObject hm).elim ha hb
  | some s =>
    rw [hs] at h
    obtain ⟨_, _, hj⟩ := h
    exact lineFeed_not_mem_jsonBytes hj

theorem Gathers.exists_enters {pairs : List ((Event × Value) × (Event × Value))}
    {entries : List Bytes} {rejected failed : Nat} (h : Gathers j pairs entries rejected failed)
    (he : entry ∈ entries) : ∃ a b, (a, b) ∈ pairs ∧ j.Enters a b entry := by
  induction h with
  | nil => cases he
  | @enters a b _ _ _ _ _ hab _ ih =>
    rcases List.mem_cons.mp he with rfl | he
    · exact ⟨a, b, List.mem_cons_self, hab⟩
    · obtain ⟨a, b, hm, hab⟩ := ih he
      exact ⟨a, b, List.mem_cons_of_mem _ hm, hab⟩
  | rejects _ _ ih | fails _ _ ih =>
    obtain ⟨a, b, hm, hab⟩ := ih he
    exact ⟨a, b, List.mem_cons_of_mem _ hm, hab⟩

theorem compile_select {c : JoinerConfig} (h : ofConfig c = .ok j) :
    Role.select.compile [c.left.binding, c.right.binding] c.select = .ok j.select := by
  obtain ⟨_, _, h⟩ := bind_eq_ok.mp h
  obtain ⟨_, hs, h⟩ := bind_eq_ok.mp h
  cases Except.ok.inj h
  exact hs

theorem mem_of_mem_objects {events : List Event} (h : a ∈ objects events) : a.1 ∈ events := by
  obtain ⟨e, he, h⟩ := List.mem_filterMap.mp h
  unfold Event.object? at h
  split at h
  next => exact Option.some.inj h ▸ he
  next => cases h

/-- What a window yields has line feeds only where its events have. -/
theorem lineFeed_not_mem_join (h : (j.join store).payload? = some payload)
    (hp : j.select ≠ none ∨ ∀ topic, ∀ e ∈ store.get topic, Bytes.lineFeed ∉ e.payload) :
    Bytes.lineFeed ∉ payload.body := by
  unfold Joined.payload? at h
  split at h
  next out hout =>
    cases Option.some.inj h
    cases join_eq_iff.mp hout with
    | matched _ _ _ hg _ =>
      intro hm
      rw [← jsonArray_eq_arrayText] at hm
      obtain ⟨entry, he, hm⟩ := lineFeed_mem_jsonArray hm
      obtain ⟨a, b, hab, _, hyields⟩ := hg.exists_enters he
      obtain ⟨ha, hb⟩ := List.pair_mem_product.mp hab
      refine lineFeed_not_mem_yields hyields (hp.imp_right fun hp => ?_) hm
      exact ⟨hp _ _ (mem_of_mem_objects ha), hp _ _ (mem_of_mem_objects hb)⟩
  next => cases h

end JoinEngine

namespace Targets

variable {t : Targets} {payload : Envelope} {d : Dispatch}

/-- Every target is written on one line. -/
def OnOneLine (t : Targets) : Prop :=
  ∀ kind target, t.of kind = some target → '\n' ∉ target.display.toList

theorem mem_calls (h : d ∈ t.calls payload) :
    t.of d.kind = some d.target ∧ d.payload = payload := by
  obtain ⟨kind, _, h⟩ := List.mem_filterMap.mp h
  obtain ⟨target, ht, rfl⟩ := Option.map_eq_some_iff.mp h
  exact ⟨ht, rfl⟩

theorem OnOneLine.feeds_eq_zero (ht : t.OnOneLine) {payloads : List Envelope}
    (hp : ∀ payload ∈ payloads, Bytes.lineFeed ∉ payload.body)
    (h : d ∈ payloads.flatMap t.calls) : d.feeds = 0 := by
  obtain ⟨payload, hmem, h⟩ := List.mem_flatMap.mp h
  obtain ⟨htarget, rfl⟩ := mem_calls h
  unfold Dispatch.feeds
  rw [List.count_eq_zero.mpr (ht _ _ htarget), List.count_eq_zero.mpr (hp _ hmem)]

end Targets

namespace Pipeline

variable {π σ : Type} [Stage π] {router : Router σ} {t : σ} {trace : List (Label π)}
  {p : Pipeline π σ} {lostEvents : List Event} {lostPayloads : List Envelope}

theorem Accounts.dispatched_subset (h : Accounts router t trace p lostEvents lostPayloads) :
    dispatched trace ⊆ emitted trace := by
  rw [h.payloads, List.append_assoc, List.append_assoc]
  exact List.subset_append_left _ _

theorem Accounts.received_subset (h : Accounts router t trace p lostEvents lostPayloads) :
    (received trace).map Prod.fst ⊆ accepted trace := by
  rw [h.events, List.append_assoc]
  exact List.subset_append_left _ _

theorem Accounts.transport_lines {targets : Targets} {p : Pipeline π Lines}
    (h : Accounts ⟨Lines.transport, targets⟩ .empty trace p lostEvents lostPayloads) :
    p.transport = (Lines.empty.sendAll ((dispatched trace).flatMap targets.calls)).2 :=
  h.transport.trans (congrArg Prod.snd (Lines.transport_sendAll _ _))

theorem Accounts.lists {targets : Targets} {p : Pipeline π Lines}
    (h : Accounts ⟨Lines.transport, targets⟩ .empty trace p lostEvents lostPayloads)
    (ht : targets.OnOneLine) (hp : ∀ payload ∈ dispatched trace, Bytes.lineFeed ∉ payload.body) :
    p.transport.Lists ((dispatched trace).flatMap targets.calls) := by
  rw [h.transport_lines]
  exact Lines.lists_sendAll.mpr fun d hd => ht.feeds_eq_zero hp hd

end Pipeline

section
variable {σ : Type} {router : Router σ} {t : σ} {inputs outputs : Nat}

theorem channel_bodies_on_one_line {config : ChannelConfig} {c : Channel}
    {trace : List (Label Channel)} {p : Pipeline Channel σ} (hc : Channel.ofConfig config = .ok c)
    (h : Reaches router (.start c inputs outputs t) trace p)
    (he : config.select ≠ none ∨ ∀ e ∈ accepted trace, Bytes.lineFeed ∉ e.payload) :
    ∀ payload ∈ dispatched trace, Bytes.lineFeed ∉ payload.body := by
  obtain ⟨_, _, ha⟩ := h.accounts
  obtain ⟨_, hselect, _⟩ := Channel.ofConfig_eq_ok hc
  intro payload hp
  have hemit : payload ∈ (c.emitAll (received trace)).1 := by
    rw [reaches_emitAll h]
    exact ha.dispatched_subset hp
  obtain ⟨batch, bodies, hbatch, hcollect, hcontains⟩ :=
    Channel.exists_contains_of_mem_emitAll (Channel.ofConfig_gate hc).1 hemit
  refine hcontains.lineFeed_not_mem fun body hbody => ?_
  obtain ⟨e, hmem, hbody⟩ := exists_mem_of_forall₂ hcollect hbody
  exact Channel.lineFeed_not_mem_collect hbody
    (he.imp (Role.compile_ne_none hselect) fun he => he e (ha.received_subset (hbatch hmem)))

theorem joiner_bodies_on_one_line {config : JoinerConfig} {j : Joiner}
    {trace : List (Label Joiner)} {p : Pipeline Joiner σ} (hj : Joiner.ofConfig config = .ok j)
    (h : Reaches router (.start j inputs outputs t) trace p)
    (he : config.select ≠ none ∨ ∀ e ∈ accepted trace, Bytes.lineFeed ∉ e.payload) :
    ∀ payload ∈ dispatched trace, Bytes.lineFeed ∉ payload.body := by
  obtain ⟨_, _, ha⟩ := h.accounts
  obtain ⟨opened, hh⟩ := reaches_joinerHistory hj h
  have hselect := JoinEngine.compile_select (Joiner.ofConfig_eq_ok.mp hj).1
  intro payload hp
  have hemit := ha.dispatched_subset hp
  rw [hh.payloads] at hemit
  obtain ⟨store, hstore, hjoin⟩ := List.mem_filterMap.mp hemit
  refine JoinEngine.lineFeed_not_mem_join hjoin
    (he.imp (Role.compile_ne_none hselect) fun he topic e hmem => ?_)
  have hreceived : e ∈ ((received trace).map Prod.fst).filter (·.topic = topic) := by
    rw [← hh.events topic]
    exact List.mem_append_left _ (List.mem_flatMap.mpr ⟨store, hstore, hmem⟩)
  exact he e (ha.received_subset (List.mem_filter.mp hreceived).1)

end

/-- What is written of dispatches is their lines one after another, so that it has a line feed for
each and those that are in their targets and bodies. This is what a run leaves that makes these
dispatches, each on a line of its own if the targets are on one line and what goes out is selected
or comes from events whose payloads have no line feeds. -/
theorem transcripts_of_dispatches (ds : List Dispatch) :
    let s := (Lines.empty.sendAll ds).2
    (Lines.empty.sendAll ds).1 = List.replicate ds.length (.ok ()) ∧
    s.written.toList = ds.flatMap (fun d => (Lines.line d).toList ++ ['\n']) ∧
    s.count = ds.length % 2 ^ 64 ∧
    s.written.toList.count '\n' = ds.length + (ds.map Dispatch.feeds).sum ∧
    (s.Lists ds ↔ ∀ d ∈ ds, d.feeds = 0) ∧
    (∀ (config : ChannelConfig) (c : Channel), Channel.ofConfig config = .ok c →
      ∀ inputs outputs trace p,
        Reaches ⟨Lines.transport, config.targets⟩ (.start c inputs outputs .empty) trace p →
        (dispatched trace).flatMap config.targets.calls = ds →
        p.transport = s ∧ (config.targets.OnOneLine →
          (config.select ≠ none ∨ ∀ e ∈ accepted trace, Bytes.lineFeed ∉ e.payload) →
          p.transport.Lists ds)) ∧
    ∀ (config : JoinerConfig) (j : Joiner), Joiner.ofConfig config = .ok j →
      ∀ inputs outputs trace p,
        Reaches ⟨Lines.transport, config.targets⟩ (.start j inputs outputs .empty) trace p →
        (dispatched trace).flatMap config.targets.calls = ds →
        p.transport = s ∧ (config.targets.OnOneLine →
          (config.select ≠ none ∨ ∀ e ∈ accepted trace, Bytes.lineFeed ∉ e.payload) →
          p.transport.Lists ds) := by
  intro s
  have hwritten := Lines.written_sendAll_empty ds
  refine ⟨Lines.sendAll_outcomes .empty ds, hwritten, Lines.count_sendAll_empty ds,
    hwritten ▸ Lines.count_lines ds, Lines.lists_sendAll, ?_, ?_⟩
  · rintro config c hc inputs outputs trace p h rfl
    obtain ⟨_, _, ha⟩ := h.accounts
    exact ⟨ha.transport_lines, fun ht he => ha.lists ht (channel_bodies_on_one_line hc h he)⟩
  · rintro config j hj inputs outputs trace p h rfl
    obtain ⟨_, _, ha⟩ := h.accounts
    exact ⟨ha.transport_lines, fun ht he => ha.lists ht (joiner_bodies_on_one_line hj h he)⟩

/-- Events go out as they came. -/
def passThrough : ChannelConfig where
  listenAddr := ⟨.v4 [0, 0, 0, 0], 8080⟩
  serviceRoute := "in"
  source := none
  binding := "event"
  mode := .stream
  trigger := none
  filter := none
  select := none
  targets := ⟨none, some ⟨"sink", "sink"⟩⟩

/-- An event whose payload is on two lines. -/
def brokenEvent : Event :=
  ⟨none, "in", jsonType, Bytes.ofString "\x7b\"x\":\ntrue\x7d"⟩

theorem value_brokenEvent :
    brokenEvent.value = .ok (Value.ofJson (.object [("x", .bool true)])) := by
  have hparse : Json.parse? brokenEvent.payload = some (.object [("x", .bool true)]) := by
    unfold brokenEvent
    cbv
  exact Event.value_of_object hparse

/-- The payload that is selected is on one line, and so is that of a pair. -/
theorem transcripts_of_selected_and_pair :
    let config : ChannelConfig := { passThrough with select := some "event" }
    let c : Channel := ⟨"event", none, some ⟨"event", ["event"], .variable "event"⟩, none⟩
    let selected : Envelope := ⟨Bytes.ofString "\x7b\"x\":true\x7d"⟩
    let a : Event := ⟨none, "A", jsonType, Bytes.ofString "\x7b\x7d"⟩
    let b : Event := ⟨none, "B", jsonType, Bytes.ofString "\x7b\x7d"⟩
    let pair : Envelope := ⟨Bytes.ofString "[\x7b\"A\":\x7b\x7d,\"B\":\x7b\x7d\x7d]"⟩
    let invoked : Dispatch := ⟨.invoke, ⟨"sink", "sink"⟩, selected⟩
    let published : Dispatch := ⟨.publish, ⟨"sink", "sink"⟩, pair⟩
    let router : Router Lines := ⟨Lines.transport, equalPairs.targets⟩
    (Channel.ofConfig config = .ok c ∧ config.targets.OnOneLine ∧ config.select ≠ none ∧
      ∃ trace p, Reaches ⟨Lines.transport, config.targets⟩ (.start c 1 1 .empty) trace p ∧
        accepted trace = [brokenEvent] ∧ p.transport.Lists [invoked]) ∧
    Joiner.ofConfig equalPairs = .ok pairJoiner ∧ equalPairs.targets.OnOneLine ∧
    ∃ trace p, Reaches router (.start pairJoiner 2 1 .empty) trace p ∧
      accepted trace = [a, b] ∧ (∀ e ∈ [a, b], Bytes.lineFeed ∉ e.payload) ∧
      p.transport.Lists [published] := by
  intro config c selected a b pair invoked published router
  have hconfig : Channel.ofConfig config = .ok c := by
    unfold config c
    cbv
  have hone : config.targets.OnOneLine := by
    rintro (_ | _) target ht <;> cases ht
    decide
  have hpairs : equalPairs.targets.OnOneLine := by
    rintro (_ | _) target ht <;> cases ht
    decide
  have hselect : config.select ≠ none := Option.some_ne_none _
  refine ⟨⟨hconfig, hone, hselect, ?_⟩, ofConfig_equalPairs, hpairs, ?_⟩
  · have hcollect : c.collect brokenEvent = .ok selected.body :=
      Channel.collect_of_binding rfl value_brokenEvent (by unfold selected; cbv)
    have hreact : (Stage.receive c brokenEvent 0).payload = some selected := by
      change (Channel.react c brokenEvent 0).payload = _
      unfold Channel.react Channel.process
      rw [hcollect]
      rfl
    have hstart : Reaches ⟨Lines.transport, config.targets⟩ (.start c 1 1 .empty) [] _ := .start
    have hreceived := (hstart.next (.accept (e := brokenEvent) rfl rfl)).next
      (.receive rfl (rfl : receive? _ 0 = _))
    have h := (hreceived.next (.send (send?_of_push hreact rfl))).next (.dispatch rfl rfl)
    obtain ⟨_, _, _, _, _, hchannel, _⟩ := transcripts_of_dispatches [invoked]
    exact ⟨_, _, h, rfl, (hchannel config c hconfig _ _ _ _ h rfl).2 hone (.inl hselect)⟩
  · have hstart : Reaches router (.start pairJoiner 2 1 .empty) [] _ := .start
    have htaken := (((hstart.next (.accept (e := a) rfl rfl)).next
      (.accept (e := b) rfl rfl)).next (.receive rfl (rfl : receive? _ 0 = _))).next
        (.receive rfl (rfl : receive? _ 0 = _))
    have hsent := (htaken.next (.close rfl)).next
      (.send (send?_of_push (by cbv : _ = some pair) rfl))
    have h := hsent.next (.dispatch rfl rfl)
    have hclean : ∀ e ∈ [a, b], Bytes.lineFeed ∉ e.payload := by
      unfold a b
      decide
    obtain ⟨_, _, _, _, _, _, hjoiner⟩ := transcripts_of_dispatches [published]
    exact ⟨_, _, h, rfl, hclean,
      (hjoiner equalPairs pairJoiner ofConfig_equalPairs _ _ _ _ h rfl).2 hpairs (.inr hclean)⟩

theorem ofSettings_passThrough :
    ChannelConfig.ofSettings (lookup? [("APP_ID", "in"), ("CHANNEL_TARGET", "sink")]) =
      .ok passThrough :=
  rfl

/-- A channel that selects nothing dispatches a payload with a line feed on two lines. -/
theorem dispatch_on_two_lines :
    let settings : Settings := lookup? [("APP_ID", "in"), ("CHANNEL_TARGET", "sink")]
    let c : Channel := ⟨"event", none, none, none⟩
    let d : Dispatch := ⟨.invoke, ⟨"sink", "sink"⟩, ⟨brokenEvent.payload⟩⟩
    ChannelConfig.ofSettings settings = .ok passThrough ∧ Channel.ofConfig passThrough = .ok c ∧
    ∃ trace p, Reaches ⟨Lines.transport, passThrough.targets⟩ (.start c 1 1 .empty) trace p ∧
      accepted trace = [brokenEvent] ∧
      (dispatched trace).flatMap passThrough.targets.calls = [d] ∧
      p.transport.written = "invoke sink/sink \x7b\"x\":\ntrue\x7d\n" ∧ p.transport.count = 1 ∧
      p.transport.written.toList.count '\n' = 2 ∧ ¬p.transport.Lists [d] := by
  intro settings c d
  have hreact : (Stage.receive c brokenEvent 0).payload = some d.payload := by
    change (Channel.react c brokenEvent 0).payload = _
    unfold Channel.react Channel.process Channel.collect
    rw [value_brokenEvent]
    rfl
  have hstart : Reaches ⟨Lines.transport, passThrough.targets⟩ (.start c 1 1 .empty) [] _ := .start
  have hreceived := (hstart.next (.accept (e := brokenEvent) rfl rfl)).next
    (.receive rfl (rfl : receive? _ 0 = _))
  have h := (hreceived.next (.send (send?_of_push hreact rfl))).next (.dispatch rfl rfl)
  obtain ⟨_, _, ha⟩ := h.accounts
  have hlines : _ = (Lines.empty.sendAll [d]).2 := ha.transport_lines
  have hwritten : (Lines.empty.sendAll [d]).2.written =
      "invoke sink/sink \x7b\"x\":\ntrue\x7d\n" := by
    unfold d brokenEvent
    cbv
  refine ⟨ofSettings_passThrough, rfl, _, _, h, rfl, rfl, ?_⟩
  rw [hlines, hwritten]
  refine ⟨rfl, rfl, by decide, fun hl => ?_⟩
  have hfeeds : d.feeds = 0 := Lines.lists_sendAll.mp hl d (List.mem_singleton_self d)
  revert hfeeds
  unfold d
  decide

end EventStream
