import EventStream.Proofs.Channel.Objects
import EventStream.Proofs.Server.Admission
import EventStream.Proofs.Window.CrossJoin
import EventStream.Proofs.Window.Independence

namespace EventStream

/-- Objects are never counted as invalid. -/
theorem Valid.invalid_ofEvents {events : List Event}
    (h : ∀ e ∈ events, ∃ entries, Json.parse? e.payload = some (.object entries)) :
    (Valid.ofEvents events).invalid = 0 := by
  induction events with
  | nil => rfl
  | cons e r ih =>
    obtain ⟨_, hobject⟩ := h e List.mem_cons_self
    unfold Valid.ofEvents
    simp only [Event.value_of_object hobject]
    exact ih fun e he => h e (List.mem_cons_of_mem _ he)

/-- The store of a joiner: objects, under topics that the joiner has. -/
structure Joiner.Stored (topics : List String) (j : Joiner) : Prop where
  isObject : ∀ topic, ∀ e ∈ j.store.get topic,
    ∃ entries, Json.parse? e.payload = some (.object entries)
  topics : ∀ topic ∈ j.store.topics, topic ∈ topics

namespace Joiner.Stored

variable {topics : List String} {σ : Type} {router : Router σ} {p q : Pipeline Joiner σ}
  {l : Pipeline.Label Joiner}

/-- An emptied store keeps its topics. -/
theorem reset {j k : Joiner} (h : Stored topics j) (hk : k.store = j.store.reset) :
    Stored topics k := by
  refine ⟨fun topic e he => ?_, fun topic ht => ?_⟩
  · rw [hk, WindowStore.get_reset] at he
    cases he
  · rw [hk, WindowStore.topics_reset] at ht
    exact h.topics topic ht

theorem step (h : Stored topics p.processor)
    (hl : ∀ before e now, l = .received before e now → e.topic ∈ topics ∧
      ∃ entries, Json.parse? e.payload = some (.object entries))
    (hs : Pipeline.Step router p l q) : Stored topics q.processor := by
  cases l with
  | received before e now =>
    obtain ⟨htopic, hobject⟩ := hl before e now rfl
    obtain ⟨rfl, hq, _⟩ := hs.of_received
    rw [hq]
    refine ⟨fun topic e' he => ?_, fun topic ht => ?_⟩
    · change e' ∈ (p.processor.store.append e).get topic at he
      rw [WindowStore.get_append] at he
      rcases List.mem_append.mp he with he | he
      · exact h.isObject topic e' he
      · split at he
        · cases List.mem_singleton.mp he
          exact hobject
        · cases he
    · rcases (WindowStore.mem_topics_append _ _ _).mp ht with rfl | ht
      · exact htopic
      · exact h.topics topic ht
  | closed before =>
    obtain ⟨rfl, hq, _⟩ := hs.of_closed
    exact h.reset (congrArg Joiner.store hq)
  | accepted | sent | dispatched | inputClosed | finished | shutDown =>
    rcases hs.processor_cases rfl rfl with ⟨hq, _⟩ | ⟨hq, _⟩
    · exact hq ▸ h
    · exact h.reset (congrArg Joiner.store hq)

end Joiner.Stored

variable {σ : Type}

theorem Service.ofChannel_input {c : ChannelConfig} {transport : Transport σ} {t : σ}
    {inputs outputs : Nat} {s : Service Channel σ}
    (h : Service.ofChannel c transport t inputs outputs = .ok s) : s.pipeline.input.items = [] := by
  obtain ⟨channel, _, h⟩ := bind_eq_ok.mp h
  cases h
  rfl

theorem Service.ofJoiner_eq_ok {c : JoinerConfig} {transport : Transport σ} {t : σ}
    {inputs outputs : Nat} {s : Service Joiner σ}
    (h : Service.ofJoiner c transport t inputs outputs = .ok s) :
    s.server = .ofJoiner c ∧ s.pipeline.input.items = [] ∧
      s.pipeline.processor.store = .ofTopics [c.left.topic, c.right.topic] := by
  obtain ⟨joiner, hj, h⟩ := bind_eq_ok.mp h
  cases h
  obtain ⟨hengine, hstore⟩ := Joiner.ofConfig_eq_ok.mp hj
  have htopics : joiner.engine.topics = [c.left.topic, c.right.topic] := by
    obtain ⟨_, _, hengine⟩ := bind_eq_ok.mp hengine
    obtain ⟨_, _, hengine⟩ := bind_eq_ok.mp hengine
    rw [← Except.ok.inj hengine]
    rfl
  rw [htopics] at hstore
  refine ⟨rfl, ?_⟩
  unfold Service.pipeline
  simp only
  split
  next => exact ⟨rfl, hstore⟩
  next =>
    -- a joiner without schedule has dropped the window that it began with
    refine ⟨rfl, ?_⟩
    change joiner.store.reset = _
    rw [hstore, WindowStore.reset_ofTopics]

/-- A server of a joiner knows two topics. -/
theorem IngestServer.topic_of_joiner {c : JoinerConfig} {e : Event}
    (h : (IngestServer.ofJoiner c).Admits e) : e.topic ∈ [c.left.topic, c.right.topic] := by
  obtain ⟨pattern, place, hmem, ht⟩ := h.topic
  simp only [endpoints, ofJoiner, Option.map_none, Option.toList_none, List.append_nil,
    List.map_cons, List.map_nil, List.cons_append, List.nil_append, List.mem_cons, List.not_mem_nil,
    or_false, Prod.mk.injEq] at hmem
  rcases hmem with ⟨_, rfl⟩ | ⟨_, rfl⟩ | ⟨_, rfl⟩ | ⟨_, rfl⟩
  · cases ht
  · cases ht
  · rw [← Option.some.inj ht]
    exact List.mem_cons_self
  · rw [← Option.some.inj ht]
    exact List.mem_cons_of_mem _ List.mem_cons_self

theorem Service.reaches_stored {first s : Service Joiner σ} {trace : List (Happening Joiner)}
    {topics : List String} (hi : first.pipeline.input.items = [])
    (hstart : Joiner.Stored topics first.pipeline.processor)
    (htopics : ∀ e, first.server.Admits e → e.topic ∈ topics) (h : first.Reaches trace s) :
    Joiner.Stored topics s.pipeline.processor := by
  induction h with
  | start => exact hstart
  | request _ _ ih => exact ih
  | step hr hs _ ih =>
    refine ih.step (fun before e now hl => ?_) hs
    subst hl
    have hadmits := (hr.admits hi).1 e hs.mem_of_received
    exact ⟨htopics e hadmits, hadmits.isObject⟩

/-- What comes to a processor through its server is an object under the topic of its route, so that
no processor drops an event for what it is. -/
theorem only_objects_are_processed :
    (∀ (s : IngestServer) (q : Queue Event) (r : Request), ∃ new,
      (s.handle q r).queue.items = q.items ++ new ∧ ∀ e ∈ new,
        (∃ entries, Json.parse? e.payload = some (.object entries)) ∧ e.contentType = jsonType ∧
        ∃ pattern place, s.place? r = some place ∧ (pattern, place) ∈ s.endpoints ∧
          Path.Matches (Path.parts pattern) r.place ∧ place.topic? = some e.topic) ∧
    (∀ (c : ChannelConfig) (transport : Transport σ) (t : σ) (inputs outputs : Nat)
      (first s : Service Channel σ) (trace : List (Happening Channel)),
      Service.ofChannel c transport t inputs outputs = .ok first → first.Reaches trace s →
        ∀ before e now err, .step (.received before e now) ∈ trace →
          before.process e now ≠ .error (.event err)) ∧
    (∀ (c : JoinerConfig) (transport : Transport σ) (t : σ) (inputs outputs : Nat)
      (first s : Service Joiner σ) (trace : List (Happening Joiner)),
      Service.ofJoiner c transport t inputs outputs = .ok first → first.Reaches trace s →
        (∀ topic, (Valid.ofEvents (s.pipeline.processor.store.get topic)).invalid = 0) ∧
        ∀ topic ∈ s.pipeline.processor.store.topics,
          topic = c.left.topic ∨ topic = c.right.topic) := by
  refine ⟨fun s q r => ?_, ?_, ?_⟩
  · refine ⟨_, congrArg Queue.items (IngestServer.handle_exchange s q r).1, fun e he => ?_⟩
    obtain ⟨hobject, htype, place, hp, ht⟩ :=
      IngestServer.success?_admitted (Option.mem_toList.mp he)
    obtain ⟨pattern, hmem, hm⟩ := IngestServer.mem_endpoints_of_place? hp
    exact ⟨hobject, htype, pattern, place, hp, hmem, hm, ht⟩
  · intro c transport t inputs outputs first s trace hfirst h before e now err hmem
    have hadmits := (h.admits (Service.ofChannel_input hfirst)).2 before e now hmem
    exact before.process_noEventError hadmits.isObject now err
  · intro c transport t inputs outputs first s trace hfirst h
    obtain ⟨hserver, hi, hstore⟩ := Service.ofJoiner_eq_ok hfirst
    have hstart : Joiner.Stored [c.left.topic, c.right.topic] first.pipeline.processor := by
      refine ⟨fun topic e he => ?_, fun topic ht => ?_⟩
      · rw [hstore, WindowStore.get_ofTopics] at he
        cases he
      · rw [hstore] at ht
        exact (WindowStore.mem_topics_ofTopics _ _).mp ht
    have hstored := Service.reaches_stored hi hstart
      (fun e he => IngestServer.topic_of_joiner (hserver ▸ he)) h
    refine ⟨fun topic => Valid.invalid_ofEvents (hstored.isObject topic), fun topic ht => ?_⟩
    simpa using hstored.topics topic ht

/-- All that is posted goes out. -/
def plainChannel : ChannelConfig where
  listenAddr := ⟨.v4 [127, 0, 0, 1], 80⟩
  serviceRoute := "in"
  source := none
  binding := "event"
  mode := .stream
  trigger := none
  filter := none
  select := none
  targets := ⟨some ⟨"sink", "sink"⟩, none⟩

def pairService : Service Joiner Lines where
  server := .ofJoiner equalPairs
  router := ⟨Lines.transport, equalPairs.targets⟩
  timeline := ⟨.start pairJoiner 2 1 .empty, 0, Schedule.start? equalPairs.window 0⟩

theorem ofJoiner_equalPairs :
    Service.ofJoiner equalPairs Lines.transport .empty 2 1 = .ok pairService := by
  unfold Service.ofJoiner
  rw [ofConfig_equalPairs]
  rfl

def postedTo (path body : String) : Request :=
  ⟨"POST", path, some jsonType, Bytes.ofString body⟩

/-- An object reaches a channel; of an object and a list that are posted to a joiner, the object is
kept. -/
theorem only_objects_are_processed_of_those_posted :
    (∃ first s before e, Service.ofChannel plainChannel Lines.transport .empty 2 1 = .ok first ∧
      first.Reaches [.request (postedTo "/in" "\x7b\x7d"), .step (.received before e 0)] s ∧
      ∀ err, before.process e 0 ≠ .error (.event err)) ∧
    Service.ofJoiner equalPairs Lines.transport .empty 2 1 = .ok pairService ∧
      let s := (pairService.serve [postedTo "/A" "\x7b\x7d", postedTo "/A" "[]"]).2
      (s.pipeline.processor.store.get "A").length = 1 ∧
      ∀ topic, (Valid.ofEvents (s.pipeline.processor.store.get topic)).invalid = 0 := by
  obtain ⟨_, hchannel, hjoiner⟩ := only_objects_are_processed (σ := Lines)
  constructor
  · obtain ⟨first, hfirst, e, q, he, hq⟩ : ∃ first : Service Channel Lines,
        Service.ofChannel plainChannel Lines.transport .empty 2 1 = .ok first ∧ ∃ e q,
        let p := (first.handle (postedTo "/in" "\x7b\x7d")).2.pipeline
        p.input.items.head? = some e ∧ p.receive? 0 = some q :=
      ⟨_, rfl, _, _, rfl, rfl⟩
    have h := (Service.Reaches.start.request (postedTo "/in" "\x7b\x7d")).step
      (.receive he hq) rfl
    exact ⟨_, _, _, _, hfirst, h, fun err => hchannel _ _ _ _ _ _ _ _ hfirst h _ _ _ err (by simp)⟩
  · obtain ⟨trace, s, h, hs⟩ := pairService.attains_serve
      [postedTo "/A" "\x7b\x7d", postedTo "/A" "[]"]
    refine ⟨ofJoiner_equalPairs, by cbv, ?_⟩
    exact hs ▸ (hjoiner _ _ _ _ _ _ _ _ ofJoiner_equalPairs h).1

end EventStream
