import EventStream.Proofs.Metrics.Tallies
import EventStream.Proofs.Server.Deliveries

namespace EventStream

/-- One thing that happens to a queue: a request is answered, or an event is received. -/
inductive Exchange where
  | request (r : Request) (before : Queue Event)
  | receive (e : Event)

namespace Exchange

def received? : Exchange → Option Event
  | .receive e => some e
  | _ => none

end Exchange

namespace IngestServer

/-- Why an event is not taken into a queue. -/
def lossReason (q : Queue Event) : Except IngestError Event → String
  | .error e => e.reason
  | .ok _ => if q.isOpen then "queue_full" else "closed"

/-- The event of a request that is answered with success. -/
def success? (s : IngestServer) : Exchange → Option Event
  | .receive _ => none
  | .request r q => do
    let e ← s.place? r
    let topic ← e.topic?
    if e.isSuccess r (s.handle q r).response then (decodedAt e topic r).toOption else none

/-- The reason why a request that brings a delivery is not answered with success. -/
def failure? (s : IngestServer) : Exchange → Option String
  | .receive _ => none
  | .request r q => do
    let e ← s.place? r
    let topic ← e.topic?
    if e.isSuccess r (s.handle q r).response then none
    else some (lossReason q (decodedAt e topic r))

/-- Requests and receives one after another, in any order. -/
inductive Exchanges (s : IngestServer) (first : Queue Event) (start : Metrics) :
    List Exchange → Queue Event → Metrics → Prop
  | start : Exchanges s first start [] first start
  | request {log q m} (r : Request) : Exchanges s first start log q m →
      Exchanges s first start (log ++ [.request r q]) (s.handle q r).queue
        (m.recordAll (s.handle q r).measured)
  | receive {log q m e after} : Exchanges s first start log q m → q.pop? = some (e, after) →
      Exchanges s first start (log ++ [.receive e]) after (m.record (.queueDepth after.size))

section
variable {s : IngestServer} {q : Queue Event} {r : Request} {e : Endpoint} {topic : String}

/-- At a place that takes events there is either a success or a failure. -/
theorem success_or_failure (hp : s.place? r = some e) (ht : e.topic? = some topic)
    (q : Queue Event) :
    (e.isSuccess r (s.handle q r).response = true ∧
      s.success? (.request r q) = (decodedAt e topic r).toOption ∧
      s.failure? (.request r q) = none) ∨
    (e.isSuccess r (s.handle q r).response = false ∧ s.success? (.request r q) = none ∧
      s.failure? (.request r q) = some (lossReason q (decodedAt e topic r))) := by
  cases h : e.isSuccess r (s.handle q r).response with
  | true => exact .inl ⟨rfl, by simp [success?, hp, ht, h], by simp [failure?, hp, ht, h]⟩
  | false => exact .inr ⟨rfl, by simp [success?, hp, ht, h], by simp [failure?, hp, ht, h]⟩

theorem exchange_elsewhere (h : (s.place? r).bind Endpoint.topic? = none) (q : Queue Event) :
    s.success? (.request r q) = none ∧ s.failure? (.request r q) = none := by
  cases hp : s.place? r with
  | none => exact ⟨by simp [success?, hp], by simp [failure?, hp]⟩
  | some e =>
    rw [hp, Option.bind_some] at h
    exact ⟨by simp [success?, hp, h], by simp [failure?, hp, h]⟩

/-- One request changes the queue by the event of its success, and counts that or its failure. -/
theorem handle_exchange (s : IngestServer) (q : Queue Event) (r : Request) :
    (s.handle q r).queue = { q with items := q.items ++ (s.success? (.request r q)).toList } ∧
    (q.size ≤ q.capacity → (s.handle q r).queue.size ≤ q.capacity) ∧
    (s.handle q r).measured.filterMap Measurement.received? =
      (s.success? (.request r q)).toList.map Event.topic ∧
    (s.handle q r).measured.filterMap Measurement.dropped? =
      (s.failure? (.request r q)).toList.map (·, 1) := by
  cases htaken : (s.place? r).bind Endpoint.topic? with
  | none =>
    obtain ⟨hqueue, hmeasured⟩ := handle_elsewhere (q := q) htaken
    obtain ⟨hs, hf⟩ := exchange_elsewhere htaken q
    rw [hqueue, hmeasured, hs, hf]
    exact ⟨by simp, id, rfl, rfl⟩
  | some topic =>
    obtain ⟨e, hp, ht⟩ := Option.bind_eq_some_iff.mp htaken
    have hapart := Endpoint.answers_apart r (s.handle q r).response (by rw [ht]; rfl)
    rcases handle_cases hp ht q with ⟨event, hd, _, hroom, hqueue, hmeasured, hanswer⟩ |
      ⟨err, hd, hqueue, hmeasured, hanswer⟩ | ⟨event, hd, _, hqueue, hmeasured, hanswer⟩
    · obtain ⟨_, hs, hf⟩ | ⟨h, _⟩ := success_or_failure hp ht q
      · rw [hqueue, hmeasured, hs, hf, hd]
        refine ⟨rfl, fun _ => ?_, ?_, rfl⟩
        · rw [Queue.size, List.length_append]
          exact hroom
        · rw [← (Event.decode_eq_ok hd).1]
          rfl
      · rw [hanswer] at h
        cases h
    · obtain ⟨h, _⟩ | ⟨_, hs, hf⟩ := success_or_failure hp ht q
      · rw [(hapart.2.1 hanswer).1] at h
        cases h
      · rw [hqueue, hmeasured, hs, hf, hd]
        exact ⟨by simp, id, rfl, rfl⟩
    · obtain ⟨h, _⟩ | ⟨_, hs, hf⟩ := success_or_failure hp ht q
      · rw [(hapart.2.2 hanswer).1] at h
        cases h
      · rw [hqueue, hmeasured, hs, hf, hd]
        exact ⟨by simp, id, rfl, rfl⟩

variable {first : Queue Event} {start : Metrics} {log : List Exchange} {m : Metrics}

/-- What a history leaves in the queue and in the counts. -/
theorem Exchanges.accounts (h : s.Exchanges first start log q m) :
    q.capacity = first.capacity ∧ (first.size ≤ first.capacity → q.size ≤ q.capacity) ∧
    log.filterMap Exchange.received? ++ q.items = first.items ++ log.filterMap s.success? ∧
    m.received = start.received.tally ((log.filterMap s.success?).map Event.topic) ∧
    m.dropped = start.dropped.tally (log.filterMap s.failure?) := by
  induction h with
  | start => simp [Counts.tally]
  | @request log q m r _ ih =>
    obtain ⟨hcapacity, hsize, hitems, hreceived, hdropped⟩ := ih
    obtain ⟨hqueue, hroom, htopics, hreasons⟩ := handle_exchange s q r
    refine ⟨?_, fun hfirst => ?_, ?_, ?_, ?_⟩
    · rw [hqueue, ← hcapacity]
    · have hkeeps := hroom (hsize hfirst)
      rw [hqueue] at hkeeps ⊢
      exact hkeeps
    · have hnothing : (Exchange.request r q).received?.toList = [] := rfl
      rw [filterMap_append_singleton, filterMap_append_singleton, hnothing, List.append_nil, hqueue,
        ← List.append_assoc, hitems, List.append_assoc]
    · rw [Metrics.received_recordAll, htopics, hreceived, Counts.tally_tally,
        filterMap_append_singleton, List.map_append]
    · rw [Metrics.dropped_recordAll m _ hreasons, hdropped, Counts.tally_tally,
        filterMap_append_singleton]
  | receive _ hpop ih =>
    obtain ⟨hcapacity, hsize, hitems, hreceived, hdropped⟩ := ih
    obtain ⟨rest, hq, rfl⟩ := Queue.pop?_eq_some.mp hpop
    simp only [filterMap_append_singleton]
    refine ⟨hcapacity, fun hfirst => ?_, ?_, ?_, ?_⟩
    · have := hsize hfirst
      simp only [Queue.size, hq, List.length_cons] at this
      simp only [Queue.size]
      omega
    · rw [hq] at hitems
      simpa [Exchange.received?, success?] using hitems
    · simpa [Metrics.record, success?] using hreceived
    · simpa [Metrics.record, failure?] using hdropped

end

/-- A body that brings nothing has its reason, and at a place for invocations a status for it. -/
theorem refusal_of_decode_error {s : IngestServer} {q : Queue Event} {r : Request} {e : Endpoint}
    {topic : String} {err : IngestError} (hp : s.place? r = some e) (ht : e.topic? = some topic)
    (hd : decodedAt e topic r = .error err) :
    let type := mediaType (r.readableType.getD e.defaultType)
    let known := type = jsonType ∨ type = cloudEventsType
    err.reason = (if known then "invalid_payload" else "unsupported_type") ∧
      (e = .invocation topic → (s.handle q r).response.status = if known then 400 else 415) := by
  intro type known
  have hstatus : e = .invocation topic → (s.handle q r).response.status = statusOf err := by
    rintro rfl
    exact status_of_decode_error hp hd
  rcases Event.decode_error_cases hd with ⟨rfl, hjson, hcloud⟩ | ⟨hreason, hknown⟩
  · have hunknown : ¬known := not_or.mpr ⟨hjson, hcloud⟩
    rw [if_neg hunknown, if_neg hunknown]
    exact ⟨rfl, hstatus⟩
  · rw [if_pos hknown, if_pos hknown]
    refine ⟨hreason, fun he => (hstatus he).trans ?_⟩
    cases err with
    | unsupportedType =>
      have hsame : "unsupported_type" = "invalid_payload" := hreason
      exact absurd hsame (by decide)
    | queue d => cases d <;> exact absurd hreason (by decide)
    | _ => rfl

/-- The answers of a server tell what has become of the events that the bodies of requests bring:
one by one, and over any sequence of requests and receives. -/
theorem answers_tell_queue (s : IngestServer) :
    (∀ (e : Endpoint) (topic : String) (r : Request) (event : Event),
      decodedAt e topic r = .ok event ↔
        Event.Brings topic (r.readableType.getD e.defaultType) r.body event) ∧
    (∀ (q : Queue Event) (r : Request) (e : Endpoint) (topic : String),
      s.place? r = some e → e.topic? = some topic →
      let handled := s.handle q r
      let brings := Event.Brings topic (r.readableType.getD e.defaultType) r.body
      let type := mediaType (r.readableType.getD e.defaultType)
      let known := type = jsonType ∨ type = cloudEventsType
      let reason := lossReason q (decodedAt e topic r)
      (e.isSuccess r handled.response = true ↔
        ∃ event, brings event ∧ handled.queue = { q with items := q.items ++ [event] }) ∧
      (e.isSuccess r handled.response = false → handled.queue = q) ∧
      (e.isRefusal handled.response = true ↔ ∀ event, ¬brings event) ∧
      ((∀ event, ¬brings event) →
        reason = (if known then "invalid_payload" else "unsupported_type") ∧
          (e = .invocation topic → handled.response.status = if known then 400 else 415)) ∧
      (∀ event, brings event →
        (e.isDeferral handled.response = true ↔ q.isOpen = false ∨ q.capacity ≤ q.size) ∧
          reason = if q.isOpen then "queue_full" else "closed") ∧
      handled.measured.filterMap Measurement.received? =
        (if e.isSuccess r handled.response then [topic] else []) ∧
      handled.measured.filterMap Measurement.dropped? =
        (if e.isSuccess r handled.response then [] else [(reason, 1)])) ∧
    ∀ (first : Queue Event) (start : Metrics) (log : List Exchange) (q : Queue Event) (m : Metrics),
      s.Exchanges first start log q m →
      let events := log.filterMap s.success?
      let failures := log.filterMap s.failure?
      (first.size ≤ first.capacity → q.size ≤ first.capacity) ∧
      log.filterMap Exchange.received? ++ q.items = first.items ++ events ∧
      (∀ topic, start.received.get [topic] ≤ Count.ceiling → m.received.get [topic] =
        min (start.received.get [topic] + (events.map Event.topic).count topic) Count.ceiling) ∧
      (∀ reason, start.dropped.get [reason] ≤ Count.ceiling → m.dropped.get [reason] =
        min (start.dropped.get [reason] + failures.count reason) Count.ceiling) := by
  refine ⟨fun e topic r event => Event.decode_iff_brings, ?_, ?_⟩
  · intro q r e topic hp ht handled brings type known reason
    have hapart := Endpoint.answers_apart r handled.response (by rw [ht]; rfl)
    have hbrings (event : Event) : decodedAt e topic r = .ok event ↔ brings event :=
      Event.decode_iff_brings
    have hgrown : ∀ event, q ≠ { q with items := q.items ++ [event] } := by
      intro event h
      have := congrArg Queue.size h
      simp [Queue.size] at this
    rcases handle_cases hp ht q with ⟨event, hd, hopen, hroom, hqueue, hmeasured, hanswer⟩ |
      ⟨err, hd, hqueue, hmeasured, hanswer⟩ | ⟨event, hd, hfull, hqueue, hmeasured, hanswer⟩
    · obtain ⟨hrefusal, hdeferral⟩ := hapart.1 hanswer
      have hclosed : ¬(q.isOpen = false ∨ q.capacity ≤ q.size) := by simp [hopen, hroom]
      have hafter : handled.queue = { q with items := q.items ++ [event] } := hqueue
      have hcounted : handled.measured = [.received topic, .queueDepth (q.size + 1)] := hmeasured
      have hsuccess : e.isSuccess r handled.response = true := hanswer
      simp [← hbrings, reason, hd, hafter, hcounted, hsuccess, hrefusal, hdeferral, hclosed,
        Measurement.received?, Measurement.dropped?, lossReason]
    · obtain ⟨hsuccess, hdeferral⟩ := hapart.2.1 hanswer
      have hnone : handled.queue = q := hqueue
      have hloss : handled.measured = [.dropped err.reason 1] := hmeasured
      have hrefused : e.isRefusal handled.response = true := hanswer
      have hrefusal := refusal_of_decode_error (q := q) hp ht hd
      simpa [← hbrings, reason, hd, hnone, hloss, hsuccess, hrefused, Measurement.received?,
        Measurement.dropped?, lossReason] using hrefusal
    · obtain ⟨hsuccess, hrefusal⟩ := hapart.2.2 hanswer
      have hnone : handled.queue = q := hqueue
      have hloss : handled.measured = [.dropped (lossReason q (.ok event)) 1] := hmeasured
      have hdeferred : e.isDeferral handled.response = true := hanswer
      have hno : q.isOpen = false ∨ q.capacity ≤ q.size := by
        cases hopen : q.isOpen with
        | false => exact .inl rfl
        | true => exact .inr (hfull hopen)
      simp [← hbrings, reason, hd, hnone, hloss, hsuccess, hrefusal, hdeferred, hno, hgrown,
        Measurement.received?, Measurement.dropped?, lossReason]
  · intro first start log q m h events failures
    obtain ⟨hcapacity, hsize, hitems, hreceived, hdropped⟩ := h.accounts
    refine ⟨fun hfirst => hcapacity ▸ hsize hfirst, hitems, fun topic ht => ?_, fun reason hr => ?_⟩
    · rw [hreceived]
      exact Counts.get_tally _ ht
    · rw [hdropped]
      exact Counts.get_tally _ hr

/-- A route for invocations and one for a stream. -/
def twoRoutes : IngestServer :=
  ⟨some ("in", "orders"), [⟨"pubsub", "clicks", "clicks"⟩]⟩

def order : Request :=
  ⟨"POST", "/in", some jsonType, Bytes.ofString "\x7b\"n\":1\x7d"⟩

def click : Request :=
  ⟨"POST", "/clicks", none, Bytes.ofString "\x7b\"id\":\"c1\",\"data\":\x7b\"x\":2\x7d\x7d"⟩

def listOrder : Request :=
  ⟨"POST", "/in", some jsonType, Bytes.ofString "[1]"⟩

def orderEvent : Event :=
  ⟨none, "orders", jsonType, Bytes.ofString "\x7b\"n\":1\x7d"⟩

def clickEvent : Event :=
  ⟨some "c1", "clicks", jsonType, Bytes.ofString "\x7b\"x\":2\x7d"⟩

/-- An order, a click in its envelope and a list come in that order, and then one more order: the
queue has room for two events. -/
theorem answers_tell_queue_of_two_routes :
    let one : Queue Event := ⟨2, [orderEvent], true⟩
    let two : Queue Event := ⟨2, [orderEvent, clickEvent], true⟩
    let log := [.request order (.empty 2), .request click one, .request listOrder two,
      .request order two, .receive orderEvent]
    (twoRoutes.handle (.empty 2) order).response = ⟨200, some jsonType, order.body⟩ ∧
    (twoRoutes.handle (.empty 2) order).queue = one ∧
    Event.Brings "orders" jsonType order.body orderEvent ∧
    (twoRoutes.handle one click).response =
      ⟨200, some jsonType, Bytes.ofString "\x7b\"status\":\"SUCCESS\"\x7d"⟩ ∧
    (twoRoutes.handle one click).queue = two ∧
    Event.Brings "clicks" cloudEventsType click.body clickEvent ∧
    (∀ event, ¬Event.Brings "orders" jsonType listOrder.body event) ∧
    (twoRoutes.handle two listOrder).response.status = 400 ∧
    (twoRoutes.handle two listOrder).queue = two ∧
    (twoRoutes.handle two order).response.status = 503 ∧
    (twoRoutes.handle two order).queue = two ∧
    ∃ m, twoRoutes.Exchanges (.empty 2) .empty log ⟨2, [clickEvent], true⟩ m ∧
      log.filterMap Exchange.received? ++ [clickEvent] = log.filterMap twoRoutes.success? ∧
      log.filterMap twoRoutes.success? = [orderEvent, clickEvent] ∧
      m.received.get ["orders"] = 1 ∧ m.received.get ["clicks"] = 1 ∧
      m.dropped.get ["invalid_payload"] = 1 ∧ m.dropped.get ["queue_full"] = 1 := by
  intro one two log
  obtain ⟨hdecoded, hanswers, hhistory⟩ := answers_tell_queue twoRoutes
  have hlistPlace : twoRoutes.place? listOrder = some (.invocation "orders") := rfl
  have hfirst : (twoRoutes.handle (.empty 2) order).queue = one := rfl
  have hreceipt : (twoRoutes.handle one click).response =
      ⟨200, some jsonType, Bytes.ofString "\x7b\"status\":\"SUCCESS\"\x7d"⟩ := by
    unfold one
    rfl
  have hsecond : (twoRoutes.handle one click).queue = two := rfl
  have hthird : (twoRoutes.handle two listOrder).queue = two := rfl
  have hfourth : (twoRoutes.handle two order).queue = two := rfl
  have hfailures : log.filterMap twoRoutes.failure? = ["invalid_payload", "queue_full"] := by
    decide +kernel
  have hrun : ∃ m, twoRoutes.Exchanges (.empty 2) .empty log ⟨2, [clickEvent], true⟩ m := by
    have h : twoRoutes.Exchanges (.empty 2) .empty [] (.empty 2) .empty := .start
    have h := hfirst ▸ h.request order
    have h := hsecond ▸ h.request click
    have h := hthird ▸ h.request listOrder
    have h := hfourth ▸ h.request order
    exact ⟨_, h.receive rfl⟩
  obtain ⟨m, hrun⟩ := hrun
  obtain ⟨_, hitems, hreceived, hdropped⟩ := hhistory _ _ _ _ _ hrun
  have hsuccesses : log.filterMap twoRoutes.success? = [orderEvent, clickEvent] := hitems.symm
  simp only [hsuccesses] at hreceived
  simp only [hfailures] at hdropped
  refine ⟨rfl, hfirst, (hdecoded (.invocation "orders") "orders" order orderEvent).mp rfl, hreceipt,
    hsecond, (hdecoded (.delivery "clicks") "clicks" click clickEvent).mp rfl,
    (hanswers two listOrder _ _ hlistPlace rfl).2.2.1.mp rfl, rfl, hthird, rfl, hfourth, m, hrun,
    hitems, hsuccesses, ?_⟩
  exact ⟨hreceived "orders" (Nat.zero_le _), hreceived "clicks" (Nat.zero_le _),
    hdropped "invalid_payload" (Nat.zero_le _), hdropped "queue_full" (Nat.zero_le _)⟩

end IngestServer

end EventStream
