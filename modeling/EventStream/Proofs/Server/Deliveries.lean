import EventStream.Proofs.Server.Decoding
import EventStream.Server.Ingest

namespace EventStream

namespace Endpoint

/-- The topic of the events that are posted to a place. -/
def topic? : Endpoint → Option String
  | .invocation topic => some topic
  | .delivery topic => some topic
  | _ => none

/-- What a body without content type is taken for. -/
def defaultType : Endpoint → String
  | .delivery _ => cloudEventsType
  | _ => ""

/-- The answer to a delivery tells its sender what has become of it. -/
def tells (word : String) (a : Response) : Bool :=
  a.status == 200 && a.body == (Json.object [("status", .string word)]).write

/-- The answer says that the event was taken; an invocation gets its body back. -/
def isSuccess (r : Request) (a : Response) : Endpoint → Bool
  | .invocation _ => a.status == 200 && a.body == r.body
  | _ => tells "SUCCESS" a

/-- The answer says that the body can never be taken. -/
def isRefusal (a : Response) : Endpoint → Bool
  | .invocation _ => a.status == 415 || a.status == 400
  | _ => tells "DROP" a

/-- The answer says that the event may be taken later. -/
def isDeferral (a : Response) : Endpoint → Bool
  | .invocation _ => a.status == 503
  | _ => tells "RETRY" a

/-- No answer says two of these things. -/
theorem answers_apart {e : Endpoint} (r : Request) (a : Response) (ht : e.topic?.isSome) :
    (e.isSuccess r a = true → e.isRefusal a = false ∧ e.isDeferral a = false) ∧
      (e.isRefusal a = true → e.isSuccess r a = false ∧ e.isDeferral a = false) ∧
      (e.isDeferral a = true → e.isSuccess r a = false ∧ e.isRefusal a = false) := by
  cases e with
  | health | subscriptions => cases ht
  | invocation =>
    simp only [isSuccess, isRefusal, isDeferral, Bool.and_eq_true, Bool.or_eq_true,
      Bool.and_eq_false_iff, Bool.or_eq_false_iff, beq_iff_eq, beq_eq_false_iff_ne]
    omega
  | delivery =>
    have hwords : ∀ v w : String, tells v a = true →
        (Json.object [("status", .string v)]).write ≠ (Json.object [("status", .string w)]).write →
        tells w a = false := by
      intro v w hv hne
      simp only [tells, Bool.and_eq_true, beq_iff_eq] at hv
      simp [tells, hv.2, hne]
    exact ⟨fun h => ⟨hwords _ _ h (by decide), hwords _ _ h (by decide)⟩,
      fun h => ⟨hwords _ _ h (by decide), hwords _ _ h (by decide)⟩,
      fun h => ⟨hwords _ _ h (by decide), hwords _ _ h (by decide)⟩⟩

end Endpoint

namespace IngestServer

/-- The place that takes a request, if its body is not too large. -/
def place? (s : IngestServer) (r : Request) : Option Endpoint :=
  if r.tooLarge then none else (s.found r).find? (·.takes r.method)

/-- What the body of a request is decoded to at a place with a topic. -/
def decodedAt (e : Endpoint) (topic : String) (r : Request) : Except IngestError Event :=
  Event.decode topic (r.readableType.getD e.defaultType) r.body

section
variable {s : IngestServer} {q after : Queue Event} {r : Request} {e : Endpoint} {topic : String}
  {err : IngestError}

theorem not_tooLarge_of_place? (h : s.place? r = some e) : r.tooLarge = false := by
  unfold place? at h
  split at h
  next => cases h
  next hlarge => exact Bool.eq_false_iff.mpr hlarge

theorem handle_of_place? (h : s.place? r = some e) : s.handle q r = s.answer q r e := by
  unfold place? at h
  split at h
  next => cases h
  next =>
    unfold handle
    split
    next hfound => rw [hfound] at h; cases h
    next => rw [h]

/-- Only a request that is posted to a place with a topic does anything. -/
theorem handle_elsewhere (h : (s.place? r).bind Endpoint.topic? = none) :
    (s.handle q r).queue = q ∧ (s.handle q r).measured = [] := by
  cases hp : s.place? r with
  | some e =>
    rw [handle_of_place? hp]
    rw [hp] at h
    cases e with
    | health | subscriptions => exact ⟨rfl, rfl⟩
    | invocation | delivery => cases h
  | none =>
    unfold handle
    split
    next => exact ⟨rfl, rfl⟩
    next hfound =>
      unfold place? at hp
      split
      next => exact ⟨rfl, rfl⟩
      next e he =>
        rw [he] at hp
        cases hlarge : r.tooLarge with
        | false => rw [hlarge] at hp; cases hp
        | true =>
          cases e with
          | health | subscriptions => exact ⟨rfl, rfl⟩
          | invocation | delivery => simp [answer, post, hlarge]

/-- What comes of the attempt to put the event of a request into the queue. -/
def offered (q : Queue Event) (e : Endpoint) (topic : String) (r : Request) :
    Except IngestError (Queue Event) :=
  offer q topic (r.readableType.getD e.defaultType) r.body

theorem handle_of_ok (hp : s.place? r = some e) (ht : e.topic? = some topic)
    (ho : offered q e topic r = .ok after) :
    (s.handle q r).queue = after ∧
      (s.handle q r).measured = [.received topic, .queueDepth after.size] ∧
      e.isSuccess r (s.handle q r).response = true := by
  rw [handle_of_place? hp]
  have hsmall := not_tooLarge_of_place? hp
  unfold offered at ho
  cases e with
  | health | subscriptions => cases ht
  | invocation =>
    cases ht
    simp only [Endpoint.defaultType] at ho
    simp [answer, post, hsmall, invoke, ho, measured, Endpoint.isSuccess]
  | delivery =>
    cases ht
    simp only [Endpoint.defaultType] at ho
    simp [answer, post, hsmall, deliver, ho, measured, Endpoint.isSuccess, Endpoint.tells, jsonPage,
      verdict]

theorem handle_of_error (hp : s.place? r = some e) (ht : e.topic? = some topic)
    (ho : offered q e topic r = .error err) :
    (s.handle q r).queue = q ∧ (s.handle q r).measured = [.dropped err.reason 1] ∧
      (if err.isRetryable then e.isDeferral (s.handle q r).response
        else e.isRefusal (s.handle q r).response) = true := by
  rw [handle_of_place? hp]
  have hsmall := not_tooLarge_of_place? hp
  unfold offered at ho
  cases e with
  | health | subscriptions => cases ht
  | invocation =>
    cases ht
    simp only [Endpoint.defaultType] at ho
    have hanswer : (if err.isRetryable then statusOf err == 503
        else statusOf err == 415 || statusOf err == 400) = true := by
      cases err <;> rfl
    simpa [answer, post, hsmall, invoke, ho, measured, Endpoint.isDeferral, Endpoint.isRefusal,
      Response.plain] using hanswer
  | delivery =>
    cases ht
    simp only [Endpoint.defaultType] at ho
    have hanswer : verdict (.error err) = if err.isRetryable then "RETRY" else "DROP" := rfl
    cases hretry : err.isRetryable <;>
      simp [answer, post, hsmall, deliver, ho, measured, Endpoint.isDeferral, Endpoint.isRefusal,
        Endpoint.tells, jsonPage, hanswer, hretry]

/-- The status of the answer to an invocation that is not decoded. -/
theorem status_of_decode_error (hp : s.place? r = some (.invocation topic))
    (hd : decodedAt (.invocation topic) topic r = .error err) :
    (s.handle q r).response.status = statusOf err := by
  have hsmall := not_tooLarge_of_place? hp
  have ho : offered q (.invocation topic) topic r = .error err := bind_eq_error.mpr (.inl hd)
  unfold offered at ho
  simp only [Endpoint.defaultType] at ho
  rw [handle_of_place? hp]
  simp [answer, post, hsmall, invoke, ho, Response.plain]

/-- What comes of a request to a place that takes events, all cases. -/
theorem handle_cases (hp : s.place? r = some e) (ht : e.topic? = some topic) (q : Queue Event) :
    (∃ event, decodedAt e topic r = .ok event ∧ q.isOpen = true ∧ q.size < q.capacity ∧
      (s.handle q r).queue = { q with items := q.items ++ [event] } ∧
      (s.handle q r).measured = [.received topic, .queueDepth (q.size + 1)] ∧
      e.isSuccess r (s.handle q r).response = true) ∨
    (∃ err, decodedAt e topic r = .error err ∧ (s.handle q r).queue = q ∧
      (s.handle q r).measured = [.dropped err.reason 1] ∧
      e.isRefusal (s.handle q r).response = true) ∨
    (∃ event, decodedAt e topic r = .ok event ∧ (q.isOpen = true → q.capacity ≤ q.size) ∧
      (s.handle q r).queue = q ∧
      (s.handle q r).measured = [.dropped (if q.isOpen then "queue_full" else "closed") 1] ∧
      e.isDeferral (s.handle q r).response = true) := by
  cases hd : decodedAt e topic r with
  | error err =>
    have ho : offered q e topic r = .error err := bind_eq_error.mpr (.inl hd)
    obtain ⟨hqueue, hmeasured, hanswer⟩ := handle_of_error hp ht ho
    rw [(Event.decode_error hd).isRetryable] at hanswer
    exact .inr (.inl ⟨err, rfl, hqueue, hmeasured, hanswer⟩)
  | ok event =>
    have ho : offered q e topic r = (q.push event).mapError .queue := by
      unfold offered offer
      unfold decodedAt at hd
      rw [hd]
      rfl
    cases hpush : q.push event with
    | ok after =>
      rw [hpush] at ho
      obtain ⟨hopen, hroom, rfl⟩ := Queue.push_eq_ok.mp hpush
      obtain ⟨hqueue, hmeasured, hanswer⟩ := handle_of_ok hp ht ho
      refine .inl ⟨event, rfl, hopen, hroom, hqueue, ?_, hanswer⟩
      rw [hmeasured, Queue.size, List.length_append]
      rfl
    | error d =>
      rw [hpush] at ho
      obtain ⟨hqueue, hmeasured, hanswer⟩ := handle_of_error hp ht ho
      have hfull : (q.isOpen = true → q.capacity ≤ q.size) ∧
          (IngestError.queue d).reason = if q.isOpen then "queue_full" else "closed" := by
        rcases Queue.push_eq_error.mp hpush with ⟨hopen, rfl⟩ | ⟨hopen, hroom, rfl⟩
        · rw [hopen]
          exact ⟨nofun, rfl⟩
        · rw [hopen]
          exact ⟨fun _ => hroom, rfl⟩
      exact .inr (.inr ⟨event, rfl, hfull.1, hqueue, hfull.2 ▸ hmeasured, hanswer⟩)

end

end IngestServer

end EventStream
