import EventStream.Proofs.Pipeline.ServiceRuns
import EventStream.Proofs.Server.Exchanges
import EventStream.Proofs.Server.Routes

namespace EventStream

/-- An event as a server lets it in: an object, under the topic of one of its places. -/
structure IngestServer.Admits (s : IngestServer) (e : Event) : Prop where
  isObject : ∃ entries, Json.parse? e.payload = some (.object entries)
  contentType : e.contentType = jsonType
  topic : ∃ pattern place, (pattern, place) ∈ s.endpoints ∧ place.topic? = some e.topic

namespace IngestServer

section
variable {s : IngestServer} {r : Request} {e : Endpoint}

theorem mem_endpoints_of_place? (h : s.place? r = some e) :
    ∃ pattern, (pattern, e) ∈ s.endpoints ∧ Path.Matches (Path.parts pattern) r.place := by
  unfold place? at h
  split at h
  next => cases h
  next => exact Path.mem_lookup (List.mem_of_find?_eq_some h)

/-- What a request puts into a queue is an object under the topic of the place that takes it. -/
theorem success?_admitted {q : Queue Event} {event : Event}
    (h : s.success? (.request r q) = some event) :
    (∃ entries, Json.parse? event.payload = some (.object entries)) ∧
      event.contentType = jsonType ∧ ∃ place, s.place? r = some place ∧
        place.topic? = some event.topic := by
  obtain ⟨e, hp, h⟩ := Option.bind_eq_some_iff.mp h
  obtain ⟨topic, ht, h⟩ := Option.bind_eq_some_iff.mp h
  split at h
  next =>
    cases hd : decodedAt e topic r with
    | error err => rw [hd] at h; cases h
    | ok decoded =>
      rw [hd] at h
      cases h
      obtain ⟨htopic, htype, hobject⟩ := Event.decode_eq_ok hd
      exact ⟨hobject, htype, e, hp, htopic ▸ ht⟩
  next => cases h

theorem admits_of_mem_handle {q : Queue Event} (hq : ∀ event ∈ q.items, s.Admits event)
    {event : Event} (h : event ∈ (s.handle q r).queue.items) : s.Admits event := by
  rw [(handle_exchange s q r).1] at h
  rcases List.mem_append.mp h with h | h
  · exact hq event h
  · obtain ⟨hobject, htype, place, hp, ht⟩ := success?_admitted (Option.mem_toList.mp h)
    obtain ⟨pattern, hmem, _⟩ := mem_endpoints_of_place? hp
    exact ⟨hobject, htype, pattern, place, hmem, ht⟩

end

end IngestServer

namespace Service

variable {π σ : Type} [Stage π] {first s : Service π σ} {trace : List (Happening π)}

/-- All events that are queued or have been received were let in by the server. -/
theorem Reaches.admits (hi : first.pipeline.input.items = []) (h : Reaches first trace s) :
    (∀ e ∈ s.pipeline.input.items, first.server.Admits e) ∧
      ∀ before e now, .step (.received before e now) ∈ trace → first.server.Admits e := by
  induction h with
  | start =>
    rw [hi]
    exact ⟨nofun, nofun⟩
  | @request _ s r hr ih =>
    refine ⟨fun e he => ?_, fun before e now he => ?_⟩
    · have hmem : e ∈ (s.server.handle s.pipeline.input r).queue.items := he
      rw [hr.server_eq] at hmem
      exact IngestServer.admits_of_mem_handle ih.1 hmem
    · rcases List.mem_append.mp he with he | he
      · exact ih.2 before e now he
      · cases List.mem_singleton.mp he
  | step _ hs hl ih =>
    refine ⟨fun e he => ih.1 e (hs.input_subset hl he), fun before e now he => ?_⟩
    rcases List.mem_append.mp he with he | he
    · exact ih.2 before e now he
    · cases List.mem_singleton.mp he
      exact ih.1 e hs.mem_of_received

end Service

end EventStream
