import EventStream.Event.Decode
import EventStream.Proofs.Traversal

namespace EventStream

/-- An error that lies in the delivery itself. -/
def IngestError.IsLasting (e : IngestError) : Prop :=
  ∀ q, e ≠ .queue q

theorem IngestError.IsLasting.isRetryable {e : IngestError} (h : e.IsLasting) :
    e.isRetryable = false := by
  cases e with
  | queue d => exact absurd rfl (h d)
  | _ => rfl

namespace CloudEvent

theorem parse_error {body : Bytes} {e : IngestError} (h : parse body = .error e) :
    e = .invalidEnvelope := by
  unfold parse at h
  split at h
  · split at h <;> cases h
    rfl
  · cases h
    rfl

theorem payload_error {c : CloudEvent} {e : IngestError} (h : c.payload = .error e) :
    e.reason = "invalid_payload" := by
  unfold payload at h
  split at h
  · cases h
  · cases h
  · obtain ⟨d, _, rfl⟩ := mapError_eq_error.mp h
    rfl
  · cases h
    rfl

end CloudEvent

namespace Event

section
variable {topic contentType : String} {body : Bytes} {event : Event} {e : IngestError}

theorem ofEnvelope_error (h : ofEnvelope topic body = .error e) :
    e.reason = "invalid_payload" := by
  rcases bind_eq_error.mp h with h | ⟨_, _, h⟩
  · cases CloudEvent.parse_error h
    rfl
  · rcases bind_eq_error.mp h with h | ⟨_, _, h⟩
    · exact CloudEvent.payload_error h
    · cases h

/-- What a body brings to a topic: itself, if it comes as JSON, or else what it carries as an
envelope, with the name of the envelope if that has one. The payload is an object. -/
inductive Brings (topic contentType : String) (body : Bytes) : Event → Prop
  | plain {entries} : mediaType contentType = jsonType →
      Json.parse? body = some (.object entries) →
      Brings topic contentType body ⟨none, topic, jsonType, body⟩
  | enveloped {c payload entries} : mediaType contentType = cloudEventsType →
      CloudEvent.parse body = .ok c → c.payload = .ok payload →
      Json.parse? payload = some (.object entries) →
      Brings topic contentType body
        ⟨c.id.filter fun id => !id.isEmpty, topic, jsonType, payload⟩

theorem entries_eq_ok {entries : List (String × Json)} :
    event.entries = .ok entries ↔ Json.parse? event.payload = some (.object entries) := by
  unfold Event.entries
  constructor
  · intro h
    split at h <;> cases h
    assumption
  · intro h
    rw [h]

theorem decode_iff_ofBody : decode topic contentType body = .ok event ↔
    ofBody topic contentType body = .ok event ∧
      ∃ entries, Json.parse? event.payload = some (.object entries) := by
  unfold decode
  rw [bind_eq_ok]
  constructor
  · rintro ⟨event', hbody, h⟩
    split at h
    next entries hentries =>
      cases h
      exact ⟨hbody, entries, entries_eq_ok.mp hentries⟩
    next => cases h
  · rintro ⟨hbody, entries, hentries⟩
    refine ⟨event, hbody, ?_⟩
    rw [entries_eq_ok.mpr hentries]

/-- Decoding finds the event that a body brings. -/
theorem decode_iff_brings :
    decode topic contentType body = .ok event ↔ Brings topic contentType body event := by
  rw [decode_iff_ofBody]
  constructor
  · rintro ⟨hbody, entries, hentries⟩
    unfold ofBody at hbody
    split at hbody
    next hjson =>
      cases hbody
      exact .plain hjson hentries
    next =>
      split at hbody
      next hcloud =>
        obtain ⟨c, hc, hbody⟩ := bind_eq_ok.mp hbody
        obtain ⟨payload, hp, hbody⟩ := bind_eq_ok.mp hbody
        cases hbody
        exact .enveloped hcloud hc hp hentries
      next => cases hbody
  · intro h
    cases h with
    | plain hjson hentries =>
      refine ⟨?_, _, hentries⟩
      rw [ofBody, if_pos hjson]
    | enveloped hcloud hc hp hentries =>
      refine ⟨?_, _, hentries⟩
      have hother : mediaType contentType ≠ jsonType := hcloud ▸ by decide
      rw [ofBody, if_neg hother, if_pos hcloud]
      exact bind_eq_ok.mpr ⟨_, hc, bind_eq_ok.mpr ⟨_, hp, rfl⟩⟩

/-- A decoded event has the topic of its place and an object for its payload. -/
theorem decode_eq_ok (h : decode topic contentType body = .ok event) :
    event.topic = topic ∧ event.contentType = jsonType ∧
      ∃ entries, Json.parse? event.payload = some (.object entries) := by
  cases decode_iff_brings.mp h with
  | plain _ hentries | enveloped _ _ _ hentries => exact ⟨rfl, rfl, _, hentries⟩

/-- What is not decoded is of no known type, or else it is invalid. -/
theorem decode_error_cases (h : decode topic contentType body = .error e) :
    (e = .unsupportedType contentType ∧ mediaType contentType ≠ jsonType ∧
        mediaType contentType ≠ cloudEventsType) ∨
      e.reason = "invalid_payload" ∧
        (mediaType contentType = jsonType ∨ mediaType contentType = cloudEventsType) := by
  by_cases hjson : mediaType contentType = jsonType
  · refine .inr ⟨?_, .inl hjson⟩
    unfold decode ofBody at h
    rw [if_pos hjson] at h
    obtain h | ⟨event, _, h⟩ := bind_eq_error.mp h
    · cases h
    · split at h <;> cases h
      rfl
  by_cases hcloud : mediaType contentType = cloudEventsType
  · refine .inr ⟨?_, .inr hcloud⟩
    unfold decode ofBody at h
    rw [if_neg hjson, if_pos hcloud] at h
    obtain h | ⟨event, _, h⟩ := bind_eq_error.mp h
    · exact ofEnvelope_error h
    · split at h <;> cases h
      rfl
  · refine .inl ⟨?_, hjson, hcloud⟩
    unfold decode ofBody at h
    rw [if_neg hjson, if_neg hcloud] at h
    cases h
    rfl

/-- What keeps a delivery from being decoded lies in the delivery. -/
theorem decode_error (h : decode topic contentType body = .error e) : e.IsLasting := by
  rintro q rfl
  rcases decode_error_cases h with ⟨h, _⟩ | ⟨h, _⟩
  · cases h
  · cases q <;> exact absurd h (by decide)

end

end Event

end EventStream
