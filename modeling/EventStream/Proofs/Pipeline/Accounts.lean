import EventStream.Proofs.Output.Calls
import EventStream.Proofs.Pipeline.Runs

namespace EventStream.Pipeline

variable {π σ : Type} [Stage π] {router : Router σ} {t : σ} {trace : List (Label π)}
  {p q : Pipeline π σ} {l : Label π} {lostEvents : List Event} {lostPayloads : List Envelope}

structure Accounts (router : Router σ) (t : σ) (trace : List (Label π)) (p : Pipeline π σ)
    (lostEvents : List Event) (lostPayloads : List Envelope) : Prop where
  events : accepted trace = (received trace).map Prod.fst ++ p.input.items ++ lostEvents
  payloads : emitted trace =
    dispatched trace ++ p.output.items ++ p.waiting.toList ++ lostPayloads
  transport : p.transport =
    (router.transport.sendAll t ((dispatched trace).flatMap router.targets.calls)).2
  isOpen : p.output.isOpen = true
  room : 0 < p.output.capacity
  stopped : p.isRunning = false → p.input.items = [] ∧ p.waiting = none
  ended : p.isRunning = false → .shutDown ∈ trace ∨ ∃ last, .finished last ∈ trace
  lost : (lostEvents = [] ∧ lostPayloads = []) ∨ (p.isRunning = false ∧ .shutDown ∈ trace)

namespace Accounts

/-- Nothing is lost before the processor stops. -/
theorem running (events : accepted trace = (received trace).map Prod.fst ++ p.input.items)
    (payloads : emitted trace = dispatched trace ++ p.output.items ++ p.waiting.toList)
    (transport : p.transport =
      (router.transport.sendAll t ((dispatched trace).flatMap router.targets.calls)).2)
    (isOpen : p.output.isOpen = true) (room : 0 < p.output.capacity)
    (hr : p.isRunning = true) : Accounts router t trace p [] [] where
  events := by rw [List.append_nil, events]
  payloads := by rw [List.append_nil, payloads]
  transport := transport
  isOpen := isOpen
  room := room
  stopped := fun hs => absurd (hs.symm.trans hr) Bool.false_ne_true
  ended := fun hs => absurd (hs.symm.trans hr) Bool.false_ne_true
  lost := .inl ⟨rfl, rfl⟩

theorem start (router : Router σ) (processor : π) (inputs outputs : Nat) (t : σ) :
    Accounts router t [] (.start processor inputs outputs t) [] [] :=
  running rfl rfl rfl rfl (Nat.lt_of_lt_of_le Nat.zero_lt_one (Nat.le_max_right outputs 1)) rfl

theorem nothing_lost (h : Accounts router t trace p lostEvents lostPayloads)
    (hr : p.isRunning = true) : lostEvents = [] ∧ lostPayloads = [] :=
  h.lost.resolve_right fun ⟨hs, _⟩ => Bool.false_ne_true (hs.symm.trans hr)

/-- What was lost stays so. -/
theorem lost_append (h : Accounts router t trace p lostEvents lostPayloads) (l : Label π) :
    (lostEvents = [] ∧ lostPayloads = []) ∨
      (p.isRunning = false ∧ .shutDown ∈ trace ++ [l]) :=
  h.lost.imp_right fun ⟨hr, hd⟩ => ⟨hr, List.mem_append_left _ hd⟩

theorem ended_append (h : Accounts router t trace p lostEvents lostPayloads) (l : Label π)
    (hs : p.isRunning = false) :
    .shutDown ∈ trace ++ [l] ∨ ∃ last, .finished last ∈ trace ++ [l] :=
  (h.ended hs).imp (List.mem_append_left _) fun ⟨last, hl⟩ => ⟨last, List.mem_append_left _ hl⟩

/-- What the processor has not finished with when it stops is lost. -/
theorem stop (h : Accounts router t trace p [] []) (ha : l.accepted? = none)
    (hc : l.received? = none) (he : l.emitted? = none) (hd : l.dispatched? = none)
    (hl : (p.input.items = [] ∧ p.waiting = none ∧ ∃ last, l = .finished last) ∨ l = .shutDown) :
    Accounts router t (trace ++ [l]) p.stop p.input.items p.waiting.toList where
  events := by
    rw [accepted_append, received_append, ha, hc]
    simpa [Pipeline.stop, Queue.close] using h.events
  payloads := by
    rw [emitted_append, dispatched_append, he, hd]
    simpa [Pipeline.stop] using h.payloads
  transport := by
    rw [dispatched_append, hd, Option.toList_none, List.append_nil]
    exact h.transport
  isOpen := h.isOpen
  room := h.room
  stopped := fun _ => ⟨rfl, rfl⟩
  ended := fun _ => by
    rcases hl with ⟨_, _, last, rfl⟩ | rfl
    · exact .inr ⟨last, by simp⟩
    · exact .inl (by simp)
  lost := by
    rcases hl with ⟨hi, hw, _⟩ | rfl
    · exact .inl ⟨hi, by rw [hw]; rfl⟩
    · exact .inr ⟨rfl, by simp⟩

theorem step (h : Accounts router t trace p lostEvents lostPayloads) (hs : Step router p l q) :
    ∃ lostEvents lostPayloads, Accounts router t (trace ++ [l]) q lostEvents lostPayloads := by
  cases hs with
  | accept _ hs =>
    obtain ⟨hr, rfl⟩ := accept?_eq_some hs
    obtain ⟨rfl, rfl⟩ := h.nothing_lost hr
    refine ⟨_, _, .running ?_ ?_ ?_ h.isOpen h.room hr⟩
    · simp [h.events]
    · simpa using h.payloads
    · simpa using h.transport
  | receive hi hs =>
    obtain ⟨hready, first, rest, metrics, hitems, rfl⟩ := receive?_eq_some hs
    obtain ⟨hr, hw⟩ := isReady_iff.mp hready
    obtain ⟨rfl, rfl⟩ := h.nothing_lost hr
    rw [hitems] at hi
    obtain rfl := Option.some.inj hi
    refine ⟨_, _, .running ?_ ?_ ?_ h.isOpen h.room hr⟩
    · simp [h.events, hitems]
    · simp [h.payloads, hw]
    · simpa using h.transport
  | close hs =>
    obtain ⟨hready, metrics, rfl⟩ := close?_eq_some hs
    obtain ⟨hr, hw⟩ := isReady_iff.mp hready
    obtain ⟨rfl, rfl⟩ := h.nothing_lost hr
    refine ⟨_, _, .running ?_ ?_ ?_ h.isOpen h.room hr⟩
    · simpa using h.events
    · simp [h.payloads, hw]
    · simpa using h.transport
  | send hs =>
    obtain ⟨payload, hw, rfl⟩ := send?_eq_some_of_isOpen h.isOpen hs
    refine ⟨lostEvents, lostPayloads, ?_, ?_, ?_, h.isOpen, h.room, ?_, h.ended_append _,
      h.lost_append _⟩
    · simpa using h.events
    · simp [h.payloads, hw]
    · simpa using h.transport
    · exact fun hs => ⟨(h.stopped hs).1, rfl⟩
  | dispatch hi hs =>
    obtain ⟨first, rest, metrics, hitems, rfl⟩ := dispatch?_eq_some hs
    rw [hitems] at hi
    obtain rfl := Option.some.inj hi
    refine ⟨lostEvents, lostPayloads, ?_, ?_, ?_, h.isOpen, h.room, h.stopped, h.ended_append _,
      h.lost_append _⟩
    · simpa using h.events
    · simp [h.payloads, hitems]
    · rw [dispatched_append, List.flatMap_append, Transport.sendAll_append, ← h.transport]
      simp [router.route_eq_sendAll]
  | closeInput hf =>
    refine ⟨lostEvents, lostPayloads, ?_, ?_, ?_, h.isOpen, h.room, h.stopped, h.ended_append _,
      h.lost_append _⟩
    · simpa [closeInput] using h.events
    · simpa [closeInput] using h.payloads
    · simpa [closeInput] using h.transport
  | finish hs =>
    obtain ⟨hready, hi, _, rfl⟩ := finish?_eq_some hs
    obtain ⟨hr, hw⟩ := isReady_iff.mp hready
    obtain ⟨rfl, rfl⟩ := h.nothing_lost hr
    exact ⟨_, _, h.stop rfl rfl rfl rfl (.inl ⟨hi, hw, _, rfl⟩)⟩
  | shutdown hs =>
    obtain ⟨hr, rfl⟩ := shutdown?_eq_some hs
    obtain ⟨rfl, rfl⟩ := h.nothing_lost hr
    exact ⟨_, _, h.stop rfl rfl rfl rfl (.inr rfl)⟩

/-- The router has taken every payload, and the processor has stopped. -/
theorem final (h : Accounts router t trace p lostEvents lostPayloads) (hf : Final router p) :
    p.output.items = [] ∧ p.isRunning = false := by
  obtain ⟨hfed, hn⟩ := hf
  obtain ⟨hd, hs, hr, hf⟩ := step?_eq_none.mp (hn 0)
  have ho : p.output.items = [] := dispatch?_eq_none.mp hd
  have hw : p.waiting = none :=
    send?_eq_none h.isOpen (by simpa [Queue.size, ho] using h.room) hs
  refine ⟨ho, Bool.eq_false_iff.mpr fun hrun => ?_⟩
  have hready : p.isReady = true := isReady_iff.mpr ⟨hrun, hw⟩
  have hi : p.input.items = [] := (receive?_eq_none hready).mp hr
  exact Bool.false_ne_true ((finish?_eq_none hi hfed hf).symm.trans hready)

end Accounts

theorem Reaches.accounts {processor : π} {inputs outputs : Nat}
    (h : Reaches router (.start processor inputs outputs t) trace p) :
    ∃ lostEvents lostPayloads, Accounts router t trace p lostEvents lostPayloads := by
  induction h with
  | start => exact ⟨[], [], .start router processor inputs outputs t⟩
  | next _ hs ih =>
    obtain ⟨_, _, ih⟩ := ih
    exact ih.step hs

end EventStream.Pipeline
