import EventStream.Proofs.Window.CrossJoin
import EventStream.Proofs.Window.StoreHistory
import EventStream.Window.Joiner

namespace EventStream

namespace WindowStore

/-- The store has these events, each under its topic. -/
def Holds (s : WindowStore) (events : List Event) : Prop :=
  ∀ topic, s.get topic = events.filter (·.topic = topic)

variable {s t : WindowStore} {events : List Event}

theorem holds_ofTopics (topics : List String) : (ofTopics topics).Holds [] :=
  fun topic => get_ofTopics topic topics

theorem holds_reset : s.reset.Holds [] :=
  fun topic => s.get_reset topic

theorem Holds.append (h : s.Holds events) (e : Event) : (s.append e).Holds (events ++ [e]) := by
  intro topic
  rw [get_append, h topic, List.filter_append]
  by_cases ht : e.topic = topic <;> simp [ht]

/-- A join sees no more of a store than the events in it. -/
theorem Holds.join_eq (hs : s.Holds events) (ht : t.Holds events) (j : JoinEngine) :
    j.join s = j.join t :=
  JoinEngine.join_congr fun topic _ => (hs topic).trans (ht topic).symm

theorem isEmpty_reset : s.reset.isEmpty = true := by
  unfold isEmpty total reset
  rw [List.flatMap_map, beq_iff_eq]
  simp

end WindowStore

inductive JoinerCall where
  | append (e : Event)
  | flush

/-- The events of the windows that close, those of the first one after the ones that came before. -/
def closedWindows (opened : List Event) : List JoinerCall → List (List Event)
  | [] => []
  | .append e :: calls => closedWindows (opened ++ [e]) calls
  | .flush :: calls => opened :: closedWindows [] calls

namespace Joiner

/-- What each flush yields, and the joiner after all calls. -/
def flushes (j : Joiner) : List JoinerCall → List Joined × Joiner
  | [] => ([], j)
  | .append e :: calls => (j.append e).flushes calls
  | .flush :: calls =>
    let (joined, j) := j.close
    let (later, j) := j.flushes calls
    (joined :: later, j)

/-- What a joiner yields for the events of one window. -/
def joinWindow (j : Joiner) (events : List Event) : Joined :=
  (events.foldl Joiner.append j).close.1

variable {j fresh : Joiner} {opened : List Event}

theorem foldl_append (events : List Event) (h : j.store.Holds opened) :
    (events.foldl Joiner.append j).engine = j.engine ∧
      (events.foldl Joiner.append j).store.Holds (opened ++ events) := by
  induction events generalizing j opened with
  | nil => simpa using h
  | cons e events ih => simpa [Joiner.append] using ih (j := j.append e) (h.append e)

theorem joinWindow_eq (hf : fresh.store.Holds []) (hj : j.store.Holds opened)
    (he : j.engine = fresh.engine) : fresh.joinWindow opened = j.close.1 := by
  obtain ⟨hengine, hstore⟩ := foldl_append opened hf
  change (opened.foldl Joiner.append fresh).engine.join _ = j.engine.join j.store
  rw [hengine, he]
  exact hstore.join_eq hj fresh.engine

theorem flushes_eq_map (calls : List JoinerCall) (hf : fresh.store.Holds [])
    (hj : j.store.Holds opened) (he : j.engine = fresh.engine) :
    (j.flushes calls).1 = (closedWindows opened calls).map fresh.joinWindow := by
  induction calls generalizing j opened with
  | nil => rfl
  | cons call calls ih =>
    cases call with
    | append e => exact ih (j := j.append e) (hj.append e) he
    | flush =>
      refine List.cons_eq_cons.mpr ⟨(joinWindow_eq hf hj he).symm, ?_⟩
      exact ih (j := j.close.2) WindowStore.holds_reset he

theorem ofConfig_eq_ok {c : JoinerConfig} :
    Joiner.ofConfig c = .ok j ↔
      JoinEngine.ofConfig c = .ok j.engine ∧ j.store = .ofTopics j.engine.topics := by
  unfold Joiner.ofConfig
  rw [bind_eq_ok]
  constructor
  · rintro ⟨engine, he, h⟩
    cases Except.ok.inj h
    exact ⟨he, rfl⟩
  · rintro ⟨he, hs⟩
    exact ⟨j.engine, he, congrArg Except.ok (by rw [← hs])⟩

end Joiner

/-- Every flush of a joiner yields what the joiner as it was made yields for the events that came
since the flush before, and leaves nothing in the store. -/
theorem windows_independent {c : JoinerConfig} {j : Joiner} (h : Joiner.ofConfig c = .ok j)
    (calls : List JoinerCall) :
    (j.flushes calls).1 =
        (closedWindows [] calls).map (fun events => (events.foldl Joiner.append j).close.1) ∧
      (j.flushes calls).2.close.2.store.isEmpty = true := by
  have hs : j.store.Holds [] := by
    rw [(Joiner.ofConfig_eq_ok.mp h).2]
    exact WindowStore.holds_ofTopics _
  exact ⟨Joiner.flushes_eq_map calls hs hs rfl, WindowStore.isEmpty_reset⟩

/-- Pairs of equal events are joined. -/
def equalPairs : JoinerConfig where
  listenAddr := ⟨.v4 [127, 0, 0, 1], 80⟩
  left := ⟨"ps", "A", "A"⟩
  right := ⟨"ps", "B", "B"⟩
  window := ⟨Duration.second⟩
  requireFilter := true
  filter := some "A == B"
  select := none
  targets := ⟨some ⟨"sink", "sink"⟩, none⟩

def pairJoiner : Joiner where
  engine := ⟨⟨"A", "A"⟩, ⟨"B", "B"⟩, some ⟨"A == B", ["A", "B"],
    .binary .equal (.variable "A") (.variable "B")⟩, none, true⟩
  store := .ofTopics ["A", "B"]

theorem ofConfig_equalPairs : Joiner.ofConfig equalPairs = .ok pairJoiner := by
  cbv

/-- An event alone in the first window is not paired in the second one. -/
theorem windows_of_equal_pairs :
    let a : Event := ⟨none, "A", jsonType, Bytes.ofString "\x7b\x7d"⟩
    let b : Event := ⟨none, "B", jsonType, Bytes.ofString "\x7b\x7d"⟩
    let calls : List JoinerCall := [.append a, .flush, .append b, .append a, .flush, .append b]
    Joiner.ofConfig equalPairs = .ok pairJoiner ∧
      (pairJoiner.flushes calls).1 =
        [[a], [b, a]].map (fun events => (events.foldl Joiner.append pairJoiner).close.1) ∧
      (pairJoiner.flushes calls).1.map Joined.payload? =
        [none, some ⟨Bytes.ofString "[\x7b\"A\":\x7b\x7d,\"B\":\x7b\x7d\x7d]"⟩] ∧
      (pairJoiner.flushes calls).2.close.2.store.isEmpty = true := by
  intro a b calls
  obtain ⟨hw, he⟩ := windows_independent ofConfig_equalPairs calls
  refine ⟨ofConfig_equalPairs, hw, ?_, he⟩
  cbv

end EventStream
