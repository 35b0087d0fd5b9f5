import EventStream.Proofs.Entries
import EventStream.Window.Store

namespace EventStream

/-- What is done to a store, each under its lock. A pass may yield anything. -/
inductive StoreCall : Type 1 where
  | append (e : Event)
  | snapshot
  | flush {α : Type} (pass : WindowStore → α)

def StoreCall.event? : StoreCall → Option Event
  | .append e => some e
  | .snapshot => none
  | .flush _ => none

def appended (calls : List StoreCall) : List Event :=
  calls.filterMap StoreCall.event?

theorem appended_append (e : Event) (calls : List StoreCall) :
    appended (.append e :: calls) = e :: appended calls :=
  rfl

namespace WindowStore

def topics (s : WindowStore) : List String :=
  keys s.buckets

/-- The contents that snapshots give back and passes see, and the store after all calls. -/
def history (s : WindowStore) : List StoreCall → List WindowStore × WindowStore
  | [] => ([], s)
  | .append e :: calls => (s.append e).history calls
  | .snapshot :: calls =>
    let (contents, s) := s.snapshotAndReset
    let (taken, s) := s.history calls
    (⟨contents⟩ :: taken, s)
  | .flush pass :: calls =>
    let ((seen, _), s) := s.flushWith fun seen => (seen, pass seen)
    let (taken, s) := s.history calls
    (seen :: taken, s)

variable (s : WindowStore) (e : Event) (topic : String)

theorem get_append :
    (s.append e).get topic = s.get topic ++ if e.topic = topic then [e] else [] := by
  unfold get append
  rw [lookup?_insertSorted]
  split
  next h => rw [← h]; rfl
  next => rw [List.append_nil]

theorem lookup?_reset :
    lookup? s.reset.buckets topic = (lookup? s.buckets topic).map fun _ => [] :=
  lookup?_map fun _ => []

theorem get_reset : s.reset.get topic = [] := by
  unfold get
  rw [lookup?_reset]
  cases lookup? s.buckets topic <;> rfl

theorem get_of_not_mem (h : topic ∉ s.topics) : s.get topic = [] := by
  unfold get
  rw [lookup?_eq_none.mpr h]
  rfl

theorem topics_reset : s.reset.topics = s.topics :=
  List.map_map

theorem mem_topics_append : topic ∈ (s.append e).topics ↔ topic = e.topic ∨ topic ∈ s.topics :=
  mem_keys_insertSorted _ _ _

theorem mem_topics_ofTopics (topics : List String) :
    topic ∈ (ofTopics topics).topics ↔ topic ∈ topics := by
  unfold WindowStore.topics ofTopics
  rw [mem_keys_sortedEntries]
  simp [keys]

theorem reset_ofTopics (topics : List String) : (ofTopics topics).reset = ofTopics topics := by
  have hempty : ∀ b ∈ (ofTopics topics).buckets, (b.1, ([] : List Event)) = id b := by
    intro b hb
    obtain ⟨t, _, rfl⟩ := List.mem_map.mp (sortedEntries_subset _ hb)
    rfl
  exact congrArg WindowStore.mk ((List.map_congr_left hempty).trans (List.map_id _))

theorem get_ofTopics (topics : List String) : (ofTopics topics).get topic = [] := by
  unfold get
  cases h : lookup? (ofTopics topics).buckets topic with
  | none => rfl
  | some events =>
    obtain ⟨t, _, ht⟩ := List.mem_map.mp (sortedEntries_subset _ (mem_of_lookup? h))
    cases ht
    rfl

/-- Calls take or keep what a store holds of a topic, and what they append to it. -/
theorem get_history (calls : List StoreCall) :
    (s.history calls).1.flatMap (·.get topic) ++ (s.history calls).2.get topic =
      s.get topic ++ (appended calls).filter (·.topic = topic) := by
  induction calls generalizing s with
  | nil => simp [history, appended]
  | cons call calls ih =>
    cases call with
    | append e =>
      refine (ih (s.append e)).trans ?_
      rw [get_append, List.append_assoc, appended_append, List.filter_cons]
      by_cases ht : e.topic = topic <;> simp [ht]
    | snapshot | flush =>
      have h := ih s.reset
      rw [get_reset, List.nil_append] at h
      exact (List.append_assoc _ _ _).trans (congrArg (s.get topic ++ ·) h)

theorem topics_history (calls : List StoreCall) (hs : s.topics.Pairwise (· < ·)) :
    (s.history calls).2.topics.Pairwise (· < ·) ∧
      ∀ topic, topic ∈ (s.history calls).2.topics ↔
        topic ∈ s.topics ∨ topic ∈ (appended calls).map Event.topic := by
  induction calls generalizing s with
  | nil => exact ⟨hs, fun topic => by simp [history, appended]⟩
  | cons call calls ih =>
    cases call with
    | append e =>
      obtain ⟨hp, hm⟩ := ih (s.append e) (sorted_insertSorted _ _ _ hs)
      refine ⟨hp, fun topic => (hm topic).trans ?_⟩
      rw [mem_topics_append, appended_append, List.map_cons, List.mem_cons, or_assoc, or_left_comm]
    | snapshot | flush =>
      have h := ih s.reset
      rw [topics_reset] at h
      exact h hs

theorem lookup?_reset_eq :
    lookup? s.reset.buckets topic = if topic ∈ s.topics then some [] else none := by
  rw [lookup?_reset]
  split
  next h =>
    obtain ⟨events, he⟩ := Option.ne_none_iff_exists'.mp (mt lookup?_eq_none.mp (not_not.mpr h))
    rw [he]
    rfl
  next h =>
    rw [lookup?_eq_none.mpr h]
    rfl

variable {s}

/-- No bucket is hidden behind another one of its topic. -/
theorem total_eq_sum (h : s.topics.Nodup) : s.total = (s.topics.map s.size).sum := by
  have hsize : ∀ b ∈ s.buckets, b.2.length = s.size b.1 := by
    intro b hb
    have hl : lookup? s.buckets b.1 = some b.2 := lookup?_of_mem h hb
    unfold size get
    rw [hl]
    rfl
  unfold total topics keys
  rw [List.length_flatMap, List.map_map, List.map_congr_left hsize]
  rfl

theorem isEmpty_iff (h : s.topics.Nodup) : s.isEmpty = true ↔ ∀ topic, s.get topic = [] := by
  unfold isEmpty
  rw [beq_iff_eq, total_eq_sum h, List.sum_eq_zero_iff]
  constructor
  · intro hz topic
    by_cases ht : topic ∈ s.topics
    · exact List.length_eq_zero_iff.mp (hz _ (List.mem_map_of_mem ht))
    · exact s.get_of_not_mem topic ht
  · intro hn n hz
    obtain ⟨topic, _, rfl⟩ := List.mem_map.mp hz
    exact List.length_eq_zero_iff.mpr (hn topic)

end WindowStore

open WindowStore in
/-- For a store with some topics and all that is done to it: what was taken of a topic and what is
there are the events that were appended to it; taking leaves every topic that ever came, empty; a
flush shows its pass what a snapshot would give back, and leaves the same; and the sizes are those
of the contents. -/
theorem store_keeps_every_event (topics : List String) (calls : List StoreCall) :
    let known := topics ++ (appended calls).map Event.topic
    let taken := ((ofTopics topics).history calls).1
    let s := ((ofTopics topics).history calls).2
    (∀ topic, taken.flatMap (·.get topic) ++ s.get topic =
      (appended calls).filter (·.topic = topic)) ∧
    (∀ topic, lookup? s.snapshotAndReset.2.buckets topic =
      if topic ∈ known then some [] else none) ∧
    (∀ (α : Type) (pass : WindowStore → α),
      s.flushWith pass = (pass ⟨s.snapshotAndReset.1⟩, s.snapshotAndReset.2)) ∧
    (∀ topic, s.size topic = (s.get topic).length) ∧
    s.total = (known.dedup.map fun topic => (s.get topic).length).sum ∧
    (s.isEmpty = true ↔ ∀ topic, s.get topic = []) := by
  intro known taken s
  obtain ⟨hsorted, hmem⟩ := (ofTopics topics).topics_history calls (sorted_sortedEntries _)
  have hknown : ∀ topic, topic ∈ s.topics ↔ topic ∈ known := by
    intro topic
    rw [hmem, mem_topics_ofTopics, List.mem_append]
  have hnodup : s.topics.Nodup := hsorted.imp ne_of_lt
  refine ⟨fun topic => ?_, fun topic => ?_, fun _ _ => rfl, fun _ => rfl, ?_, isEmpty_iff hnodup⟩
  · rw [get_history, get_ofTopics, List.nil_append]
  · exact (lookup?_reset_eq s topic).trans (if_congr (hknown topic) rfl rfl)
  · have hp : s.topics.Perm known.dedup := by
      rw [List.perm_ext_iff_of_nodup hnodup known.nodup_dedup]
      exact fun topic => (hknown topic).trans List.mem_dedup.symm
    rw [total_eq_sum hnodup]
    exact (hp.map s.size).sum_eq

end EventStream
