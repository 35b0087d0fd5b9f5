import EventStream.Metrics.Basic
import Mathlib

namespace EventStream

namespace Count

/-- A count goes no further than this. -/
def ceiling : Nat := 9007199254740992

theorem add_one {n : Nat} (h : n ≤ ceiling) : add n 1 = min (n + 1) ceiling := by
  unfold ceiling at *
  rcases Nat.lt_or_ge n 9007199254740991 with hlt | hge
  · rw [add_of_lt (by omega)]
    omega
  · have hn : n = 9007199254740991 ∨ n = 9007199254740992 := by omega
    rcases hn with rfl | rfl <;> rfl

end Count

namespace Counts

theorem get_add (c : Counts) (labels other : List String) (n : Nat) :
    (c.add labels n).get other =
      if labels = other then Count.add (c.get labels) n else c.get other := by
  unfold get add
  rw [lookup?_insertSorted]
  split <;> rfl

/-- One more each time that labels occur. -/
def tallyAll (c : Counts) (labels : List (List String)) : Counts :=
  labels.foldl (fun c l => c.add l 1) c

theorem get_tallyAll {c : Counts} {label : List String} (labels : List (List String))
    (h : c.get label ≤ Count.ceiling) :
    (c.tallyAll labels).get label = min (c.get label + labels.count label) Count.ceiling := by
  induction labels generalizing c with
  | nil => simp [tallyAll, h]
  | cons other labels ih =>
    have hstep : (c.add other 1).get label =
        min (c.get label + if other = label then 1 else 0) Count.ceiling := by
      rw [get_add]
      by_cases hname : other = label
      · subst hname
        simp [Count.add_one h]
      · simp [hname, h]
    change ((c.add other 1).tallyAll labels).get label = _
    rw [ih (hstep ▸ Nat.min_le_right _ _), hstep, List.count_cons]
    simp only [beq_iff_eq]
    omega

/-- One more for each of these labels. -/
def tally (c : Counts) (names : List String) : Counts :=
  names.foldl (fun c name => c.add [name] 1) c

theorem tally_tally (c : Counts) (names more : List String) :
    (c.tally names).tally more = c.tally (names ++ more) :=
  List.foldl_append.symm

theorem get_tally {c : Counts} {name : String} (names : List String)
    (h : c.get [name] ≤ Count.ceiling) :
    (c.tally names).get [name] = min (c.get [name] + names.count name) Count.ceiling := by
  have hall : c.tally names = c.tallyAll (names.map ([·])) := by
    rw [tallyAll, List.foldl_map]
    rfl
  rw [hall, get_tallyAll _ h, List.count_map_of_injective names _ List.singleton_injective]

end Counts

namespace Measurement

def received? : Measurement → Option String
  | .received stream => some stream
  | _ => none

def dropped? : Measurement → Option (String × Nat)
  | .dropped reason n => some (reason, n)
  | _ => none

/-- The labels under which a dispatch is counted. -/
def dispatched? : Measurement → Option (List String)
  | .dispatched kind ok _ => some [kind, if ok then "ok" else "error"]
  | _ => none

end Measurement

namespace Metrics

theorem received_recordAll (m : Metrics) (ms : List Measurement) :
    (m.recordAll ms).received = m.received.tally (ms.filterMap Measurement.received?) := by
  induction ms generalizing m with
  | nil => rfl
  | cons x ms ih =>
    rw [recordAll, List.foldl_cons]
    refine (ih (m.record x)).trans ?_
    cases x <;> rfl

theorem dispatched_recordAll (m : Metrics) (ms : List Measurement) :
    (m.recordAll ms).dispatched = m.dispatched.tallyAll (ms.filterMap Measurement.dispatched?) := by
  induction ms generalizing m with
  | nil => rfl
  | cons x ms ih =>
    rw [recordAll, List.foldl_cons]
    refine (ih (m.record x)).trans ?_
    cases x <;> rfl

theorem dropped_recordAll (m : Metrics) (ms : List Measurement) {reasons : List String}
    (h : ms.filterMap Measurement.dropped? = reasons.map (·, 1)) :
    (m.recordAll ms).dropped = m.dropped.tally reasons := by
  have hall : ∀ m : Metrics, (m.recordAll ms).dropped =
      (ms.filterMap Measurement.dropped?).foldl (fun c e => c.add [e.1] e.2) m.dropped := by
    clear h
    induction ms with
    | nil => exact fun _ => rfl
    | cons x ms ih =>
      intro m
      rw [recordAll, List.foldl_cons]
      refine (ih (m.record x)).trans ?_
      cases x <;> rfl
  rw [hall, h, List.foldl_map]
  rfl

end Metrics

end EventStream
