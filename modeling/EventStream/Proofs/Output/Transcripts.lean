import EventStream.Output.Lines
import EventStream.Proofs.Output.Calls
import EventStream.Proofs.Text.LineFeeds

namespace EventStream

/-- The line feeds in what is written of a dispatch, without the one at its end. -/
def Dispatch.feeds (d : Dispatch) : Nat :=
  d.target.display.toList.count '\n' + d.payload.body.count Bytes.lineFeed

namespace Lines

/-- Dispatches one after another, and how each of them ends. -/
def sendAll (s : Lines) : List Dispatch → List (Except TransportError Unit) × Lines
  | [] => ([], s)
  | d :: rest =>
    let (outcome, s) := s.send d
    let (outcomes, s) := s.sendAll rest
    (outcome :: outcomes, s)

/-- There is a line for each dispatch, and each is counted. -/
structure Lists (s : Lines) (ds : List Dispatch) : Prop where
  feeds : s.written.toList.count '\n' = ds.length
  lines : s.written.toList.splitOn '\n' = ds.map (fun d => (line d).toList) ++ [[]]
  count : s.count = ds.length % 2 ^ 64

section
variable {s : Lines} {ds : List Dispatch}

theorem transport_sendAll (s : Lines) (ds : List Dispatch) :
    transport.sendAll s ds = s.sendAll ds := by
  induction ds generalizing s with
  | nil => rfl
  | cons d ds ih =>
    change ((s.send d).1 :: (transport.sendAll (s.send d).2 ds).1,
      (transport.sendAll (s.send d).2 ds).2) = _
    rw [ih]
    rfl

theorem sendAll_outcomes (s : Lines) (ds : List Dispatch) :
    (s.sendAll ds).1 = List.replicate ds.length (.ok ()) := by
  induction ds generalizing s with
  | nil => rfl
  | cons d ds ih =>
    rw [List.length_cons, List.replicate_succ, ← ih (s.send d).2]
    rfl

theorem written_sendAll (s : Lines) (ds : List Dispatch) :
    (s.sendAll ds).2.written.toList =
      s.written.toList ++ ds.flatMap fun d => (line d).toList ++ ['\n'] := by
  induction ds generalizing s with
  | nil => exact (List.append_nil _).symm
  | cons d ds ih =>
    have hsend : (s.send d).2.written.toList = s.written.toList ++ ((line d).toList ++ ['\n']) := by
      simp [send]
    change ((s.send d).2.sendAll ds).2.written.toList = _
    rw [ih, hsend, List.append_assoc, List.flatMap_cons]

theorem count_sendAll (s : Lines) (ds : List Dispatch) :
    (s.sendAll ds).2.count = (s.count + ds.length) % 2 ^ 64 := by
  induction ds generalizing s with
  | nil => exact (Nat.mod_eq_of_lt s.counter.toNat_lt).symm
  | cons d ds ih =>
    have hsend : (s.send d).2.count = (s.count + 1) % 2 ^ 64 := UInt64.toNat_add _ _
    change ((s.send d).2.sendAll ds).2.count = _
    rw [ih, hsend, List.length_cons]
    omega

theorem written_sendAll_empty (ds : List Dispatch) :
    (empty.sendAll ds).2.written.toList = ds.flatMap fun d => (line d).toList ++ ['\n'] :=
  written_sendAll .empty ds

theorem count_sendAll_empty (ds : List Dispatch) :
    (empty.sendAll ds).2.count = ds.length % 2 ^ 64 :=
  (count_sendAll .empty ds).trans (congrArg (· % 2 ^ 64) (Nat.zero_add _))

theorem count_line (d : Dispatch) : (line d).toList.count '\n' = d.feeds := by
  have hkind : d.kind.name.toList.count '\n' = 0 := by cases d.kind <;> rfl
  have hspace : " ".toList.count '\n' = 0 := rfl
  simp only [line, String.toList_append, List.count_append, hkind, hspace, Bytes.count_lossyText,
    Nat.zero_add, Nat.add_zero, Dispatch.feeds]

theorem count_lines (ds : List Dispatch) :
    (ds.flatMap fun d => (line d).toList ++ ['\n']).count '\n' =
      ds.length + (ds.map Dispatch.feeds).sum := by
  induction ds with
  | nil => rfl
  | cons d ds ih =>
    rw [List.flatMap_cons, List.count_append, ih, List.count_append, count_line,
      List.count_singleton_self, List.length_cons, List.map_cons, List.sum_cons]
    omega

/-- Lines that have no line feed themselves are found where they end. -/
theorem splitOn_lines {ls : List (List Char)} (h : ∀ l ∈ ls, '\n' ∉ l) :
    (ls.flatMap (· ++ ['\n'])).splitOn '\n' = ls ++ [[]] := by
  induction ls with
  | nil => rfl
  | cons l ls ih =>
    obtain ⟨hl, hls⟩ := List.forall_mem_cons.mp h
    have hpart : ∀ c ∈ l, (c == '\n') = false := by
      intro c hc
      rw [beq_eq_false_iff_ne]
      rintro rfl
      exact hl hc
    rw [List.flatMap_cons, List.append_assoc, List.singleton_append, List.splitOn_eq_splitOnP,
      List.splitOnP_append_cons_of_forall_mem hpart _ (by simp), ← List.splitOn_eq_splitOnP,
      ih hls, List.cons_append]

/-- A line feed in a target or a body is one more than there are lines. -/
theorem lists_sendAll : (Lines.empty.sendAll ds).2.Lists ds ↔ ∀ d ∈ ds, d.feeds = 0 := by
  constructor
  · intro h d hd
    have hfeeds := h.feeds
    rw [written_sendAll_empty, count_lines] at hfeeds
    have hsum : (ds.map Dispatch.feeds).sum = 0 := by omega
    exact List.sum_eq_zero_iff.mp hsum _ (List.mem_map_of_mem hd)
  · intro h
    have hsum : (ds.map Dispatch.feeds).sum = 0 :=
      List.sum_eq_zero_iff.mpr fun n hn => by
        obtain ⟨d, hd, rfl⟩ := List.mem_map.mp hn
        exact h d hd
    have hlines : ∀ l ∈ ds.map fun d => (line d).toList, '\n' ∉ l := by
      intro l hl
      obtain ⟨d, hd, rfl⟩ := List.mem_map.mp hl
      rw [← List.count_eq_zero, count_line, h d hd]
    refine ⟨?_, ?_, count_sendAll_empty ds⟩
    · rw [written_sendAll_empty, count_lines, hsum, Nat.add_zero]
    · rw [written_sendAll_empty, ← splitOn_lines hlines, List.flatMap_map]

end

end Lines

end EventStream
