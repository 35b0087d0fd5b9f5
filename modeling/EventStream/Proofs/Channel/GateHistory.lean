import EventStream.Proofs.Channel.Batches
import EventStream.Proofs.Channel.Steps
import EventStream.Proofs.Json.Splicing

namespace EventStream

inductive GateCall where
  | offer (payload : Bytes) (now : Instant)
  | shouldTrigger (now : Instant)

inductive GateAnswer where
  | offered (payload : Bytes) (now : Instant) (result : Except ProcessorError (Option Bytes))
  | asked (now : Instant) (result : Except ProcessorError Bool)

/-- A payload that was taken in, with what went out for it. -/
def GateAnswer.accepted? : GateAnswer → Option ((Bytes × Instant) × Option Bytes)
  | .offered payload now (.ok out) => some ((payload, now), out)
  | .offered _ _ (.error _) => none
  | .asked _ _ => none

namespace Gate

def answer (g : Gate) : GateCall → GateAnswer × Gate
  | .offer payload now =>
    (.offered payload now ((g.offer payload now).map Prod.fst), g.afterOffer payload now)
  | .shouldTrigger now => (.asked now (g.shouldTrigger now), g)

def history (g : Gate) : List GateCall → List GateAnswer × Gate
  | [] => ([], g)
  | call :: calls =>
    let (first, g) := g.answer call
    let (answers, g) := g.history calls
    (first :: answers, g)

theorem history_cons (g : Gate) (call : GateCall) (calls : List GateCall) :
    g.history (call :: calls) =
      ((g.answer call).1 :: ((g.answer call).2.history calls).1, ((g.answer call).2.history calls).2) :=
  rfl

theorem history_concat (g : Gate) (calls : List GateCall) (call : GateCall) :
    g.history (calls ++ [call]) =
      ((g.history calls).1 ++ [((g.history calls).2.answer call).1],
        ((g.history calls).2.answer call).2) := by
  induction calls generalizing g with
  | nil => rfl
  | cons first calls ih => rw [List.cons_append, history_cons, ih, history_cons, List.cons_append]

variable {g : Gate} {payload : Bytes} {now : Instant}

theorem answer_of_ok {out : Option Bytes} {next : Gate}
    (h : g.offer payload now = .ok (out, next)) :
    g.answer (.offer payload now) = (.offered payload now (.ok out), next) := by
  rw [answer, afterOffer, h]
  rfl

theorem answer_of_error {e : ProcessorError} (h : g.offer payload now = .error e) :
    g.answer (.offer payload now) = (.offered payload now (.error e), g) := by
  rw [answer, afterOffer, h]
  rfl

/-- The payloads of the offers that did not fail, in order, each with what went out for it. -/
def accepted (answers : List GateAnswer) : List ((Bytes × Instant) × Option Bytes) :=
  answers.filterMap GateAnswer.accepted?

/-- A gate holds what waits since the last batch, and each batch went out as one array. -/
structure Divides (trigger : Program) (b : Batches (Bytes × Instant) Bytes) (g : Gate) : Prop where
  gate : g = ⟨some trigger, b.waiting.map Prod.fst, b.waiting.head?.map Prod.snd⟩
  arrays : ∀ batch ∈ b.out, batch.2 = jsonArray (batch.1.map Prod.fst)

variable {trigger : Program} {b : Batches (Bytes × Instant) Bytes}

/-- The time from which is counted is that of the first payload that waits, be it the one that
comes. -/
theorem head?_concat (waiting : List (Bytes × Instant)) (payload : Bytes) (now : Instant) :
    ((waiting ++ [(payload, now)]).head?).map Prod.snd =
      some ((waiting.head?.map Prod.snd).getD now) := by
  cases waiting <;> rfl

/-- An offer that is accepted enters the batches as it enters the gate. -/
theorem Divides.offer (h : Divides trigger b g) {out : Option Bytes} {next : Gate}
    (ho : g.offer payload now = .ok (out, next)) :
    Divides trigger (b.add ((payload, now), out)) next := by
  obtain ⟨rfl, ha⟩ := h
  rcases offer_cases (g := ⟨some trigger, _, _⟩) rfl payload now with
    ⟨_, hr⟩ | ⟨_, hr⟩ | ⟨_, _, hr⟩ | ⟨_, _, _, hr⟩
  · cases hr.symm.trans ho
    refine ⟨rfl, fun batch hb => ?_⟩
    rcases List.mem_append.mp hb with hb | hb
    · exact ha batch hb
    · rw [List.mem_singleton.mp hb, List.map_append]
      rfl
  · cases hr.symm.trans ho
    refine ⟨?_, ha⟩
    simp only [Batches.add, head?_concat, List.map_append]
    rfl
  -- a failure takes nothing in
  · cases hr.symm.trans ho
  · cases hr.symm.trans ho

theorem Divides.answer {answers : List GateAnswer}
    (h : Divides trigger (.ofLog (accepted answers)) g) (call : GateCall) :
    Divides trigger (.ofLog (accepted (answers ++ [(g.answer call).1]))) (g.answer call).2 := by
  have hlog : accepted (answers ++ [(g.answer call).1]) =
      accepted answers ++ accepted [(g.answer call).1] := List.filterMap_append
  rw [hlog]
  have same : Divides trigger (.ofLog (accepted answers ++ [])) g := by
    rw [List.append_nil]
    exact h
  cases call with
  | shouldTrigger now => exact same
  | offer payload now =>
    cases ho : g.offer payload now with
    | error e =>
      rw [answer_of_error ho]
      exact same
    | ok result =>
      obtain ⟨out, next⟩ := result
      rw [answer_of_ok ho]
      change Divides trigger (.ofLog (accepted answers ++ [((payload, now), out)])) next
      rw [Batches.ofLog_concat]
      exact h.offer ho

theorem divides_history (trigger : Program) (calls : List GateCall) :
    Divides trigger (.ofLog (accepted ((ofTrigger (some trigger)).history calls).1))
      ((ofTrigger (some trigger)).history calls).2 := by
  -- on the last call, since batches grow at their end
  induction calls using List.reverseRecOn with
  | nil => exact ⟨rfl, nofun⟩
  | append_singleton calls call ih =>
    rw [history_concat]
    exact ih.answer call

theorem capped_eq (n : Nat) :
    ∃ w : Int64, capped n = .int w ∧ w.toInt = min (n : Int) 9223372036854775807 := by
  unfold capped word?
  by_cases hn : (n : Int) < 9223372036854775808
  · rw [if_pos ⟨by omega, hn⟩]
    refine ⟨Int64.ofInt n, rfl, ?_⟩
    rw [Int64.toInt_ofInt_of_le (by omega) hn]
    omega
  · rw [if_neg fun h => hn h.2]
    refine ⟨Int64.maxValue, rfl, ?_⟩
    rw [Int64.toInt_maxValue]
    omega

/-- The payloads that a gate has accepted are those of the batches that went out and then those that
wait; what went out for a batch is read as the array of what its payloads are read as. Each further
one is decided by what the trigger says of their number and of the time since the
first of them came; if it fails, the gate is as it was, also when it is changed in place. -/
theorem history_conserves (trigger : Program) (calls : List GateCall) :
    let answers := ((ofTrigger (some trigger)).history calls).1
    let last := ((ofTrigger (some trigger)).history calls).2
    let batches := Batches.ofLog (accepted answers)
    (accepted answers).map Prod.fst = batches.out.flatMap Prod.fst ++ batches.waiting ∧
    (accepted answers).filterMap Prod.snd =
      batches.out.map (fun batch => arrayText (batch.1.map Prod.fst)) ∧
    (∀ batch ∈ batches.out, ∀ js, batch.1.map (Json.parse? ·.1) = js.map some →
      (∀ entry ∈ batch.1, Json.nesting entry.1 ≤ 126) → Json.parse? batch.2 = some (.array js)) ∧
    last.pending = batches.waiting.map Prod.fst ∧
    last.since = batches.waiting.head?.map Prod.snd ∧
    (last.since.isSome ↔ last.pending ≠ []) ∧
    (∀ payload now, ∃ count duration : Int64,
      count.toInt = min ((last.pending.length + 1 : Nat) : Int) 9223372036854775807 ∧
      duration.toInt = min (((now - last.since.getD now) / 1000000 : Nat) : Int) 9223372036854775807 ∧
      let verdict := trigger.evaluate
        (Bindings.empty.insert "trigger" (.map [("count", .int count), ("duration", .int duration)]))
      (verdict = .ok (.bool true) ∧
        last.offer payload now =
          .ok (some (arrayText (last.pending ++ [payload])), ⟨some trigger, [], none⟩)) ∨
      (verdict = .ok (.bool false) ∧
        last.offer payload now =
          .ok (none, ⟨some trigger, last.pending ++ [payload], some (last.since.getD now)⟩)) ∨
      (∃ e, ((∃ err, verdict = .error err ∧ e = .eval err) ∨
          ∃ v, verdict = .ok v ∧ v.type ≠ .bool ∧ e = .typeMismatch ⟨.bool, v.type⟩) ∧
        last.offer payload now = .error e ∧
        (offerInPlace payload now).run last = (.error e, last))) ∧
    ∀ now, last.answer (.shouldTrigger now) = (.asked now (last.shouldTrigger now), last) := by
  intro answers last batches
  obtain ⟨hgate, harrays⟩ := divides_history trigger calls
  have hitems : batches.out.flatMap Prod.fst ++ batches.waiting = (accepted answers).map Prod.fst :=
    Batches.items_ofLog _
  have htrigger : last.trigger = some trigger := congrArg Gate.trigger hgate
  have hpending : last.pending = batches.waiting.map Prod.fst := congrArg Gate.pending hgate
  have hsince : last.since = batches.waiting.head?.map Prod.snd := congrArg Gate.since hgate
  have htexts : ∀ batch ∈ batches.out, batch.2 = arrayText (batch.1.map Prod.fst) :=
    fun batch hb => (harrays batch hb).trans (jsonArray_eq_arrayText _)
  refine ⟨hitems.symm, ?_, fun batch hb js hread hdepth => ?_, hpending, hsince, ?_,
    fun payload now => ?_, fun _ => rfl⟩
  · rw [← Batches.out_ofLog]
    exact List.map_congr_left htexts
  · rw [htexts batch hb]
    exact parse?_arrayText (List.map_map.trans hread) (List.forall_mem_map.mpr hdepth)
  · rw [hpending, hsince]
    cases batches.waiting <;> simp
  · obtain ⟨count, hc, hcount⟩ := capped_eq (last.pending.length + 1)
    obtain ⟨duration, hd, hduration⟩ := capped_eq (elapsed (last.since.getD now) now)
    refine ⟨count, duration, hcount, hduration, ?_⟩
    intro verdict
    have hverdict : trigger.evaluate (last.seen now) = verdict := by
      unfold seen state
      rw [hc, hd]
    have hinPlace : ∀ e, last.offer payload now = .error e →
        (offerInPlace payload now).run last = (.error e, last) := by
      intro e he
      rw [offerInPlace_run, afterOffer, he]
      rfl
    rw [← hverdict]
    rcases offer_cases htrigger payload now with h | h | ⟨err, hv, ho⟩ | ⟨v, hv, ht, ho⟩
    · exact .inl (jsonArray_eq_arrayText _ ▸ h)
    · exact .inr (.inl h)
    · exact .inr (.inr ⟨_, .inl ⟨err, hv, rfl⟩, ho, hinPlace _ ho⟩)
    · exact .inr (.inr ⟨_, .inr ⟨v, hv, ht, rfl⟩, ho, hinPlace _ ho⟩)

/-- Holds after five milliseconds, and fails for a second payload that comes at once. -/
def afterFive : Program where
  source := "trigger.count == 1 ? false : 10 / trigger.duration == 2"
  declared := ["trigger"]
  root := .conditional (.binary .equal (.member (.variable "trigger") "count") (.int 1))
    (.bool false)
    (.binary .equal (.binary .divide (.int 10) (.member (.variable "trigger") "duration")) (.int 2))

/-- Of three payloads the second fails and the third lets out the first and itself. -/
theorem history_conserves_of_four_calls :
    let calls : List GateCall := [.offer (Bytes.ofString "1") 0, .offer (Bytes.ofString "2") 0,
      .shouldTrigger 0, .offer (Bytes.ofString "[3]") 5000000, .offer (Bytes.ofString "4") 6000000]
    let log := (ofTrigger (some afterFive)).history calls
    let batch := [(Bytes.ofString "1", 0), (Bytes.ofString "[3]", 5000000)]
    (Batches.ofLog (accepted log.1)).out = [(batch, Bytes.ofString "[1,[3]]")] ∧
    (accepted log.1).map Prod.fst = batch ++ [(Bytes.ofString "4", 6000000)] ∧
    log.2.pending = [Bytes.ofString "4"] ∧ log.2.since = some 6000000 ∧
    Json.parse? (Bytes.ofString "[1,[3]]") =
      some (.array [.integer 1, .array [.integer 3]]) := by
  intro calls log batch
  obtain ⟨hitems, _, hread, hpending, hsince, _⟩ := history_conserves afterFive calls
  have hlog : Batches.ofLog (accepted log.1) =
      ⟨[(batch, Bytes.ofString "[1,[3]]")], [(Bytes.ofString "4", 6000000)]⟩ := by
    unfold log calls batch afterFive
    cbv
  change Batches.ofLog (accepted ((ofTrigger (some afterFive)).history calls).1) = _ at hlog
  rw [hlog] at hitems hread hpending hsince
  have htext := hread _ (List.mem_singleton_self _) [.integer 1, .array [.integer 3]]
    (by unfold batch; cbv) (by unfold batch; decide)
  exact ⟨congrArg Batches.out hlog, hitems, hpending, hsince, htext⟩

end Gate

end EventStream
