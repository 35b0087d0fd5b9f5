import EventStream.Pipeline.Settle
import EventStream.Proofs.Metrics.Tallies
import EventStream.Proofs.Output.Calls
import EventStream.Proofs.Pipeline.Runs

namespace EventStream

/-- What is reported of one payload when each dispatch ends in its own way. -/
def Targets.report (t : Targets) (outcome : DispatchKind → Except TransportError Unit) : Report :=
  ⟨t.stream.map fun _ => outcome .publish, t.component.map fun _ => outcome .invoke⟩

/-- The labels under which dispatches of a kind are counted. -/
def DispatchKind.labels (kind : DispatchKind) (ok : Bool) : List String :=
  [kind.name, if ok then "ok" else "error"]

theorem DispatchKind.labels_inj {kind other : DispatchKind} {ok was : Bool} :
    kind.labels ok = other.labels was ↔ kind = other ∧ ok = was := by
  cases kind <;> cases other <;> cases ok <;> cases was <;> simp [labels, name]

/-- How many of these calls are of a kind. -/
def DispatchKind.among (kind : DispatchKind) (calls : List Dispatch) : Nat :=
  calls.countP (·.kind = kind)

/-- A transport that keeps the calls it gets; how each call of a kind ends is given beforehand. -/
def Transport.scripted (outcome : DispatchKind → Nat → Except TransportError Unit) :
    Transport (List Dispatch) where
  name := "scripted"
  send calls d := (outcome d.kind (d.kind.among calls), calls ++ [d])

namespace Targets

variable {t : Targets} {outcome : DispatchKind → Except TransportError Unit}

theorem isOk_report :
    (t.report outcome).isOk = true ↔
      ∀ kind, (t.of kind).isSome → (outcome kind).isOk = true := by
  have hall (target : Option Target) (result : Except TransportError Unit) :
      (target.map fun _ => result).all Except.isOk = true ↔
        (target.isSome → result.isOk = true) := by
    cases target <;> simp
  rw [report, Report.isOk, Bool.and_eq_true, hall, hall]
  constructor
  · rintro ⟨hpublish, hinvoke⟩ kind
    cases kind with
    | publish => exact hpublish
    | invoke => exact hinvoke
  · exact fun h => ⟨h .publish, h .invoke⟩

/-- What a dispatch would end in does not matter where no target is set. -/
theorem report_congr {other : DispatchKind → Except TransportError Unit}
    (h : ∀ kind, (t.of kind).isSome → outcome kind = other kind) :
    t.report outcome = t.report other := by
  have hall (kind : DispatchKind) :
      ((t.of kind).map fun _ => outcome kind) = (t.of kind).map fun _ => other kind :=
    Option.map_congr fun target ht => h kind (by rw [ht]; rfl)
  exact congrArg₂ Report.mk (hall .publish) (hall .invoke)

/-- A dispatch is counted once, under its kind and how it ended. -/
theorem count_measured_report (kind : DispatchKind) (ok : Bool) :
    ((t.report outcome).measured.filterMap Measurement.dispatched?).count (kind.labels ok) =
      if (t.of kind).isSome && (outcome kind).isOk == ok then 1 else 0 := by
  have hone (other : DispatchKind) (target : Option Target) :
      (((target.map fun _ => outcome other).map (Report.measurement other)).toList.filterMap
        Measurement.dispatched?).count (kind.labels ok) =
        if other = kind ∧ target.isSome ∧ (outcome kind).isOk = ok then 1 else 0 := by
    cases target with
    | none => simp
    | some target =>
      change [other.labels (outcome other).isOk].count (kind.labels ok) = _
      rw [List.count_singleton]
      by_cases hkind : other = kind
      · subst hkind
        simp [DispatchKind.labels_inj]
      · simp [DispatchKind.labels_inj, hkind]
  rw [report, Report.measured, List.filterMap_append, List.count_append, hone, hone]
  cases kind <;> simp [of]

end Targets

theorem count_flatMap_eq_countP {α β : Type} [BEq β] {f : α → List β} {x : β} {P : α → Bool}
    (l : List α) (h : ∀ a, (f a).count x = if P a then 1 else 0) :
    (l.flatMap f).count x = l.countP P := by
  induction l with
  | nil => rfl
  | cons a l ih => rw [List.flatMap_cons, List.count_append, h, ih, List.countP_cons, Nat.add_comm]

theorem DispatchKind.among_append (kind : DispatchKind) (calls more : List Dispatch) :
    kind.among (calls ++ more) = kind.among calls + kind.among more :=
  List.countP_append

theorem DispatchKind.among_calls (kind : DispatchKind) (t : Targets) (payload : Envelope) :
    kind.among (t.calls payload) = if (t.of kind).isSome then 1 else 0 := by
  obtain ⟨stream, component⟩ := t
  cases kind <;> cases stream <;> cases component <;> rfl

namespace Router

variable {t : Targets} {outcome : DispatchKind → Nat → Except TransportError Unit}

theorem route_scripted (calls : List Dispatch) (payload : Envelope) :
    (Router.mk (.scripted outcome) t).route calls payload =
      (t.report fun kind => outcome kind (kind.among calls), calls ++ t.calls payload) := by
  obtain ⟨stream, component⟩ := t
  cases stream <;> cases component <;>
    simp [route, dispatch, Targets.of, Targets.report, Targets.calls, Transport.scripted,
      DispatchKind.among]

/-- Each payload makes its calls after those of the payloads before it, and each call of a kind has
the outcome that is next. -/
theorem routeAll_scripted (calls : List Dispatch) (payloads : List Envelope) :
    (Router.mk (.scripted outcome) t).routeAll calls payloads =
      ((List.range payloads.length).map fun i =>
          t.report fun kind => outcome kind (kind.among calls + i),
        calls ++ payloads.flatMap t.calls) := by
  induction payloads generalizing calls with
  | nil => simp [routeAll]
  | cons payload payloads ih =>
    have hnext (i : Nat) :
        (t.report fun kind => outcome kind (kind.among (calls ++ t.calls payload) + i)) =
          t.report fun kind => outcome kind (kind.among calls + (i + 1)) := by
      refine Targets.report_congr fun kind hset => ?_
      rw [kind.among_append, kind.among_calls, if_pos hset]
      congr 1
      omega
    simp only [routeAll, route_scripted, ih, hnext, List.length_cons, List.range_succ_eq_map,
      List.map_cons, List.map_map, List.flatMap_cons, List.append_assoc]
    rfl

end Router

namespace Pipeline

variable {π σ : Type} {router : Router σ} {p : Pipeline π σ}

/-- The router takes payloads until none is left. -/
def drain (router : Router σ) (p : Pipeline π σ) : Pipeline π σ :=
  match _ : p.dispatch? router with
  | none => p
  | some q => q.drain router
termination_by p.output.size
decreasing_by
  obtain ⟨_, _, _, hi, rfl⟩ := dispatch?_eq_some ‹_›
  simp [Queue.size, hi]

theorem drain_of_eq_none (h : p.dispatch? router = none) : p.drain router = p := by
  unfold drain
  split
  next => rfl
  next hs => rw [h] at hs; cases hs

theorem drain_of_eq_some {q : Pipeline π σ} (h : p.dispatch? router = some q) :
    p.drain router = q.drain router := by
  rw [drain]
  split
  next hn => rw [h] at hn; cases hn
  next hs => rw [h] at hs; cases hs; rfl

/-- An emptied queue is one whose payloads were all routed, and each report was counted. -/
theorem drain_eq (p : Pipeline π σ) :
    p.drain router = { p with
      output := { p.output with items := [] }
      transport := (router.routeAll p.transport p.output.items).2
      metrics := p.metrics.recordAll
        ((router.routeAll p.transport p.output.items).1.flatMap Report.measured) } := by
  induction hi : p.output.items generalizing p with
  | nil =>
    obtain ⟨processor, input, fed, waiting, ⟨capacity, items, isOpen⟩, transport, metrics⟩ := p
    obtain rfl : items = [] := hi
    exact drain_of_eq_none rfl
  | cons payload rest ih =>
    have hd : p.dispatch? router = some { p with
        output := { p.output with items := rest }
        transport := (router.route p.transport payload).2
        metrics := p.metrics.recordAll (router.route p.transport payload).1.measured } := by
      unfold dispatch? Queue.pop?
      rw [hi]
      rfl
    rw [drain_of_eq_some hd, ih _ rfl]
    simp only [Router.routeAll, List.flatMap_cons, Metrics.recordAll, List.foldl_append]

/-- Whatever becomes of each dispatch, what is in the output queue goes out in order, each payload
once to each target that is set and with all its calls before those of the next one. Each dispatch
is reported as it ended and counted once. -/
theorem drain_dispatches_every_payload (p : Pipeline π (List Dispatch)) (t : Targets)
    (outcome : DispatchKind → Nat → Except TransportError Unit) :
    let router : Router (List Dispatch) := ⟨.scripted outcome, t⟩
    let payloads := p.output.items
    -- how the dispatch of a payload to a kind of target ends
    let result (kind : DispatchKind) (i : Nat) := outcome kind (kind.among p.transport + i)
    let reports := (router.routeAll p.transport payloads).1
    p.drain router = { p with
      output := { p.output with items := [] }
      transport := p.transport ++ payloads.flatMap t.calls
      metrics := p.metrics.recordAll (reports.flatMap Report.measured) } ∧
    reports.length = payloads.length ∧
    (∀ i report, reports[i]? = some report →
      report.published = t.stream.map (fun _ => result .publish i) ∧
      report.invoked = t.component.map (fun _ => result .invoke i) ∧
      (report.isOk = true ↔
        ∀ kind, (t.of kind).isSome → (result kind i).isOk = true)) ∧
    ∀ kind ok, p.metrics.dispatched.get (kind.labels ok) ≤ Count.ceiling →
      (p.drain router).metrics.dispatched.get (kind.labels ok) =
        min (p.metrics.dispatched.get (kind.labels ok) +
            (List.range payloads.length).countP fun i =>
              (t.of kind).isSome && (result kind i).isOk == ok)
          Count.ceiling := by
  intro router payloads result reports
  have hreports : reports = (List.range payloads.length).map fun i => t.report (result · i) :=
    congrArg Prod.fst (Router.routeAll_scripted p.transport payloads)
  have htransport : (router.routeAll p.transport payloads).2 =
      p.transport ++ payloads.flatMap t.calls :=
    congrArg Prod.snd (Router.routeAll_scripted p.transport payloads)
  have hdrain := htransport ▸ @drain_eq _ _ router p
  refine ⟨hdrain, by simp [hreports], ?_, ?_⟩
  · intro i report hi
    rw [hreports, List.getElem?_map] at hi
    obtain ⟨j, hj, rfl⟩ := Option.map_eq_some_iff.mp hi
    obtain ⟨_, rfl⟩ := List.getElem?_eq_some_iff.mp hj
    rw [List.getElem_range]
    exact ⟨rfl, rfl, Targets.isOk_report⟩
  · intro kind ok hle
    have hcount : ((reports.flatMap Report.measured).filterMap Measurement.dispatched?).count
        (kind.labels ok) = (List.range payloads.length).countP fun i =>
          (t.of kind).isSome && (result kind i).isOk == ok := by
      rw [hreports, List.flatMap_map, List.filterMap_flatMap]
      exact count_flatMap_eq_countP _ fun i => Targets.count_measured_report kind ok
    rw [hdrain, Metrics.dispatched_recordAll, Counts.get_tallyAll _ hle, hcount]

/-- The broker is down for the first of two payloads and the component for the second. -/
theorem drain_dispatches_two_payloads :
    let t : Targets := ⟨some ⟨"pubsub", "priced"⟩, some ⟨"pricing", "compute"⟩⟩
    let outcome : DispatchKind → Nat → Except TransportError Unit
      | .publish, 0 => .error (.publish "broker down")
      | .invoke, 1 => .error (.invoke "no route")
      | _, _ => .ok ()
    let first : Envelope := ⟨Bytes.ofString "1"⟩
    let second : Envelope := ⟨Bytes.ofString "2"⟩
    let p : Pipeline Unit (List Dispatch) :=
      { Pipeline.start () 1 2 [] with output := ⟨2, [first, second], true⟩ }
    let router : Router (List Dispatch) := ⟨.scripted outcome, t⟩
    (p.drain router).transport = t.calls first ++ t.calls second ∧
    (router.routeAll [] [first, second]).1.map Report.isOk = [false, false] ∧
    p.metrics.dispatched.get (DispatchKind.publish.labels false) ≤ Count.ceiling ∧
    (p.drain router).metrics.dispatched.get (DispatchKind.publish.labels false) = 1 := by
  intro t outcome first second p router
  obtain ⟨hdrain, _, _, hcount⟩ := drain_dispatches_every_payload p t outcome
  refine ⟨by rw [hdrain]; rfl, rfl, by decide, ?_⟩
  exact hcount .publish false (by decide)

end Pipeline

end EventStream
