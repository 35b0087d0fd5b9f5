import EventStream.Proofs.Channel.GateHistory
import EventStream.Proofs.Expr.Parts
import EventStream.Proofs.Syntax.Written

namespace EventStream

/-- The text of a trigger that waits for so many payloads. -/
def countTrigger (size : Nat) : String :=
  "trigger.count >= " ++ String.ofList (digitsOf size)

section
variable {size : Nat} {n : Int64}

def countExpr (n : Int64) : Expr :=
  .binary .greaterEqual (.member (.variable "trigger") "count") (.int n)

theorem lexesAs_countTrigger (hn : n.toInt = size) :
    LexesAs (countTrigger size).toList
      [.identifier "trigger", .symbol .dot, .identifier "count", .symbol .greaterEqual,
        .integer n] := by
  have hdigits : LexesAs (digitsOf size) [.integer n] :=
    lexesAs_digits (Json.isDigits_digitsOf size) (by rw [hn, Json.ofDigits_digitsOf])
  have hbound : LexesAs (' ' :: '>' :: '=' :: ' ' :: digitsOf size)
      [.symbol .greaterEqual, .integer n] :=
    .gap rfl (.pair rfl (fun _ => rfl) (.gap rfl hdigits))
  have hcount : LexesAs ('.' :: ("count".toList ++ ' ' :: '>' :: '=' :: ' ' :: digitsOf size))
      [.symbol .dot, .identifier "count", .symbol .greaterEqual, .integer n] :=
    .symbol rfl (fun _ => rfl) (.name (by cbv) rfl hbound)
  have htext : (countTrigger size).toList =
      "trigger".toList ++ '.' :: ("count".toList ++ ' ' :: '>' :: '=' :: ' ' :: digitsOf size) := by
    have hfront : "trigger.count >= ".toList =
        "trigger".toList ++ '.' :: ("count".toList ++ [' ', '>', '=', ' ']) := by decide
    have hback : (String.ofList (digitsOf size)).toList = digitsOf size := String.toList_ofList
    calc (countTrigger size).toList
      _ = "trigger.count >= ".toList ++ (String.ofList (digitsOf size)).toList :=
        String.toList_append
      _ = "trigger".toList ++ '.' :: ("count".toList ++ [' ', '>', '=', ' ']) ++ digitsOf size :=
        congrArg₂ (· ++ ·) hfront hback
      _ = _ := by simp only [List.append_assoc, List.cons_append, List.nil_append]
  rw [htext]
  exact .name (by cbv) rfl hcount

theorem derives_countExpr (n : Int64) : Derives (.expression (countExpr n))
    [.identifier "trigger", .symbol .dot, .identifier "count", .symbol .greaterEqual,
      .integer n] := by
  have hcount : Derives (.selection (.member (.variable "trigger") "count"))
      [.identifier "trigger", .symbol .dot, .identifier "count"] :=
    .member "count" (.primary (.variable "trigger"))
  have hleft : Derives (.chain .comparison (.member (.variable "trigger") "count"))
      [.identifier "trigger", .symbol .dot, .identifier "count"] :=
    .operand (.operand (.operand (.unsigned hcount)))
  have hright : Derives (.chain .sum (.int n)) [.integer n] :=
    .operand (.operand (.unsigned (.primary (.int n))))
  exact .unconditional (.operand (.operand (.operator .greaterEqual hleft hright)))

theorem compile_countTrigger (hn : n.toInt = size) :
    Role.trigger.compile ["trigger"] (some (countTrigger size)) =
      .ok (some ⟨countTrigger size, ["trigger"], countExpr n⟩) := by
  have hparse : Expr.parse (countTrigger size) = .ok (countExpr n) :=
    parse_of_derives (lexesAs_countTrigger hn) (derives_countExpr n) (by simp [maxDepth])
  have hname : ∀ v ∈ ["trigger"], isIdentifier v = true :=
    List.forall_mem_singleton.mpr (by cbv)
  have hcheck : (countExpr n).check ["trigger"] = .ok (.known .bool) := rfl
  have hprogram : Program.compile (countTrigger size) ["trigger"] =
      .ok ⟨countTrigger size, ["trigger"], countExpr n⟩ :=
    Program.compile_of_parse hname hparse hcheck
  rw [Role.compile, hprogram]

end

namespace Gate

section
variable {g : Gate} {p : Program} {size : Nat} {n : Int64}

/-- The count that a trigger sees has the payload in it that is offered; no bound is above the
largest integer, at which the count stops. -/
theorem evaluate_countExpr (g : Gate) (now : Instant) (hn : n.toInt = size)
    (hp : p.root = countExpr n) :
    p.evaluate (g.seen now) = .ok (.bool (decide (size ≤ g.pending.length + 1))) := by
  obtain ⟨count, hc, hcount⟩ := capped_eq (g.pending.length + 1)
  have hmember : Eval.eval (g.seen now) maxDepth (.member (.variable "trigger") "count") =
      .ok (.int count) := by
    rw [seen, state, hc]
    rfl
  have heval : p.evaluate (g.seen now) = Eval.binary .greaterEqual (.int count) (.int n) := by
    rw [Program.evaluate, hp, Expr.eval, countExpr, Eval.eval, if_neg (by simp), hmember]
    rfl
  have hholds : Eval.binary .greaterEqual (.int count) (.int n) =
      .ok (.bool (decide (compare count.toInt n.toInt ≠ .lt))) := rfl
  have hbound := n.toInt_lt
  rw [heval, hholds, decide_eq_decide.mpr]
  rw [ne_eq, compare_lt_iff_lt, hcount, hn]
  omega

theorem offer_countExpr (hn : n.toInt = size) (hp : p.root = countExpr n)
    (hg : g.trigger = some p) (payload : Bytes) (now : Instant) :
    g.offer payload now = .ok (if size ≤ g.pending.length + 1
      then (some (jsonArray (g.pending ++ [payload])), .ofTrigger (some p))
      else (none, ⟨some p, g.pending ++ [payload], some (g.since.getD now)⟩)) := by
  have hverdict := evaluate_countExpr g now hn hp
  rcases offer_cases hg payload now with ⟨hv, h⟩ | ⟨hv, h⟩ | ⟨err, hv, _⟩ | ⟨v, hv, hne, _⟩
  · have hfull : size ≤ g.pending.length + 1 := by simpa using hverdict.symm.trans hv
    rw [if_pos hfull, h]
  · have hfew : ¬size ≤ g.pending.length + 1 := by simpa using hverdict.symm.trans hv
    rw [if_neg hfew, h]
  · cases hverdict.symm.trans hv
  · cases hverdict.symm.trans hv
    exact absurd rfl hne

end

/-- The array of the `size` payloads that come after `j` times as many. -/
def batch (size : Nat) (payloads : List Bytes) (j : Nat) : Bytes :=
  jsonArray ((payloads.drop (j * size)).take size)

/-- What a gate that waits for `size` payloads answers to the one at a place among all. -/
def counted (size : Nat) (payloads : List Bytes) (i : Nat) (offer : Bytes × Instant) : GateAnswer :=
  .offered offer.1 offer.2
    (.ok (if size ∣ i + 1 then some (batch size payloads (i / size)) else none))

/-- Those wait that came after the last whole batch. -/
structure Counts (size : Nat) (p : Program) (before : List Bytes) (g : Gate) : Prop where
  trigger : g.trigger = some p
  pending : g.pending = before.drop (before.length / size * size)

section
variable {g : Gate} {p : Program} {size : Nat} {n : Int64} {before : List Bytes}

/-- A place completes a batch when those since the last whole one, with it, are as many. -/
theorem dvd_succ_iff {i : Nat} (h : 0 < size) : size ∣ i + 1 ↔ i % size + 1 = size := by
  have hlt := Nat.mod_lt i h
  have hsum : i + 1 = size * (i / size) + (i % size + 1) := by
    have := Nat.div_add_mod i size
    omega
  rw [hsum, Nat.dvd_add_right (Nat.dvd_mul_right size _)]
  constructor
  · intro hdvd
    have := Nat.le_of_dvd (by omega) hdvd
    omega
  · intro heq
    rw [heq]

/-- Whatever comes later, the payload is answered for by those before it. -/
theorem Counts.answer (h : Counts size p before g) (hsize : 0 < size) (hn : n.toInt = size)
    (hp : p.root = countExpr n) (payload : Bytes) (now : Instant) (rest : List Bytes) :
    (g.answer (.offer payload now)).1 =
        counted size (before ++ payload :: rest) before.length (payload, now) ∧
      Counts size p (before ++ [payload]) (g.answer (.offer payload now)).2 := by
  have hle : before.length / size * size ≤ before.length := Nat.div_mul_le_self _ _
  have hlength : g.pending.length = before.length % size := by
    rw [h.pending, List.length_drop, Nat.mod_eq_sub_div_mul]
  have hdvd := dvd_succ_iff (i := before.length) hsize
  have hroom := Nat.mod_lt before.length hsize
  have hoffer := offer_countExpr hn hp h.trigger payload now
  have hlonger : (before ++ [payload]).length = before.length + 1 := by simp
  by_cases hfull : size ∣ before.length + 1
  · have hcount := hdvd.mp hfull
    rw [if_pos (by omega)] at hoffer
    rw [answer_of_ok hoffer]
    refine ⟨?_, rfl, ?_⟩
    · have hbatch : ((before ++ payload :: rest).drop (before.length / size * size)).take size =
          g.pending ++ [payload] := by
        rw [List.drop_append_of_le_length hle, ← h.pending, List.append_cons]
        exact List.take_left' (by simp; omega)
      rw [counted, if_pos hfull, batch, hbatch]
    · have hall : (before ++ [payload]).length ≤ (before ++ [payload]).length / size * size := by
        rw [hlonger, Nat.div_mul_cancel hfull]
      exact (List.drop_eq_nil_of_le hall).symm
  · have hcount := mt hdvd.mpr hfull
    rw [if_neg (by omega)] at hoffer
    rw [answer_of_ok hoffer]
    refine ⟨by rw [counted, if_neg hfull], rfl, ?_⟩
    rw [hlonger, Nat.succ_div_of_not_dvd hfull, List.drop_append_of_le_length hle, ← h.pending]

/-- By induction on the offers that are still to come, with those before them. -/
theorem Counts.history (h : Counts size p before g) (hsize : 0 < size) (hn : n.toInt = size)
    (hp : p.root = countExpr n) (offers : List (Bytes × Instant)) :
    (g.history (offers.map fun o => .offer o.1 o.2)).1 =
        offers.mapIdx (fun i => counted size (before ++ offers.map Prod.fst) (before.length + i)) ∧
      Counts size p (before ++ offers.map Prod.fst)
        (g.history (offers.map fun o => .offer o.1 o.2)).2 := by
  induction offers generalizing before g with
  | nil => exact ⟨rfl, by simpa [Gate.history] using h⟩
  | cons o offers ih =>
    obtain ⟨payload, now⟩ := o
    obtain ⟨hanswer, hnext⟩ := h.answer hsize hn hp payload now (offers.map Prod.fst)
    obtain ⟨hanswers, hlast⟩ := ih hnext
    have hlonger : (before ++ [payload]).length = before.length + 1 := by simp
    rw [List.map_cons, List.map_cons, history_cons, List.mapIdx_cons]
    constructor
    · rw [hanswer, hanswers, hlonger, ← List.append_cons]
      simp only [Nat.add_zero, Nat.add_assoc, Nat.add_comm 1]
    · rw [List.append_cons]
      exact hlast

theorem filterMap_range {α : Type} (f : Nat → α) (count : Nat) :
    (List.range count).filterMap (fun i => if size ∣ i + 1 then some (f (i / size)) else none) =
      (List.range (count / size)).map f := by
  induction count with
  | zero => simp
  | succ count ih =>
    rw [List.range_succ, List.filterMap_append, ih]
    by_cases hfull : size ∣ count + 1
    · rw [Nat.succ_div_of_dvd hfull, List.range_succ, List.map_append]
      simp [hfull]
    · rw [Nat.succ_div_of_not_dvd hfull]
      simp [hfull]

/-- What goes out are the batches that are complete, in order. -/
theorem released_counted (offers : List (Bytes × Instant)) (payloads : List Bytes) :
    (accepted (offers.mapIdx (counted size payloads))).filterMap Prod.snd =
      (List.range (offers.length / size)).map (batch size payloads) := by
  rw [← filterMap_range]
  induction offers using List.reverseRecOn with
  | nil => rfl
  | append_singleton offers offer ih =>
    have hlength : (offers ++ [offer]).length = offers.length + 1 := by simp
    rw [List.mapIdx_concat, accepted, List.filterMap_append, List.filterMap_append, hlength,
      List.range_succ, List.filterMap_append, ← ih]
    rfl

end

/-- A gate whose trigger waits for `size` payloads takes every payload in, and lets the batches of
as many out, in order: each is the array of its payloads and goes out with the last one of them.
Those that are left when no more payloads come are too few for one. -/
theorem history_of_countTrigger (size : Nat) (h : 0 < size) (hmax : size ≤ 9223372036854775807)
    (offers : List (Bytes × Instant)) :
    ∃ p, Role.trigger.compile ["trigger"] (some (countTrigger size)) = .ok (some p) ∧
      let log := (ofTrigger (some p)).history (offers.map fun o => .offer o.1 o.2)
      let payloads := offers.map Prod.fst
      log.1 = offers.mapIdx (fun i o => .offered o.1 o.2
        (.ok (if size ∣ i + 1 then some (batch size payloads (i / size)) else none))) ∧
      (accepted log.1).filterMap Prod.snd =
        (List.range (offers.length / size)).map (batch size payloads) ∧
      log.2.pending = payloads.drop (offers.length / size * size) ∧
      log.2.pending.length = offers.length % size := by
  obtain ⟨n, hn⟩ : ∃ n : Int64, n.toInt = size := ⟨_, Int64.toInt_ofInt_of_le (by omega) (by omega)⟩
  refine ⟨_, compile_countTrigger hn, ?_⟩
  intro log payloads
  have hstart : Counts size ⟨countTrigger size, ["trigger"], countExpr n⟩ []
      (ofTrigger (some ⟨countTrigger size, ["trigger"], countExpr n⟩)) :=
    ⟨rfl, List.drop_nil.symm⟩
  obtain ⟨hlog, hlast⟩ := hstart.history h hn rfl offers
  have hanswers : log.1 = offers.mapIdx (counted size payloads) := by
    simpa using hlog
  have hlength : payloads.length = offers.length := List.length_map _
  have hpending : log.2.pending = payloads.drop (offers.length / size * size) := by
    rw [hlast.pending, List.nil_append, hlength]
  refine ⟨hanswers, ?_, hpending, ?_⟩
  · rw [hanswers]
    exact released_counted offers payloads
  · rw [hpending, List.length_drop, hlength, Nat.mod_eq_sub_div_mul]

/-- Seven payloads by threes, the clock going backwards once. -/
theorem history_of_countTrigger_three :
    let offers := [([0x31], 5), ([0x32], 9), ([0x33], 9), ([0x34], 3), ([0x35], 10), ([0x36], 11),
      ([0x37], 12)]
    ∃ p, Role.trigger.compile ["trigger"] (some "trigger.count >= 3") = .ok (some p) ∧
      let log := (ofTrigger (some p)).history (offers.map fun o => .offer o.1 o.2)
      (accepted log.1).filterMap Prod.snd =
        [Bytes.ofString "[1,2,3]", Bytes.ofString "[4,5,6]"] ∧ log.2.pending = [[0x37]] := by
  intro offers
  obtain ⟨p, hp, _, hreleased, hpending, _⟩ :=
    history_of_countTrigger 3 (by decide) (by decide) offers
  have htext : countTrigger 3 = "trigger.count >= 3" := by decide
  exact ⟨p, htext ▸ hp, hreleased.trans (by decide), hpending.trans (by decide)⟩

end Gate

end EventStream
