import EventStream.Proofs.Json.Splicing
import EventStream.Proofs.Traversal
import EventStream.Window.Join

namespace EventStream

/-- An event whose payload is an object, with its value. -/
def Event.object? (e : Event) : Option (Event × Value) :=
  match Json.parse? e.payload with
  | some (.object entries) => some (e, Value.ofJson (.object entries))
  | _ => none

def objects (events : List Event) : List (Event × Value) :=
  events.filterMap Event.object?

def invalidCount (events : List Event) : Nat :=
  events.countP fun e => e.object?.isNone

namespace JoinEngine

section
variable (j : JoinEngine) (a b : Event × Value)

/-- The filter is true of a pair, if there is one. -/
def Matches : Prop :=
  ∀ f, j.filter = some f → f.evaluate (j.bindings a.2 b.2) = .ok (.bool true)

def Rejects : Prop :=
  ∃ f, j.filter = some f ∧ f.evaluate (j.bindings a.2 b.2) = .ok (.bool false)

/-- What is selected of a pair, or else its two payloads under their topics. -/
def Yields (entry : Bytes) : Prop :=
  match j.select with
  | none => entry = objectText [(j.left.topic, a.1.payload), (j.right.topic, b.1.payload)]
  | some s => ∃ v, s.evaluate (j.bindings a.2 b.2) = .ok v ∧ v.jsonBytes = .ok entry

def Enters (entry : Bytes) : Prop :=
  j.Matches a b ∧ j.Yields a b entry

/-- The filter gives no bool, or nothing that could be written is selected. -/
def Fails : Prop :=
  (∃ f, j.filter = some f ∧ ∀ x, f.evaluate (j.bindings a.2 b.2) ≠ .ok (.bool x)) ∨
    (j.Matches a b ∧ ∀ entry, ¬j.Yields a b entry)

end

/-- What becomes of a list of pairs: its entries in order, how many pairs the filter rejects and how
many fail. -/
inductive Gathers (j : JoinEngine) :
    List ((Event × Value) × (Event × Value)) → List Bytes → Nat → Nat → Prop
  | nil : Gathers j [] [] 0 0
  | enters {a b entry pairs entries rejected failed} : j.Enters a b entry →
      Gathers j pairs entries rejected failed →
      Gathers j ((a, b) :: pairs) (entry :: entries) rejected failed
  | rejects {a b pairs entries rejected failed} : j.Rejects a b →
      Gathers j pairs entries rejected failed →
      Gathers j ((a, b) :: pairs) entries (rejected + 1) failed
  | fails {a b pairs entries rejected failed} : j.Fails a b →
      Gathers j pairs entries rejected failed →
      Gathers j ((a, b) :: pairs) entries rejected (failed + 1)

/-- What a window with these events of the two topics yields. -/
inductive Joins (j : JoinEngine) (left right : List Event) : Except EmptyWindow JoinOutput → Prop
  | leftEmpty : objects left = [] → Joins j left right (.error (.emptyBucket j.left.topic))
  | rightEmpty : objects left ≠ [] → objects right = [] →
      Joins j left right (.error (.emptyBucket j.right.topic))
  | unfiltered : objects left ≠ [] → objects right ≠ [] → j.filter = none →
      j.requireFilter = true →
      Joins j left right (.error (.noMatches ((objects left).length * (objects right).length)))
  | unmatched {rejected failed} : objects left ≠ [] → objects right ≠ [] →
      (j.requireFilter = true → j.filter ≠ none) →
      Gathers j (objects left ×ˢ objects right) [] rejected failed →
      Joins j left right (.error (.noMatches ((objects left).length * (objects right).length)))
  | matched {entries rejected failed} : objects left ≠ [] → objects right ≠ [] →
      (j.requireFilter = true → j.filter ≠ none) →
      Gathers j (objects left ×ˢ objects right) entries rejected failed → entries ≠ [] →
      Joins j left right (.ok ⟨⟨arrayText entries⟩, entries.length,
        (objects left).length * (objects right).length,
        invalidCount left + invalidCount right + failed⟩)

end JoinEngine

theorem ofEvents_eq (events : List Event) :
    Valid.ofEvents events = ⟨objects events, invalidCount events⟩ := by
  induction events with
  | nil => rfl
  | cons e events ih =>
    have hv : e.value.toOption.map (e, ·) = e.object? := by
      unfold Event.value Event.entries Event.object?
      cases Json.parse? e.payload with
      | none => rfl
      | some json => cases json <;> rfl
    unfold Valid.ofEvents
    rw [ih]
    cases he : e.value with
    | ok v =>
      rw [he] at hv
      have hv : e.object? = some (e, v) := hv.symm
      simp [objects, invalidCount, hv]
    | error d =>
      rw [he] at hv
      have hv : e.object? = none := hv.symm
      simp [objects, invalidCount, hv]

namespace Program

theorem holds_eq_ok {f : Program} {b : Bindings} {x : Bool} :
    f.holds b = .ok x ↔ f.evaluate b = .ok (.bool x) := by
  unfold holds valueOf
  cases f.evaluate b with
  | error e => simp [bind, Except.bind, Except.mapError]
  | ok v => cases v <;> simp [bind, Except.bind, Except.mapError, Value.bool?]

theorem selected_eq_ok {s : Program} {b : Bindings} {entry : Bytes} :
    s.selected b = .ok entry ↔ ∃ v, s.evaluate b = .ok v ∧ v.jsonBytes = .ok entry := by
  unfold selected valueOf
  cases s.evaluate b with
  | error e => simp [bind, Except.bind, Except.mapError]
  | ok v =>
    cases hj : v.jsonBytes <;> simp [bind, Except.bind, Except.mapError, hj]

end Program

namespace JoinEngine

variable {j : JoinEngine} {a b : Event × Value} {entry : Bytes}

theorem accepts_iff_matches : j.accepts (j.bindings a.2 b.2) = .ok true ↔ j.Matches a b := by
  unfold accepts Matches
  cases j.filter with
  | none => simp
  | some f => simp [Program.holds_eq_ok]

theorem accepts_iff_rejects : j.accepts (j.bindings a.2 b.2) = .ok false ↔ j.Rejects a b := by
  unfold accepts Rejects
  cases j.filter with
  | none => simp
  | some f => simp [Program.holds_eq_ok]

theorem entry_enters : j.entry a b = .ok (some entry) ↔ j.Enters a b entry := by
  unfold JoinEngine.entry Enters
  rw [← accepts_iff_matches, bind_eq_ok]
  unfold Yields
  constructor
  · rintro ⟨x, hx, h⟩
    cases x with
    | false => cases Except.ok.inj h
    | true =>
      refine ⟨hx, ?_⟩
      cases hs : j.select with
      | none =>
        rw [hs] at h
        exact (Option.some.inj (Except.ok.inj h)).symm.trans (pairObject_eq_objectText _ _ _ _)
      | some s =>
        rw [hs] at h
        obtain ⟨e, he, h⟩ := map_eq_ok.mp h
        cases Option.some.inj h
        exact Program.selected_eq_ok.mp he
  · rintro ⟨hx, h⟩
    refine ⟨true, hx, ?_⟩
    cases hs : j.select with
    | none =>
      rw [hs] at h
      rw [h, ← pairObject_eq_objectText]
      rfl
    | some s =>
      rw [hs] at h
      exact map_eq_ok.mpr ⟨entry, Program.selected_eq_ok.mpr h, rfl⟩

theorem entry_rejects : j.entry a b = .ok none ↔ j.Rejects a b := by
  unfold JoinEngine.entry
  rw [← accepts_iff_rejects, bind_eq_ok]
  constructor
  · rintro ⟨x, hx, h⟩
    cases x with
    | false => exact hx
    | true =>
      cases hs : j.select with
      | none =>
        rw [hs] at h
        cases Except.ok.inj h
      | some s =>
        rw [hs] at h
        obtain ⟨e, _, h⟩ := map_eq_ok.mp h
        cases h
  · intro hx
    exact ⟨false, hx, rfl⟩

theorem entry_fails : (∃ e, j.entry a b = .error e) ↔ j.Fails a b := by
  constructor
  · rintro ⟨e, h⟩
    cases hx : j.accepts (j.bindings a.2 b.2) with
    | error d =>
      left
      unfold accepts at hx
      cases hf : j.filter with
      | none =>
        rw [hf] at hx
        cases hx
      | some f =>
        rw [hf] at hx
        refine ⟨f, rfl, fun x hv => ?_⟩
        cases (Program.holds_eq_ok.mpr hv).symm.trans hx
    | ok x =>
      cases x with
      | false =>
        rw [entry_rejects.mpr (accepts_iff_rejects.mp hx)] at h
        cases h
      | true =>
        have hm := accepts_iff_matches.mp hx
        refine .inr ⟨hm, fun entry hy => ?_⟩
        rw [entry_enters.mpr ⟨hm, hy⟩] at h
        cases h
  · intro hf
    rcases he : j.entry a b with e | (_ | entry)
    · exact ⟨e, rfl⟩
    · obtain ⟨f, hs, hr⟩ := entry_rejects.mp he
      rcases hf with ⟨g, hg, hn⟩ | ⟨hm, _⟩
      · cases Option.some.inj (hg.symm.trans hs)
        exact absurd hr (hn false)
      · cases Value.bool.inj (Except.ok.inj (hr.symm.trans (hm f hs)))
    · obtain ⟨hm, hy⟩ := entry_enters.mp he
      rcases hf with ⟨g, hg, hn⟩ | ⟨_, hn⟩
      · exact absurd (hm g hg) (hn true)
      · exact absurd hy (hn entry)

/-- The loop over both sides goes through the pairs as they stand in the product. -/
theorem pass_eq_foldl (left right : List (Event × Value)) :
    j.pass left right =
      (left ×ˢ right).foldl (fun p ab => p.add (j.entry ab.1 ab.2)) .start := by
  change _ = (left.flatMap fun a => right.map (Prod.mk a)).foldl _ _
  rw [List.foldl_flatMap]
  simp only [List.foldl_map]
  rfl

theorem exists_gathers (pairs : List ((Event × Value) × (Event × Value))) :
    ∃ entries rejected failed, Gathers j pairs entries rejected failed := by
  induction pairs with
  | nil => exact ⟨[], 0, 0, .nil⟩
  | cons ab pairs ih =>
    obtain ⟨entries, rejected, failed, h⟩ := ih
    obtain ⟨a, b⟩ := ab
    rcases he : j.entry a b with e | (_ | entry)
    · exact ⟨entries, rejected, failed + 1, .fails (entry_fails.mp ⟨e, he⟩) h⟩
    · exact ⟨entries, rejected + 1, failed, .rejects (entry_rejects.mp he) h⟩
    · exact ⟨entry :: entries, rejected, failed, .enters (entry_enters.mp he) h⟩

namespace Gathers

variable {pairs : List ((Event × Value) × (Event × Value))} {entries : List Bytes}
  {rejected failed : Nat}

theorem total (h : Gathers j pairs entries rejected failed) :
    entries.length + rejected + failed = pairs.length := by
  induction h with
  | nil => rfl
  | enters _ _ ih | rejects _ _ ih | fails _ _ ih => simp only [List.length_cons]; omega

/-- What the loop has at the end, from whatever it has at the start. -/
theorem foldl_add (h : Gathers j pairs entries rejected failed) (p : Pass) :
    (pairs.foldl (fun p ab => p.add (j.entry ab.1 ab.2)) p).entries =
        entries.reverse ++ p.entries ∧
      (pairs.foldl (fun p ab => p.add (j.entry ab.1 ab.2)) p).failures.length =
        failed + p.failures.length := by
  induction h generalizing p with
  | nil => simp
  | enters he _ ih =>
    rw [List.foldl_cons, entry_enters.mpr he]
    obtain ⟨hes, hfs⟩ := ih (p.add (.ok (some _)))
    refine ⟨?_, hfs⟩
    rw [hes, List.reverse_cons, List.append_assoc]
    rfl
  | rejects hr _ ih =>
    rw [List.foldl_cons, entry_rejects.mpr hr]
    exact ih p
  | fails hf _ ih =>
    obtain ⟨e, he⟩ := entry_fails.mpr hf
    rw [List.foldl_cons, he]
    obtain ⟨hes, hfs⟩ := ih (p.add (.error e))
    refine ⟨hes, ?_⟩
    rw [hfs]
    simp only [Pass.add, List.length_cons]
    omega

theorem pass_eq {left right : List (Event × Value)}
    (h : Gathers j (left ×ˢ right) entries rejected failed) :
    (j.pass left right).entries = entries.reverse ∧
      (j.pass left right).failures.length = failed := by
  obtain ⟨hes, hfs⟩ := h.foldl_add .start
  rw [pass_eq_foldl, hes, hfs]
  exact ⟨List.append_nil _, rfl⟩

end Gathers

variable {left right : List Event} {result : Except EmptyWindow JoinOutput}

theorem exists_joins (j : JoinEngine) (left right : List Event) :
    ∃ result, Joins j left right result := by
  by_cases hl : objects left = []
  · exact ⟨_, .leftEmpty hl⟩
  by_cases hr : objects right = []
  · exact ⟨_, .rightEmpty hl hr⟩
  by_cases hf : j.requireFilter = true → j.filter ≠ none
  · obtain ⟨entries, rejected, failed, h⟩ := j.exists_gathers (objects left ×ˢ objects right)
    by_cases he : entries = []
    · subst he
      exact ⟨_, .unmatched hl hr hf h⟩
    · exact ⟨_, .matched hl hr hf h he⟩
  · obtain ⟨hq, hn⟩ := Classical.not_imp.mp hf
    exact ⟨_, .unfiltered hl hr (not_not.mp hn) hq⟩

theorem Joins.join_eq {s : WindowStore}
    (h : Joins j (s.get j.left.topic) (s.get j.right.topic) result) :
    (j.join s).result = result := by
  unfold join joinPairs
  simp only [ofEvents_eq]
  cases h with
  | leftEmpty hl => simp [hl]
  | rightEmpty hl hr => simp [hl, hr]
  | unfiltered hl hr hn hq => simp [hl, hr, hn, hq]
  | unmatched hl hr hf h =>
    have hn : ¬(j.filter = none ∧ j.requireFilter = true) := fun hn => hf hn.2 hn.1
    simp [hl, hr, hn, h.pass_eq.1]
  | matched hl hr hf h he =>
    have hn : ¬(j.filter = none ∧ j.requireFilter = true) := fun hn => hf hn.2 hn.1
    simp [hl, hr, hn, h.pass_eq.1, h.pass_eq.2, he, jsonArray_eq_arrayText]

theorem join_eq_iff {s : WindowStore} :
    (j.join s).result = result ↔
      Joins j (s.get j.left.topic) (s.get j.right.topic) result := by
  constructor
  · rintro rfl
    obtain ⟨result, h⟩ := exists_joins j (s.get j.left.topic) (s.get j.right.topic)
    rw [h.join_eq]
    exact h
  · exact Joins.join_eq

/-- What goes out is the array of the entries that are gathered. -/
theorem Gathers.join_body {s : WindowStore} {entries : List Bytes} {rejected failed : Nat}
    {out : JoinOutput}
    (h : Gathers j (objects (s.get j.left.topic) ×ˢ objects (s.get j.right.topic)) entries rejected
      failed)
    (hout : (j.join s).result = .ok out) : out.payload.body = arrayText entries := by
  cases join_eq_iff.mp hout with
  | matched _ _ _ hg _ =>
    rw [List.reverse_injective (hg.pass_eq.1.symm.trans h.pass_eq.1)]

theorem arrayText_singleton_inj {x y : Bytes} : arrayText [x] = arrayText [y] ↔ x = y := by
  simp [arrayText]

/-- Two events alone are joined when their pair enters. -/
theorem join_alone {s : WindowStore} {e d : Event} (ha : e.object? = some a)
    (hb : d.object? = some b) (hf : j.requireFilter = true → j.filter ≠ none)
    (hl : s.get j.left.topic = [e]) (hr : s.get j.right.topic = [d]) :
    (j.join s).result = .ok ⟨⟨arrayText [entry]⟩, 1, 1, 0⟩ ↔ j.Enters a b entry := by
  have hls : objects [e] = [a] := by simp [objects, ha]
  have hrs : objects [d] = [b] := by simp [objects, hb]
  have hli : invalidCount [e] = 0 := by simp [invalidCount, ha]
  have hri : invalidCount [d] = 0 := by simp [invalidCount, hb]
  have hp : objects [e] ×ˢ objects [d] = [(a, b)] := by rw [hls, hrs]; rfl
  rw [join_eq_iff, hl, hr]
  constructor
  · intro h
    generalize hw : (Except.ok (⟨⟨arrayText [entry]⟩, 1, 1, 0⟩ : JoinOutput) :
      Except EmptyWindow JoinOutput) = result at h
    cases h with
    | leftEmpty | rightEmpty | unfiltered | unmatched => cases hw
    | @matched entries rejected failed _ _ _ h _ =>
      injection hw with hw
      injection hw with hbody hlen
      obtain ⟨x, rfl⟩ := List.length_eq_one_iff.mp hlen.symm
      cases arrayText_singleton_inj.mp (congrArg Envelope.body hbody)
      rw [hp] at h
      cases h with
      | enters he _ => exact he
      | rejects _ h | fails _ h => cases h
  · intro he
    have h : Gathers j (objects [e] ×ˢ objects [d]) [entry] 0 0 := by
      rw [hp]
      exact .enters he .nil
    have hj := Joins.matched (by simp [hls]) (by simp [hrs]) hf h (by simp)
    simpa [hls, hrs, hli, hri] using hj

theorem join_congr {s t : WindowStore} (h : ∀ topic ∈ j.topics, s.get topic = t.get topic) :
    j.join s = j.join t := by
  have hl : s.get j.left.topic = t.get j.left.topic := h _ (by simp [topics])
  have hr : s.get j.right.topic = t.get j.right.topic := h _ (by simp [topics])
  unfold join
  rw [hl, hr]

end JoinEngine

theorem get_append_of_ne {s : WindowStore} {e : Event} {topic : String} (h : e.topic ≠ topic) :
    (s.append e).get topic = s.get topic := by
  unfold WindowStore.get WindowStore.append
  rw [lookup?_insertSorted, if_neg h]

/-- The join yields what the relation says, as a text that is read as the array of what its entries
are read as; every pair of objects enters, is rejected or fails; a pair alone in its window yields
its own entry; and events of other topics do not matter. -/
theorem join_cross_product (j : JoinEngine) (s : WindowStore) :
    (∀ result, (j.join s).result = result ↔
      j.Joins (s.get j.left.topic) (s.get j.right.topic) result) ∧
    (∀ left right entries rejected failed,
      j.Gathers (objects left ×ˢ objects right) entries rejected failed →
      entries.length + rejected + failed = (objects left).length * (objects right).length) ∧
    (∀ entries rejected failed out,
      j.Gathers (objects (s.get j.left.topic) ×ˢ objects (s.get j.right.topic)) entries rejected
        failed →
      (j.join s).result = .ok out →
      out.payload.body = arrayText entries ∧
        ∀ js, entries.map Json.parse? = js.map some → (∀ e ∈ entries, Json.nesting e ≤ 126) →
          Json.parse? out.payload.body = some (.array js)) ∧
    (∀ e d a b entry, e.object? = some a → d.object? = some b →
      (j.requireFilter = true → j.filter ≠ none) →
      s.get j.left.topic = [e] → s.get j.right.topic = [d] →
      ((j.join s).result = .ok ⟨⟨arrayText [entry]⟩, 1, 1, 0⟩ ↔ j.Enters a b entry)) ∧
    (∀ t : WindowStore, (∀ topic ∈ j.topics, s.get topic = t.get topic) → j.join s = j.join t) ∧
    (∀ e, e.topic ∉ j.topics → j.join (s.append e) = j.join s) := by
  refine ⟨fun _ => JoinEngine.join_eq_iff, ?_, ?_, ?_, fun _ => JoinEngine.join_congr, ?_⟩
  · intro left right entries rejected failed h
    rw [h.total, List.length_product]
  · intro entries rejected failed out h hout
    have hbody := h.join_body hout
    exact ⟨hbody, fun js hread hdepth => hbody ▸ parse?_arrayText hread hdepth⟩
  · intro e d a b entry ha hb hf hl hr
    exact JoinEngine.join_alone ha hb hf hl hr
  · intro e he
    refine JoinEngine.join_congr fun topic ht => get_append_of_ne ?_
    rintro rfl
    exact he ht

/-- Pairs with one identifier. -/
def sameIds : JoinEngine where
  left := ⟨"A", "A"⟩
  right := ⟨"B", "B"⟩
  filter := some ⟨"A.id == B.id", ["A", "B"],
    .binary .equal (.member (.variable "A") "id") (.member (.variable "B") "id")⟩
  select := none
  requireFilter := true

/-- Of an object and a list on one side and four objects on the other one, two pairs enter, one is
rejected, and one fails for want of an identifier. -/
theorem join_cross_product_of_ids :
    let event (topic text : String) : Event := ⟨none, topic, jsonType, Bytes.ofString text⟩
    let s : WindowStore := ⟨[
      ("A", [event "A" "\x7b\"id\":\"x\"\x7d", event "A" "[]"]),
      ("B", [event "B" "\x7b\"id\":\"x\"\x7d", event "B" "\x7b\"id\":\"y\"\x7d",
        event "B" "\x7b\x7d", event "B" "\x7b\"n\":null,\"id\":\"x\"\x7d"])]⟩
    let first := Bytes.ofString
      "\x7b\"A\":\x7b\"id\":\"x\"\x7d,\"B\":\x7b\"id\":\"x\"\x7d\x7d"
    let second := Bytes.ofString
      "\x7b\"A\":\x7b\"id\":\"x\"\x7d,\"B\":\x7b\"n\":null,\"id\":\"x\"\x7d\x7d"
    let out : JoinOutput := ⟨⟨Bytes.ofString "[" ++ first ++ Bytes.ofString "," ++ second ++
      Bytes.ofString "]"⟩, 2, 4, 2⟩
    let same : Json := .object [("id", .string "x")]
    (sameIds.join s).result = .ok out ∧
    sameIds.Joins (s.get "A") (s.get "B") (.ok out) ∧
    sameIds.Gathers (objects (s.get "A") ×ˢ objects (s.get "B")) [first, second] 1 1 ∧
    Json.parse? out.payload.body = some (.array [.object [("A", same), ("B", same)],
      .object [("A", same), ("B", .object [("id", .string "x"), ("n", .null)])]]) := by
  intro event s first second out same
  obtain ⟨hjoins, _, hbody, _⟩ := join_cross_product sameIds s
  have hout : (sameIds.join s).result = .ok out := by
    unfold out first second s event
    cbv
  have hgathers : sameIds.Gathers (objects (s.get "A") ×ˢ objects (s.get "B")) [first, second] 1 1 :=
    .enters (JoinEngine.entry_enters.mp (by unfold first; cbv))
      (.rejects (JoinEngine.entry_rejects.mp (by cbv))
        (.fails (JoinEngine.entry_fails.mp ⟨.eval (.noSuchKey "id"), by cbv⟩)
          (.enters (JoinEngine.entry_enters.mp (by unfold second; cbv)) .nil)))
  refine ⟨hout, (hjoins _).mp hout, hgathers, (hbody _ _ _ _ hgathers hout).2 _ ?_ ?_⟩
  · unfold first second
    cbv
  · unfold first second
    decide

end EventStream
