import EventStream.Proofs.Config.WellFormed
import EventStream.Proofs.Expr.Environments
import EventStream.Proofs.Json.Splicing
import EventStream.Proofs.Window.Independence

namespace EventStream

/-- Texts of one and the same object. -/
def Json.SameObject (x y : Bytes) : Prop :=
  ∃ entries, (∃ n, data.IsValue n x (.object entries)) ∧ ∃ n, data.IsValue n y (.object entries)

theorem Json.sameObject_pairObject {k₁ k₂ : String} {b₁ b₂ : Bytes} {j₁ j₂ : Json} (hne : k₁ ≠ k₂)
    (h₁ : parse? b₁ = some j₁) (h₂ : parse? b₂ = some j₂) :
    SameObject (pairObject k₁ b₁ k₂ b₂) (pairObject k₂ b₂ k₁ b₁) := by
  have hfirst := spaced_member k₁ ⟨_, Nat.le_max_left _ (nesting b₂), spaced_of_parse? h₁⟩
  have hsecond := spaced_member k₂ ⟨_, Nat.le_max_right (nesting b₁) _, spaced_of_parse? h₂⟩
  obtain ⟨_, _, h⟩ := isValue_object (.cons hfirst (.cons hsecond .nil))
  obtain ⟨_, _, h'⟩ := isValue_object (.cons hsecond (.cons hfirst .nil))
  have hsorted : sortedEntries [(k₁, j₁), (k₂, j₂)] = sortedEntries [(k₂, j₂), (k₁, j₁)] :=
    sortedEntries_of_perm _ (by simpa [keys] using hne) (.swap _ _ _)
  rw [ofEntries, ← hsorted] at h'
  exact ⟨_, ⟨_, h⟩, _, h'⟩

/-- The streams of a joiner in the other order. -/
def JoinerConfig.transposed (c : JoinerConfig) : JoinerConfig :=
  { c with left := c.right, right := c.left }

namespace Program

/-- Programs of one expression. -/
def SameRoot (p q : Program) : Prop :=
  p.root = q.root

theorem sameRoot_symm {f g : Option Program} (h : Option.Rel SameRoot f g) :
    Option.Rel SameRoot g f := by
  cases h with
  | none => exact .none
  | some h => exact .some h.symm

theorem SameRoot.evaluate_eq {p q : Program} {b c : Bindings} (h : p.SameRoot q)
    (hb : ∀ name, b.get? name = c.get? name) : p.evaluate b = q.evaluate c := by
  unfold evaluate Expr.eval
  rw [h, Eval.eval_of_get?_eq hb]

end Program

theorem Role.compile_of_mem_iff {role : Role} {declared other : List String}
    {source : Option String} {f : Option Program} (h : ∀ name, name ∈ declared ↔ name ∈ other)
    (hf : role.compile declared source = .ok f) :
    ∃ g, role.compile other source = .ok g ∧ Option.Rel Program.SameRoot f g := by
  unfold Role.compile at hf ⊢
  cases source with
  | none =>
    cases hf
    exact ⟨none, rfl, .none⟩
  | some source =>
    simp only at hf ⊢
    split at hf
    next p hp =>
      cases hf
      rw [Program.compile_of_mem_iff h hp]
      exact ⟨_, rfl, .some rfl⟩
    next => cases hf

namespace JoinEngine

/-- Two engines with the same expressions and the same two topics, in opposite order. -/
structure Mirrors (j k : JoinEngine) : Prop where
  left : k.left = j.right
  right : k.right = j.left
  topics : j.left.topic ≠ j.right.topic
  bindings : j.left.binding ≠ j.right.binding
  filter : Option.Rel Program.SameRoot j.filter k.filter
  select : Option.Rel Program.SameRoot j.select k.select
  requireFilter : k.requireFilter = j.requireFilter

/-- Entries of one pair: what is selected is the same, else the objects are. -/
def SameEntry (j : JoinEngine) (x y : Bytes) : Prop :=
  match j.select with
  | none => Json.SameObject x y
  | some _ => x = y

/-- The entries of pairs that all enter. -/
def EntersAll (j : JoinEngine) (pairs : List ((Event × Value) × (Event × Value)))
    (entries : List Bytes) : Prop :=
  List.Forall₂ (fun ab x => j.Enters ab.1 ab.2 x) pairs entries

/-- What two engines yield for one window is the same but for the order of the entries: those of one
pair stand for each other. -/
inductive Transposes (j k : JoinEngine) (s : WindowStore) :
    Except EmptyWindow JoinOutput → Except EmptyWindow JoinOutput → Prop
  | emptyBucket (t u) : Transposes j k s (.error (.emptyBucket t)) (.error (.emptyBucket u))
  | noMatches (n) : Transposes j k s (.error (.noMatches n)) (.error (.noMatches n))
  | joined {pairs entries mirrored shown} (matched candidates errors) :
      pairs.Sublist (objects (s.get j.left.topic) ×ˢ objects (s.get j.right.topic)) →
      j.EntersAll pairs entries → k.EntersAll (pairs.map Prod.swap) mirrored →
      List.Forall₂ j.SameEntry entries mirrored → mirrored.Perm shown →
      Transposes j k s (.ok ⟨⟨arrayText entries⟩, matched, candidates, errors⟩)
        (.ok ⟨⟨arrayText shown⟩, matched, candidates, errors⟩)

section
variable {j k : JoinEngine} {a b : Event × Value} {x : Bytes}

theorem Mirrors.symm (hm : j.Mirrors k) : k.Mirrors j where
  left := hm.right.symm
  right := hm.left.symm
  topics := by
    rw [hm.left, hm.right]
    exact hm.topics.symm
  bindings := by
    rw [hm.left, hm.right]
    exact hm.bindings.symm
  filter := Program.sameRoot_symm hm.filter
  select := Program.sameRoot_symm hm.select
  requireFilter := hm.requireFilter.symm

variable (hm : j.Mirrors k)
include hm

theorem get?_bindings (v w : Value) (name : String) :
    (j.bindings v w).get? name = (k.bindings w v).get? name := by
  unfold bindings
  rw [hm.left, hm.right]
  simp only [Bindings.get?_insert]
  split
  next hr =>
    subst hr
    rw [if_neg hm.bindings]
  next => rfl

theorem evaluate_mirrored {p q : Program} (h : p.SameRoot q) :
    p.evaluate (j.bindings a.2 b.2) = q.evaluate (k.bindings b.2 a.2) :=
  h.evaluate_eq (get?_bindings hm a.2 b.2)

theorem accepts_mirrored :
    j.accepts (j.bindings a.2 b.2) = k.accepts (k.bindings b.2 a.2) := by
  have hf := hm.filter
  unfold accepts
  generalize j.filter = f at hf
  generalize k.filter = g at hf
  cases hf with
  | none => rfl
  | some h => simp only [Program.holds, Program.valueOf, evaluate_mirrored hm h]

/-- A pair that is rejected is so in either order. -/
theorem rejects_mirrored (h : j.Rejects a b) : k.Rejects b a := by
  rw [← accepts_iff_rejects] at h ⊢
  rw [← accepts_mirrored hm, h]

/-- The entries of a pair in the two orders stand for each other. -/
theorem enters_mirrored (ha : ∃ o, Json.parse? a.1.payload = some o)
    (hb : ∃ o, Json.parse? b.1.payload = some o) (h : j.Enters a b x) :
    ∃ y, k.Enters b a y ∧ j.SameEntry x y := by
  obtain ⟨hmatch, hx⟩ := h
  have hmatch : k.Matches b a := by
    rw [← accepts_iff_matches] at hmatch ⊢
    rw [← accepts_mirrored hm, hmatch]
  suffices h : ∃ y, k.Yields b a y ∧ j.SameEntry x y by
    obtain ⟨y, hy, hs⟩ := h
    exact ⟨y, ⟨hmatch, hy⟩, hs⟩
  have hs := hm.select
  unfold Yields at hx ⊢
  unfold SameEntry
  generalize j.select = f at hs hx
  generalize k.select = g at hs
  cases hs with
  | none =>
    obtain ⟨o, ho⟩ := ha
    obtain ⟨u, hu⟩ := hb
    subst hx
    refine ⟨_, rfl, ?_⟩
    rw [hm.left, hm.right, ← pairObject_eq_objectText, ← pairObject_eq_objectText]
    exact Json.sameObject_pairObject hm.topics ho hu
  | some h =>
    obtain ⟨v, hv, hj⟩ := hx
    exact ⟨x, ⟨v, (evaluate_mirrored hm h).symm.trans hv, hj⟩, rfl⟩

/-- A pair that fails does so in either order, since it would not have failed otherwise. -/
theorem fails_mirrored (ha : ∃ o, Json.parse? a.1.payload = some o)
    (hb : ∃ o, Json.parse? b.1.payload = some o) (h : j.Fails a b) : k.Fails b a := by
  obtain ⟨e, he⟩ := entry_fails.mpr h
  rcases hk : k.entry b a with d | (_ | y)
  · exact entry_fails.mp ⟨d, hk⟩
  · have hr := rejects_mirrored hm.symm (entry_rejects.mp hk)
    cases (entry_rejects.mpr hr).symm.trans he
  · obtain ⟨x, hx, _⟩ := enters_mirrored hm.symm hb ha (entry_enters.mp hk)
    cases (entry_enters.mpr hx).symm.trans he

end

namespace Gathers

variable {j k : JoinEngine} {pairs : List ((Event × Value) × (Event × Value))}
  {entries : List Bytes} {rejected failed : Nat}

theorem eq_filterMap (h : j.Gathers pairs entries rejected failed) :
    entries = pairs.filterMap (fun ab => (j.entry ab.1 ab.2).toOption.join) ∧
      rejected = pairs.countP (fun ab => (j.entry ab.1 ab.2).toOption = some none) ∧
      failed = pairs.countP (fun ab => !(j.entry ab.1 ab.2).isOk) := by
  induction h with
  | nil => exact ⟨rfl, rfl, rfl⟩
  | enters he _ ih =>
    obtain ⟨rfl, rfl, rfl⟩ := ih
    have he := entry_enters.mpr he
    simp [he, Except.toOption, Except.isOk, Except.toBool]
  | rejects hr _ ih =>
    obtain ⟨rfl, rfl, rfl⟩ := ih
    have hr := entry_rejects.mpr hr
    simp [hr, Except.toOption, Except.isOk, Except.toBool]
  | fails hf _ ih =>
    obtain ⟨rfl, rfl, rfl⟩ := ih
    obtain ⟨e, he⟩ := entry_fails.mpr hf
    simp [he, Except.toOption, Except.isOk, Except.toBool]

/-- The order of the pairs is that of the entries, and nothing else depends on it. -/
theorem perm {others : List ((Event × Value) × (Event × Value))} (hp : pairs.Perm others)
    (h : j.Gathers pairs entries rejected failed) :
    ∃ shown, j.Gathers others shown rejected failed ∧ entries.Perm shown := by
  obtain ⟨shown, r, f, hs⟩ := j.exists_gathers others
  obtain ⟨rfl, rfl, rfl⟩ := h.eq_filterMap
  obtain ⟨rfl, rfl, rfl⟩ := hs.eq_filterMap
  rw [hp.countP_eq, hp.countP_eq]
  exact ⟨_, hs, hp.filterMap _⟩

/-- The same pairs the other way round, each becoming what it was. -/
theorem mirrored (hm : j.Mirrors k) (h : j.Gathers pairs entries rejected failed)
    (ho : ∀ ab ∈ pairs, (∃ o, Json.parse? ab.1.1.payload = some o) ∧
      ∃ o, Json.parse? ab.2.1.payload = some o) :
    ∃ entered mirrored, k.Gathers (pairs.map Prod.swap) mirrored rejected failed ∧
      entered.Sublist pairs ∧ j.EntersAll entered entries ∧
      k.EntersAll (entered.map Prod.swap) mirrored ∧
      List.Forall₂ j.SameEntry entries mirrored := by
  induction h with
  | nil => exact ⟨[], [], .nil, .slnil, .nil, .nil, .nil⟩
  | @enters a b x _ _ _ _ he _ ih =>
    obtain ⟨entered, mirrored, hg, hsub, hj, hk, hs⟩ :=
      ih fun ab hab => ho ab (List.mem_cons_of_mem _ hab)
    obtain ⟨ha, hb⟩ := ho (a, b) List.mem_cons_self
    obtain ⟨y, hy, hxy⟩ := enters_mirrored hm ha hb he
    exact ⟨(a, b) :: entered, y :: mirrored, .enters hy hg, hsub.cons_cons _, .cons he hj,
      .cons hy hk, .cons hxy hs⟩
  | rejects hr _ ih =>
    obtain ⟨entered, mirrored, hg, hsub, h⟩ := ih fun ab hab => ho ab (List.mem_cons_of_mem _ hab)
    exact ⟨entered, mirrored, .rejects (rejects_mirrored hm hr) hg, hsub.cons _, h⟩
  | @fails a b _ _ _ _ hf _ ih =>
    obtain ⟨entered, mirrored, hg, hsub, h⟩ := ih fun ab hab => ho ab (List.mem_cons_of_mem _ hab)
    obtain ⟨ha, hb⟩ := ho (a, b) List.mem_cons_self
    exact ⟨entered, mirrored, .fails (fails_mirrored hm ha hb hf) hg, hsub.cons _, h⟩

end Gathers

end JoinEngine

theorem product_perm_swap {α β : Type} (xs : List α) (ys : List β) :
    ((xs ×ˢ ys).map Prod.swap).Perm (ys ×ˢ xs) := by
  rw [← Multiset.coe_eq_coe]
  simpa only [Multiset.coe_product, Multiset.map_coe] using
    Multiset.map_swap_product (xs : Multiset α) (ys : Multiset β)

theorem parse?_of_mem_objects {events : List Event} {a : Event × Value} (h : a ∈ objects events) :
    ∃ o, Json.parse? a.1.payload = some o := by
  obtain ⟨e, _, he⟩ := List.mem_filterMap.mp h
  unfold Event.object? at he
  split at he
  next entries hp =>
    cases he
    exact ⟨_, hp⟩
  next => cases he

namespace JoinEngine

variable {j k : JoinEngine}

/-- Every pair of one order is a pair of the other one. -/
theorem Mirrors.gathers (hm : j.Mirrors k) {left right : List Event} {entries : List Bytes}
    {rejected failed : Nat}
    (h : j.Gathers (objects left ×ˢ objects right) entries rejected failed) :
    ∃ entered mirrored shown, k.Gathers (objects right ×ˢ objects left) shown rejected failed ∧
      entered.Sublist (objects left ×ˢ objects right) ∧ j.EntersAll entered entries ∧
      k.EntersAll (entered.map Prod.swap) mirrored ∧
      List.Forall₂ j.SameEntry entries mirrored ∧ mirrored.Perm shown := by
  have ho : ∀ ab ∈ objects left ×ˢ objects right, (∃ o, Json.parse? ab.1.1.payload = some o) ∧
      ∃ o, Json.parse? ab.2.1.payload = some o := by
    rintro ⟨a, b⟩ hab
    obtain ⟨ha, hb⟩ := List.mem_product.mp hab
    exact ⟨parse?_of_mem_objects ha, parse?_of_mem_objects hb⟩
  obtain ⟨entered, mirrored, hg, hsub, hj, hk, hs⟩ := h.mirrored hm ho
  obtain ⟨shown, hshown, hperm⟩ := hg.perm (product_perm_swap _ _)
  exact ⟨entered, mirrored, shown, hshown, hsub, hj, hk, hs, hperm⟩

/-- A window is joined alike in both orders; which topic is told to be empty is not asked. -/
theorem Mirrors.transposes (hm : j.Mirrors k) (s : WindowStore) :
    j.Transposes k s (j.join s).result (k.join s).result := by
  have hj := join_eq_iff.mp (rfl : (j.join s).result = _)
  generalize (j.join s).result = result at hj
  have hfilter : (k.requireFilter = true → k.filter ≠ none) ↔
      (j.requireFilter = true → j.filter ≠ none) := by
    have hf := hm.filter
    rw [hm.requireFilter]
    generalize j.filter = f at hf
    generalize k.filter = g at hf
    cases hf <;> simp
  have hk (r) (h : k.Joins (s.get j.right.topic) (s.get j.left.topic) r) :
      (k.join s).result = r := by
    refine join_eq_iff.mpr ?_
    rw [hm.left, hm.right]
    exact h
  cases hj with
  | leftEmpty hl =>
    by_cases hr : objects (s.get j.right.topic) = []
    · rw [hk _ (.leftEmpty hr)]
      exact .emptyBucket _ _
    · rw [hk _ (.rightEmpty hr hl)]
      exact .emptyBucket _ _
  | rightEmpty hl hr =>
    rw [hk _ (.leftEmpty hr)]
    exact .emptyBucket _ _
  | unfiltered hl hr hn hq =>
    have hn : ¬(k.requireFilter = true → k.filter ≠ none) := by
      rw [hfilter]
      exact fun h => h hq hn
    obtain ⟨hq, hn⟩ := Classical.not_imp.mp hn
    rw [hk _ (.unfiltered hr hl (not_not.mp hn) hq), Nat.mul_comm]
    exact .noMatches _
  | unmatched hl hr hf hg =>
    obtain ⟨entered, mirrored, shown, hshown, _, _, _, hs, hperm⟩ := hm.gathers hg
    cases hs
    cases hperm.nil_eq
    rw [hk _ (.unmatched hr hl (hfilter.mpr hf) hshown), Nat.mul_comm]
    exact .noMatches _
  | @matched entries rejected failed hl hr hf hg hne =>
    obtain ⟨entered, mirrored, shown, hshown, hsub, hje, hke, hs, hperm⟩ := hm.gathers hg
    have hlength : shown.length = entries.length := by rw [← hperm.length_eq, hs.length_eq]
    have hsne : shown ≠ [] := by
      rw [← List.length_pos_iff] at hne ⊢
      omega
    rw [hk _ (.matched hr hl (hfilter.mpr hf) hshown hsne), hlength, Nat.mul_comm,
      Nat.add_comm (invalidCount (s.get j.right.topic))]
    exact .joined _ _ _ hsub hje hke hs hperm

theorem exists_mirror {c : JoinerConfig} (hc : c.left.binding ≠ c.right.binding)
    (hj : ofConfig c = .ok j) : ∃ k, ofConfig c.transposed = .ok k ∧ j.Mirrors k := by
  have hswap (name : String) :
      name ∈ [c.left.binding, c.right.binding] ↔ name ∈ [c.right.binding, c.left.binding] :=
    (List.Perm.swap _ _ _).mem_iff
  obtain ⟨f, hf, hj⟩ := bind_eq_ok.mp hj
  obtain ⟨g, hg, hj⟩ := bind_eq_ok.mp hj
  cases hj
  obtain ⟨f', hf', hff⟩ := Role.compile_of_mem_iff hswap hf
  obtain ⟨g', hg', hgg⟩ := Role.compile_of_mem_iff hswap hg
  refine ⟨_, bind_eq_ok.mpr ⟨f', hf', bind_eq_ok.mpr ⟨g', hg', rfl⟩⟩, ?_⟩
  exact ⟨rfl, rfl, fun ht => hc (congrArg sanitizeIdentifier ht), hc, hff, hgg, rfl⟩

/-- Settings that are accepted give streams with different variables, so that their order does not
matter. -/
theorem transposes_of_ofSettings {settings : Settings} {c : JoinerConfig}
    (hc : JoinerConfig.ofSettings settings = .ok c) (hj : ofConfig c = .ok j) :
    ∃ k, ofConfig c.transposed = .ok k ∧
      ∀ s : WindowStore, j.Transposes k s (j.join s).result (k.join s).result := by
  obtain ⟨_, _, _, hbindings, _⟩ := JoinerConfig.ofSettings_eq_ok hc
  obtain ⟨k, hk, hm⟩ := exists_mirror hbindings hj
  exact ⟨k, hk, hm.transposes⟩

end JoinEngine

/-- The variables of two streams being different, as those of accepted settings are, a joiner
compiles in both orders of the streams or in none, and in both it yields the same for every window,
up to the order of the entries. -/
theorem join_transposed {c : JoinerConfig} (hc : c.left.binding ≠ c.right.binding) :
    (∃ d e, JoinEngine.ofConfig c = .error d ∧ JoinEngine.ofConfig c.transposed = .error e) ∨
    ∃ j k, JoinEngine.ofConfig c = .ok j ∧ JoinEngine.ofConfig c.transposed = .ok k ∧
      ∀ s : WindowStore, j.Transposes k s (j.join s).result (k.join s).result := by
  cases hj : JoinEngine.ofConfig c with
  | ok j =>
    obtain ⟨k, hk, hm⟩ := JoinEngine.exists_mirror hc hj
    exact .inr ⟨j, k, rfl, hk, hm.transposes⟩
  | error d =>
    cases hk : JoinEngine.ofConfig c.transposed with
    | error e => exact .inl ⟨d, e, rfl, rfl⟩
    | ok k =>
      obtain ⟨j, hj', _⟩ := JoinEngine.exists_mirror (c := c.transposed) hc.symm hk
      cases hj'.symm.trans hj

/-- Of two events of each topic the equal ones are joined. -/
theorem join_transposed_equal_pairs :
    let full := Bytes.ofString "\x7b\"n\":true\x7d"
    let empty := Bytes.ofString "\x7b\x7d"
    let s : WindowStore := ⟨[
      ("A", [⟨none, "A", jsonType, full⟩, ⟨none, "A", jsonType, empty⟩]),
      ("B", [⟨none, "B", jsonType, empty⟩, ⟨none, "B", jsonType, full⟩])]⟩
    equalPairs.left.binding ≠ equalPairs.right.binding ∧
    (pairJoiner.engine.join s).result = .ok ⟨⟨Bytes.ofString ("[\x7b\"A\":\x7b\"n\":true\x7d," ++
      "\"B\":\x7b\"n\":true\x7d\x7d,\x7b\"A\":\x7b\x7d,\"B\":\x7b\x7d\x7d]")⟩, 2, 4, 0⟩ ∧
    ∃ k, JoinEngine.ofConfig equalPairs.transposed = .ok k ∧
      (k.join s).result = .ok ⟨⟨Bytes.ofString ("[\x7b\"B\":\x7b\x7d,\"A\":\x7b\x7d\x7d," ++
        "\x7b\"B\":\x7b\"n\":true\x7d,\"A\":\x7b\"n\":true\x7d\x7d]")⟩, 2, 4, 0⟩ ∧
      pairJoiner.engine.Transposes k s (pairJoiner.engine.join s).result (k.join s).result := by
  intro full empty s
  have hc : equalPairs.left.binding ≠ equalPairs.right.binding := by decide
  have hp := (Joiner.ofConfig_eq_ok.mp ofConfig_equalPairs).1
  have ht : JoinEngine.ofConfig equalPairs.transposed = .ok ⟨⟨"B", "B"⟩, ⟨"A", "A"⟩,
      some ⟨"A == B", ["B", "A"], .binary .equal (.variable "A") (.variable "B")⟩, none, true⟩ := by
    cbv
  rcases join_transposed hc with ⟨d, e, hj, _⟩ | ⟨j, k, hj, hk, h⟩
  · cases hp.symm.trans hj
  · cases hp.symm.trans hj
    cases ht.symm.trans hk
    exact ⟨hc, by cbv, _, ht, by cbv, h s⟩

end EventStream
