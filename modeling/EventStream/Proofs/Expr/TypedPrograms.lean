import EventStream.Proofs.Expr.TypeSoundness

namespace EventStream

/-- The type of every part is known. -/
def FullyTyped (declared : List String) (room : Nat) (e : Expr) : Prop :=
  ∀ rest part, Expr.Part room e rest part → Typing.check declared rest part ≠ .ok .dyn

/-- Operands of a search among keys for something that is no string. -/
structure ForeignKey (declared : List String) (rest : Nat) (key container : Expr) (k : ValueType) :
    Prop where
  key_type : Typing.check declared rest key = .ok (.known k)
  key_ne : k ≠ .string
  container_type : Typing.check declared rest container = .ok (.known .map)

/-- The errors of an expression whose types are all known. -/
inductive Excused (declared : List String) (b : Bindings) (room : Nat) (e : Expr) :
    EvalError → Prop
  | domain {err} : err.IsDomain → Excused declared b room e err
  | foreignKey {rest key container k v w} :
      Expr.Part room e (rest + 1) (.binary .isIn key container) →
      ForeignKey declared rest key container k →
      Eval.eval b rest key = .ok v → Eval.eval b rest container = .ok w →
      Excused declared b room e (.noSuchOverload "in" [k, .map])

section
variable {declared : List String} {b : Bindings} {room : Nat} {e c : Expr} {t k : ValueType}

theorem FullyTyped.child (h : FullyTyped declared (room + 1) e) (hc : c ∈ e.children) :
    FullyTyped declared room c :=
  fun rest part hp => h rest part (.inside hc hp)

theorem FullyTyped.known {s : StaticType} (h : FullyTyped declared room e)
    (hs : Typing.check declared room e = .ok s) : ∃ t, s = .known t := by
  apply StaticType.exists_known
  rintro rfl
  exact h room e .whole hs

theorem FullyTyped.part {rest : Nat} {part : Expr} (h : FullyTyped declared room e)
    (hp : Expr.Part room e rest part) : FullyTyped declared rest part :=
  fun last inner hi => h last inner (hp.trans hi)

theorem fullyTyped_of_children (h : Typing.check declared (room + 1) e = .ok (.known t))
    (hc : ∀ c ∈ e.children, FullyTyped declared room c) : FullyTyped declared (room + 1) e := by
  intro rest part hp hd
  cases hp with
  | whole => cases h.symm.trans hd
  | inside hmem hp => exact hc _ hmem rest part hp hd

theorem Excused.lift {err : EvalError} (hc : c ∈ e.children)
    (h : Excused declared b room c err) : Excused declared b (room + 1) e err := by
  cases h with
  | domain hd => exact .domain hd
  | foreignKey hp hk hv hw => exact .foreignKey (.inside hc hp) hk hv hw

/-- The one accepted operation on known types that has no overload. -/
theorem ForeignKey.overload {rest : Nat} {key container : Expr} {v w : Value}
    (hb : b.BindMaps declared) (h : ForeignKey declared rest key container k)
    (hv : Eval.eval b rest key = .ok v) (hw : Eval.eval b rest container = .ok w) :
    Eval.eval b (rest + 1) (.binary .isIn key container) =
      .error (.noSuchOverload "in" [k, .map]) := by
  have hkey := (StaticType.admits_known _ _).mp (check_covers hb h.key_type hv)
  have hmap := (StaticType.admits_known _ _).mp (check_covers hb h.container_type hw)
  have hf := Eval.binary_follows .isIn v w
  rw [← hkey, ← hmap,
    Typing.misplacedKey_result (by simp [Typing.misplacedKey, h.key_ne])] at hf
  rw [Eval.eval, if_neg (by simp), hv, hw]
  exact hf

/-- What the checker knows of an operand is the type of its value. -/
theorem type_of_known {s : StaticType} {v : Value} (hb : b.BindMaps declared)
    (ht : FullyTyped declared room e) (hs : Typing.check declared room e = .ok s)
    (hv : Eval.eval b room e = .ok v) : s = .known v.type := by
  obtain ⟨k, rfl⟩ := ht.known hs
  rw [(StaticType.admits_known _ _).mp (check_covers hb hs hv)]

/-- An accepted operator on operands of known types gives what is known, foreign keys apart. -/
theorem typed_binary {op : BinaryOp} {v w : Value} (hop : ¬(op = .and ∨ op = .or))
    (h : Typing.binary? op (.known v.type) (.known w.type) = some (.known t)) :
    Eval.Gives EvalError.IsDomain t (Eval.binary op v w) ∨
      op = .isIn ∧ v.type ≠ .string ∧ w.type = .map ∧
        Eval.binary op v w = .error (.noSuchOverload "in" [v.type, .map]) := by
  have hf := Eval.binary_follows op v w
  rcases Typing.binary?_known hop h with hm | ⟨u, hu, ht⟩
  · rw [Typing.misplacedKey_result hm] at hf
    obtain ⟨⟨rfl, hw⟩, hne⟩ : (op = .isIn ∧ w.type = .map) ∧ v.type ≠ .string := by
      simpa [Typing.misplacedKey] using hm
    rw [hw] at hf
    exact .inr ⟨rfl, hne, hw, hf⟩
  · cases ht
    rw [hu] at hf
    exact .inl hf

theorem typed_call {function : String} {s : Option StaticType} {ts : List StaticType}
    {x : Option Value} {vs : List Value} (h : Typing.call function s ts = .ok (.known t))
    (htarget : Option.Rel (fun s v => s = StaticType.known v.type) s x)
    (harguments : List.Forall₂ (fun s v => s = StaticType.known v.type) ts vs) :
    Eval.Gives EvalError.IsDomain t (Eval.call function x vs) := by
  obtain ⟨f, subject, hf, hs, ha, ht⟩ := Typing.call_ok h
  cases ht
  have hneedle := eq_map_of_rel (rel_head? harguments)
  have hsubject := eq_map_of_rel (rel_or_head? htarget harguments)
  rw [hs] at hsubject
  obtain ⟨v, hv, rfl⟩ := Option.map_eq_some_iff.mp hsubject.symm
  have hn : ts.head? = (vs.head?.map Value.type).map StaticType.known := by
    rw [hneedle, Option.map_map]
    rfl
  rw [hn] at ha
  have hfollows := Eval.call_follows hf hv
  rw [Typing.result?_of_accepts ha] at hfollows
  exact hfollows

theorem eval_call_gives {function : String} {target : Option Expr} {arguments : List Expr}
    (hb : b.BindMaps declared)
    (hc : Typing.check declared (room + 1) (.call function target arguments) = .ok (.known t))
    (ht : FullyTyped declared (room + 1) (.call function target arguments))
    (failing : ∀ c ∈ (Expr.call function target arguments).children, ∀ err,
      Eval.eval b room c = .error err →
        Excused declared b (room + 1) (.call function target arguments) err) :
    Eval.Gives (Excused declared b (room + 1) (.call function target arguments)) t
      (Eval.eval b (room + 1) (.call function target arguments)) := by
  obtain ⟨s, ts, hs, hts, hcall⟩ := Typing.check_call hc
  rw [Eval.eval]
  cases hx : target.mapM (Eval.eval b room) with
  | error err =>
    obtain ⟨a, rfl, herr⟩ := option_mapM_error hx
    exact failing a (by simp [Expr.children]) err herr
  | ok x =>
    cases hvs : arguments.mapM (Eval.eval b room) with
    | error err =>
      obtain ⟨a, ha, herr⟩ := mapM_error hvs
      exact failing a (by simp [Expr.children, ha]) err herr
    | ok vs =>
      have known : ∀ c ∈ (Expr.call function target arguments).children, ∀ s v,
          Typing.check declared room c = .ok s → Eval.eval b room c = .ok v → s = .known v.type :=
        fun c hmem _ _ hk hv => type_of_known hb (ht.child hmem) hk hv
      refine (typed_call hcall ?_ ?_).mono fun _ hd => .domain hd
      · exact option_mapM_rel hs hx fun a ha => known a (by simp [Expr.children, ha])
      · exact mapM_forall₂ hts hvs fun a ha => known a (by simp [Expr.children, ha])

/-- Induction on the levels: errors of operands rise to the whole, and an operation on operands of
known types follows its table. -/
theorem eval_gives (hb : b.BindMaps declared)
    (hc : Typing.check declared room e = .ok (.known t)) (ht : FullyTyped declared room e) :
    Eval.Gives (Excused declared b room e) t (Eval.eval b room e) := by
  induction room generalizing e t with
  | zero => cases hc
  | succ room ih =>
    have operand : ∀ c ∈ e.children, ∀ s, Typing.check declared room c = .ok s →
        ∃ k, s = .known k ∧
          Eval.Gives (Excused declared b (room + 1) e) k (Eval.eval b room c) := by
      intro c hmem s hs
      obtain ⟨k, rfl⟩ := (ht.child hmem).known hs
      exact ⟨k, rfl, (ih hs (ht.child hmem)).mono fun _ he => he.lift hmem⟩
    have failing : ∀ c ∈ e.children, ∀ err, Eval.eval b room c = .error err →
        Excused declared b (room + 1) e err := by
      intro c hmem err herr
      obtain ⟨s, hs⟩ := Typing.check_child hc hmem
      obtain ⟨k, _, hg⟩ := operand c hmem s hs
      rw [herr] at hg
      exact hg
    cases e with
    | null | bool | int | double | string =>
      cases hc
      rfl
    | list items =>
      cases (Typing.check_list hc).1
      rw [Eval.eval]
      cases hm : items.mapM (Eval.eval b room) with
      | ok vs => rfl
      | error err =>
        obtain ⟨x, hx, herr⟩ := mapM_error hm
        exact failing x hx err herr
    | map entries =>
      cases (Typing.check_map hc).1
      rw [Eval.eval]
      cases hm : entries.mapM fun e => do
          let v ← Eval.eval b room e.2
          Except.ok (e.1, v) with
      | ok vs => rfl
      | error err =>
        obtain ⟨x, hx, herr⟩ := mapM_error hm
        rcases bind_eq_error.mp herr with herr | ⟨_, _, h⟩
        · exact failing x.2 (List.mem_map.mpr ⟨x, hx, rfl⟩) err herr
        · cases h
    | «variable» name =>
      obtain ⟨hd, h⟩ := Typing.check_variable hc
      cases h
      obtain ⟨entries, he⟩ := hb name hd
      rw [Eval.eval, he]
      rfl
    | member target field =>
      cases (Typing.check_member hc).1
    | index target position =>
      cases (Typing.check_index hc).1
    | has target field =>
      obtain ⟨h, s, hs, ha⟩ := Typing.check_has hc
      cases h
      obtain ⟨k, rfl, hg⟩ := operand target (by simp [Expr.children]) s hs
      have hk := (StaticType.admits_known _ _).mp ha
      rw [Eval.eval]
      refine hg.bind fun v _ hv => ?_
      obtain ⟨entries, rfl⟩ := Value.eq_map (hv.trans hk)
      rfl
    | unary op operand' =>
      obtain ⟨s, hs, hu⟩ := Typing.check_unary hc
      obtain ⟨k, rfl, hg⟩ := operand operand' (by simp [Expr.children]) s hs
      rw [Typing.unary?_known] at hu
      obtain ⟨u, hr, hut⟩ := Option.map_eq_some_iff.mp hu
      cases hut
      rw [Eval.eval]
      refine hg.bind fun v _ hv => ?_
      have hf := Eval.unary_follows op v
      rw [hv, hr] at hf
      exact hf.mono fun _ hd => .domain hd
    | binary op left right =>
      obtain ⟨l, r, hl, hr, hbin⟩ := Typing.check_binary hc
      obtain ⟨kl, rfl, hgl⟩ := operand left (by simp [Expr.children]) l hl
      obtain ⟨kr, rfl, hgr⟩ := operand right (by simp [Expr.children]) r hr
      rw [Eval.eval]
      split
      next hop =>
        obtain ⟨rfl, rfl, h⟩ := Typing.connective_known hop hbin
        cases h
        exact Eval.logical_gives hgl hgr
      next hop =>
        refine hgl.bind fun v hv hvt => hgr.bind fun w hw hwt => ?_
        subst hvt hwt
        rcases typed_binary hop hbin with hg | ⟨rfl, hne, hmap, herr⟩
        · exact hg.mono fun _ hd => .domain hd
        · rw [herr]
          rw [hmap] at hr
          exact .foreignKey .whole ⟨hl, hne, hr⟩ hv hw
    | conditional condition yes no =>
      obtain ⟨c, y, n, hcond, ha, hy, hn, h⟩ := Typing.check_conditional hc
      obtain ⟨k, rfl, hg⟩ := operand condition (by simp [Expr.children]) c hcond
      have hk := (StaticType.admits_known _ _).mp ha
      have hyn : y = n ∧ y = .known t := by
        split at h
        next hyn => exact ⟨hyn, h.symm⟩
        next => cases h
      obtain ⟨rfl, rfl⟩ := hyn
      obtain ⟨ky, hky, hgy⟩ := operand yes (by simp [Expr.children]) _ hy
      obtain ⟨kn, hkn, hgn⟩ := operand no (by simp [Expr.children]) _ hn
      cases hky
      cases hkn
      rw [Eval.eval]
      refine hg.bind fun v _ hv => ?_
      obtain ⟨x, rfl⟩ := Value.eq_bool (hv.trans hk)
      cases x with
      | true => exact hgy
      | false => exact hgn
    | call function target arguments => exact eval_call_gives hb hc ht failing

/-- Without foreign keys only the contents of operands can fail, and with one whose operands have
values there is a part without an overload. -/
theorem typed_program_errors {source : String} {p : Program}
    (hp : Program.compile source declared = .ok p) (hb : b.BindMaps declared)
    (ht : FullyTyped declared (maxDepth + 1) p.root) :
    (∀ err, p.evaluate b = .error err → Excused declared b (maxDepth + 1) p.root err) ∧
    ((∀ rest key container k,
        Expr.Part (maxDepth + 1) p.root (rest + 1) (.binary .isIn key container) →
          ¬ForeignKey declared rest key container k) →
      (∃ v, p.evaluate b = .ok v) ∨ ∃ err, p.evaluate b = .error err ∧ err.IsDomain) ∧
    ((∃ rest part operation operands, Expr.Part (maxDepth + 1) p.root rest part ∧
        Eval.eval b rest part = .error (.noSuchOverload operation operands)) ↔
      ∃ rest key container k v w,
        Expr.Part (maxDepth + 1) p.root (rest + 1) (.binary .isIn key container) ∧
          ForeignKey declared rest key container k ∧ Eval.eval b rest key = .ok v ∧
          Eval.eval b rest container = .ok w) := by
  obtain ⟨s, hs, _⟩ := Program.compile_eq_ok hp
  have excused : ∀ rest part err, Expr.Part (maxDepth + 1) p.root rest part →
      Eval.eval b rest part = .error err → Excused declared b rest part err := by
    intro rest part err hpart herr
    obtain ⟨u, hu⟩ := Typing.check_part hs hpart
    obtain ⟨k, rfl⟩ := (ht.part hpart).known hu
    have hg := eval_gives hb hu (ht.part hpart)
    rw [herr] at hg
    exact hg
  have whole : ∀ err, p.evaluate b = .error err →
      Excused declared b (maxDepth + 1) p.root err :=
    fun err herr => excused _ _ err .whole herr
  refine ⟨whole, fun hno => ?_, ?_, ?_⟩
  · cases he : p.evaluate b with
    | ok v => exact .inl ⟨v, rfl⟩
    | error err =>
      refine .inr ⟨err, rfl, ?_⟩
      cases whole err he with
      | domain hd => exact hd
      | foreignKey hpart hk _ _ => exact absurd hk (hno _ _ _ _ hpart)
  · rintro ⟨rest, part, operation, operands, hpart, herr⟩
    cases excused rest part _ hpart herr with
    | domain hd => cases hd
    | foreignKey hin hk hv hw => exact ⟨_, _, _, _, _, _, hpart.trans hin, hk, hv, hw⟩
  · rintro ⟨rest, key, container, k, v, w, hpart, hk, hv, hw⟩
    exact ⟨rest + 1, _, _, _, hpart, hk.overload hb hv hw⟩

/-- A division by zero, in which the size of a variable is an integer. -/
theorem typed_quotient_errors :
    ∃ p, Program.compile "size(A) / 0" ["A"] = .ok p ∧
      FullyTyped ["A"] (maxDepth + 1) p.root ∧
      p.evaluate ⟨[("A", .map [])]⟩ = .error .divisionByZero ∧
      Excused ["A"] ⟨[("A", .map [])]⟩ (maxDepth + 1) p.root .divisionByZero := by
  have hp : Program.compile "size(A) / 0" ["A"] =
      .ok ⟨"size(A) / 0", ["A"], .binary .divide (.call "size" none [.variable "A"]) (.int 0)⟩ := by
    cbv
  have hb : Bindings.BindMaps ⟨[("A", .map [])]⟩ ["A"] := by
    intro name hname
    rw [List.mem_singleton.mp hname]
    exact ⟨[], rfl⟩
  have ht : FullyTyped ["A"] (maxDepth + 1)
      (.binary .divide (.call "size" none [.variable "A"]) (.int 0)) := by
    have hA : FullyTyped ["A"] 127 (.variable "A") :=
      fullyTyped_of_children (t := .map) rfl (by simp [Expr.children])
    have hsize : FullyTyped ["A"] 128 (.call "size" none [.variable "A"]) :=
      fullyTyped_of_children (t := .int) rfl (List.forall_mem_singleton.mpr hA)
    have hzero : FullyTyped ["A"] 128 (.int 0) :=
      fullyTyped_of_children (t := .int) rfl (by simp [Expr.children])
    exact fullyTyped_of_children (t := .int) rfl
      (List.forall_mem_cons.mpr ⟨hsize, List.forall_mem_singleton.mpr hzero⟩)
  have he : Eval.eval ⟨[("A", .map [])]⟩ (maxDepth + 1)
      (.binary .divide (.call "size" none [.variable "A"]) (.int 0)) = .error .divisionByZero := by
    rfl
  exact ⟨_, hp, ht, he, (typed_program_errors hp hb ht).1 _ he⟩

/-- A number among the keys of a map: accepted, of known types, and without an overload. -/
theorem typed_program_without_overload :
    ∃ p, Program.compile "1 in \x7b\"a\": 1\x7d" [] = .ok p ∧
      FullyTyped [] (maxDepth + 1) p.root ∧
      p.evaluate ⟨[]⟩ = .error (.noSuchOverload "in" [.int, .map]) := by
  have hint : ∀ room, FullyTyped [] (room + 1) (.int 1) :=
    fun room => fullyTyped_of_children (t := .int) rfl (by simp [Expr.children])
  have hmap : FullyTyped [] 128 (.map [("a", .int 1)]) :=
    fullyTyped_of_children (t := .map) rfl (List.forall_mem_singleton.mpr (hint 126))
  have ht : FullyTyped [] (maxDepth + 1) (.binary .isIn (.int 1) (.map [("a", .int 1)])) :=
    fullyTyped_of_children (t := .bool) rfl
      (List.forall_mem_cons.mpr ⟨hint 127, List.forall_mem_singleton.mpr hmap⟩)
  exact ⟨⟨_, [], .binary .isIn (.int 1) (.map [("a", .int 1)])⟩, by cbv, ht, rfl⟩

end

end EventStream
