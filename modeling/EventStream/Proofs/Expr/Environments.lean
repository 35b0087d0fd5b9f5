import EventStream.Proofs.Expr.Operations
import EventStream.Proofs.Expr.Parts

namespace EventStream

namespace Bindings

/-- Names and values, one inserted after another. -/
def ofInserted (inserted : List (String × Value)) : Bindings :=
  inserted.foldl (fun b e => b.insert e.1 e.2) empty

/-- The value that came last under a name. -/
def lastInserted (inserted : List (String × Value)) (name : String) : Option Value :=
  lookup? inserted.reverse name

theorem get?_insert (b : Bindings) (name other : String) (v : Value) :
    (b.insert name v).get? other = if name = other then some v else b.get? other :=
  lookup?_setEntry b.entries name other v

theorem get?_ofInserted (inserted : List (String × Value)) (name : String) :
    (ofInserted inserted).get? name = lastInserted inserted name := by
  induction inserted using List.reverseRecOn with
  | nil => rfl
  | append_singleton inserted e ih =>
    have hlast : ofInserted (inserted ++ [e]) = (ofInserted inserted).insert e.1 e.2 :=
      List.foldl_concat _ _ _ _
    rw [hlast, get?_insert, ih, lastInserted, lastInserted, List.reverse_concat]
    rfl

end Bindings

/-- Errors that do not lie in values: a variable has none, or there are too many levels. -/
def EvalError.IsLack : EvalError → Prop
  | .missingBinding _ | .tooDeep => True
  | _ => False

namespace Eval

/-- Nothing is lacking for a computation. -/
def Supplied {α : Type} (x : Except EvalError α) : Prop :=
  ∀ err, x = .error err → ¬err.IsLack

section
variable {α β : Type} {x : Except EvalError α}

theorem supplied_ok (a : α) : Supplied (.ok a) := by
  intro err h
  cases h

theorem supplied_error {err : EvalError} (h : ¬err.IsLack) :
    Supplied (.error err : Except EvalError α) := by
  rintro _ ⟨rfl⟩
  exact h

theorem Supplied.bind {f : α → Except EvalError β} (h : Supplied x) (hf : ∀ a, Supplied (f a)) :
    Supplied (x >>= f) := by
  intro err he
  rcases bind_eq_error.mp he with he | ⟨a, _, he⟩
  · exact h err he
  · exact hf a err he

theorem supplied_mapM {f : α → Except EvalError β} {xs : List α}
    (h : ∀ x ∈ xs, Supplied (f x)) : Supplied (xs.mapM f) := by
  intro err he
  obtain ⟨x, hx, he⟩ := mapM_error he
  exact h x hx err he

theorem supplied_option_mapM {f : α → Except EvalError β} {x : Option α}
    (h : ∀ a, x = some a → Supplied (f a)) : Supplied (x.mapM f) := by
  intro err he
  obtain ⟨a, ha, he⟩ := option_mapM_error he
  exact h a ha err he

end

theorem supplied_overload (operation : String) (operands : List ValueType) :
    Supplied (overload operation operands) :=
  supplied_error id

theorem Follows.supplied {listed : Option ValueType} {operation : String}
    {operands : List ValueType} {o : Outcome} (h : Follows listed operation operands o) :
    Supplied o := by
  intro err he
  subst he
  cases listed with
  | none => cases h; exact id
  | some t => cases err <;> first | exact id | cases h

theorem supplied_select (target : Value) (field operation : String) (operands : List ValueType) :
    Supplied (select target field operation operands) := by
  unfold select
  split
  · split
    · exact supplied_ok _
    · exact supplied_error id
  · exact supplied_overload _ _

theorem supplied_has (target : Value) (field : String) : Supplied (has target field) := by
  unfold has
  split
  · exact supplied_ok _
  · exact supplied_overload _ _

theorem supplied_index (target position : Value) : Supplied (index target position) := by
  unfold index
  split
  · unfold element
    split
    · exact supplied_error id
    · split
      · exact supplied_ok _
      · exact supplied_error id
  · exact supplied_select _ _ _ _
  · exact supplied_overload _ _

theorem supplied_call (function : String) (target : Option Value) (arguments : List Value) :
    Supplied (call function target arguments) := by
  cases hs : target.or arguments.head? with
  | none =>
    unfold call
    rw [hs]
    exact supplied_overload _ _
  | some subject =>
    cases hf : Builtin.ofName? function with
    | none =>
      unfold call
      rw [hs, hf]
      exact supplied_overload _ _
    | some f => exact (call_follows hf hs).supplied

theorem supplied_truth {op : BinaryOp} {o : Outcome} (h : Supplied o) : Supplied (truth op o) := by
  unfold truth
  split
  · exact supplied_ok _
  · exact supplied_error id
  next e => exact fun _ he => h _ (by cases he; rfl)

theorem supplied_logical {op : BinaryOp} {left : Outcome} {right : Unit → Outcome}
    (hl : Supplied left) (hr : Supplied (right ())) : Supplied (logical op left right) := by
  have htl : Supplied (truth op left) := supplied_truth hl
  have htr : Supplied (truth op (right ())) := supplied_truth hr
  dsimp only [logical]
  split
  · split
    · exact supplied_ok _
    · split
      · exact supplied_ok _
      next e he => exact supplied_error (htr e he)
  next e he =>
    split
    · split
      · exact supplied_ok _
      · exact supplied_error (htl e he)
    · exact supplied_error (htl e he)

section
variable {declared : List String} {b c : Bindings} {room : Nat} {e : Expr} {t : StaticType}

/-- The levels of checking are those of evaluation. -/
theorem eval_supplied (hc : Typing.check declared room e = .ok t)
    (hb : ∀ name ∈ declared, ∃ v, b.get? name = some v) : Supplied (eval b room e) := by
  induction room generalizing e t with
  | zero => cases hc
  | succ room ih =>
    have inner : ∀ c ∈ e.children, Supplied (eval b room c) := by
      intro c hmem
      obtain ⟨s, hs⟩ := Typing.check_child hc hmem
      exact ih hs
    cases e with
    | null | bool | int | double | string => exact supplied_ok _
    | list items => exact (supplied_mapM inner).bind fun _ => supplied_ok _
    | map entries =>
      refine Supplied.bind (supplied_mapM fun entry he => ?_) fun _ => supplied_ok _
      exact (inner entry.2 (List.mem_map_of_mem he)).bind fun _ => supplied_ok _
    | «variable» name =>
      obtain ⟨v, hv⟩ := hb name (Typing.check_variable hc).1
      rw [eval, hv]
      exact supplied_ok _
    | member target field =>
      exact (inner target (by simp [Expr.children])).bind fun _ => supplied_select _ _ _ _
    | has target field =>
      exact (inner target (by simp [Expr.children])).bind fun _ => supplied_has _ _
    | index target position =>
      exact (inner target (by simp [Expr.children])).bind fun _ =>
        (inner position (by simp [Expr.children])).bind fun _ => supplied_index _ _
    | call function target arguments =>
      refine (supplied_option_mapM fun a ha => ?_).bind fun _ =>
        (supplied_mapM fun a ha => ?_).bind fun _ => supplied_call _ _ _
      · exact inner a (by simp [Expr.children, ha])
      · exact inner a (by simp [Expr.children, ha])
    | unary op operand =>
      exact (inner operand (by simp [Expr.children])).bind fun v => (unary_follows op v).supplied
    | binary op left right =>
      have hl := inner left (by simp [Expr.children])
      have hr := inner right (by simp [Expr.children])
      rw [eval]
      split
      · exact supplied_logical hl hr
      · exact hl.bind fun v => hr.bind fun w => (binary_follows op v w).supplied
    | conditional condition yes no =>
      refine (inner condition (by simp [Expr.children])).bind fun v => ?_
      split
      · exact inner yes (by simp [Expr.children])
      · exact inner no (by simp [Expr.children])
      · exact supplied_overload _ _

/-- An outcome is made of those of the expressions right below, whatever bindings and levels gave
them. -/
theorem eval_eq_of_children {rest : Nat}
    (hv : ∀ name, e = .variable name → b.get? name = c.get? name)
    (inner : ∀ d ∈ e.children, eval b room d = eval c rest d) :
    eval b (room + 1) e = eval c (rest + 1) e := by
  cases e with
  | null | bool | int | double | string => rfl
  | list items =>
    have h : items.mapM (eval b room) = items.mapM (eval c rest) := mapM_congr inner
    rw [eval, eval, h]
  | map entries =>
    rw [eval, eval, mapM_congr fun entry he => ?_]
    rw [inner entry.2 (List.mem_map_of_mem he)]
  | «variable» name =>
    rw [eval, eval, hv name rfl]
  | member target field | has target field =>
    rw [eval, eval, inner target (by simp [Expr.children])]
  | index target position =>
    rw [eval, eval, inner target (by simp [Expr.children]), inner position (by simp [Expr.children])]
  | call function target arguments =>
    rw [eval, eval, mapM_congr fun a ha => inner a (by simp [Expr.children, ha]),
      option_mapM_congr fun a ha => inner a (by simp [Expr.children, ha])]
  | unary op operand =>
    rw [eval, eval, inner operand (by simp [Expr.children])]
  | binary op left right =>
    rw [eval, eval, inner left (by simp [Expr.children]), inner right (by simp [Expr.children])]
  | conditional condition yes no =>
    rw [eval, eval, inner condition (by simp [Expr.children]), inner yes (by simp [Expr.children]),
      inner no (by simp [Expr.children])]

/-- Bindings under which the declared variables have the same values. -/
theorem eval_congr (hc : Typing.check declared room e = .ok t)
    (hb : ∀ name ∈ declared, b.get? name = c.get? name) : eval b room e = eval c room e := by
  induction room generalizing e t with
  | zero => rfl
  | succ room ih =>
    refine eval_eq_of_children ?_ fun d hmem => ?_
    · rintro name rfl
      exact hb name (Typing.check_variable hc).1
    · obtain ⟨s, hs⟩ := Typing.check_child hc hmem
      exact ih hs

theorem eval_of_get?_eq (h : ∀ name, b.get? name = c.get? name) (room : Nat) :
    eval b room = eval c room := by
  induction room with
  | zero => rfl
  | succ room ih =>
    funext e
    exact eval_eq_of_children (fun name _ => h name) fun d _ => congrFun ih d

end

end Eval

/-- The order of the variables, and that one is declared twice, do not matter to the checker. -/
theorem Typing.check_of_mem_iff {declared other : List String}
    (h : ∀ name, name ∈ declared ↔ name ∈ other) (room : Nat) :
    check declared room = check other room := by
  induction room with
  | zero =>
    funext e
    rw [check, check]
  | succ room ih =>
    funext e
    cases e with
    | «variable» name =>
      have hc : declared.contains name = other.contains name := by
        rw [Bool.eq_iff_iff, List.contains_iff_mem, List.contains_iff_mem, h]
      rw [check, check, hc]
    | null | bool | int | double | string => rw [check, check]
    | list | map | member | has | index | call | unary | binary | conditional =>
      rw [check, check, ih]

theorem Program.compile_of_mem_iff {source : String} {declared other : List String} {p : Program}
    (h : ∀ name, name ∈ declared ↔ name ∈ other) (hp : compile source declared = .ok p) :
    compile source other = .ok { p with declared := other } := by
  have hd := isIdentifier_of_compile hp
  obtain ⟨t, ht, hr, rfl, _⟩ := compile_eq_ok hp
  have ho : p.root.check other = .ok t := by
    rw [← ht, Expr.check, Expr.check, Typing.check_of_mem_iff h]
  exact compile_of_parse (fun v hv => hd v ((h v).mpr hv)) hr ho

/-- Under two histories of insertions that leave the declared variables with the same values, a
compiled program has the same outcome, and neither it nor any of its parts, each of which lies
within the levels, fails for want of a value or of levels. -/
theorem evaluate_reads_declared {source : String} {declared : List String} {p : Program}
    {first second : List (String × Value)} (hp : Program.compile source declared = .ok p)
    (hb : ∀ name ∈ declared, ∃ v, Bindings.lastInserted first name = some v ∧
      Bindings.lastInserted second name = some v) :
    p.evaluate (.ofInserted first) = p.evaluate (.ofInserted second) ∧
    (∀ name, p.evaluate (.ofInserted first) ≠ .error (.missingBinding name)) ∧
    p.evaluate (.ofInserted first) ≠ .error .tooDeep ∧
    ∀ room e, Expr.Part (maxDepth + 1) p.root room e →
      0 < room ∧ (∀ name, Eval.eval (.ofInserted first) room e ≠ .error (.missingBinding name)) ∧
        Eval.eval (.ofInserted first) room e ≠ .error .tooDeep := by
  obtain ⟨t, ht, _⟩ := Program.compile_eq_ok hp
  have bound : ∀ name ∈ declared, ∃ v, (Bindings.ofInserted first).get? name = some v := by
    intro name hname
    obtain ⟨v, hv, _⟩ := hb name hname
    exact ⟨v, (Bindings.get?_ofInserted first name).trans hv⟩
  have agree : ∀ name ∈ declared,
      (Bindings.ofInserted first).get? name = (Bindings.ofInserted second).get? name := by
    intro name hname
    obtain ⟨v, hf, hs⟩ := hb name hname
    rw [Bindings.get?_ofInserted, Bindings.get?_ofInserted, hf, hs]
  have supplied := Eval.eval_supplied ht bound
  refine ⟨Eval.eval_congr ht agree, fun name he => supplied _ he trivial,
    fun he => supplied _ he trivial, fun room e hpart => ?_⟩
  obtain ⟨s, hs⟩ := Typing.check_part ht hpart
  have part := Eval.eval_supplied hs bound
  refine ⟨?_, fun name he => part _ he trivial, fun he => part _ he trivial⟩
  cases room with
  | zero => cases hs
  | succ room => exact Nat.succ_pos room

/-- A value inserted twice, another order, and a name that is not declared. -/
theorem evaluate_reads_declared_twice :
    let one : List (String × Value) := [("A", .null), ("B", .map []), ("A", .map [])]
    let other : List (String × Value) := [("A", .map []), ("C", .null), ("B", .map [])]
    ∃ p, Program.compile "A == B && has(A.x)" ["A", "B"] = .ok p ∧
      p.evaluate (.ofInserted one) = .ok (.bool false) ∧
      p.evaluate (.ofInserted one) = p.evaluate (.ofInserted other) := by
  intro one other
  have hp : Program.compile "A == B && has(A.x)" ["A", "B"] =
      .ok ⟨"A == B && has(A.x)", ["A", "B"], .binary .and
        (.binary .equal (.variable "A") (.variable "B")) (.has (.variable "A") "x")⟩ := by
    cbv
  have hb : ∀ name ∈ ["A", "B"], ∃ v, Bindings.lastInserted one name = some v ∧
      Bindings.lastInserted other name = some v := by
    intro name hname
    rcases List.mem_cons.mp hname with rfl | hname
    · exact ⟨.map [], rfl, rfl⟩
    · rw [List.mem_singleton.mp hname]
      exact ⟨.map [], rfl, rfl⟩
  exact ⟨_, hp, rfl, (evaluate_reads_declared hp hb).1⟩

end EventStream
