import EventStream.Proofs.Expr.Environments

namespace EventStream

/-- The connective that the value `d` of an operand decides. -/
def connective (d : Bool) : BinaryOp :=
  if d then .or else .and

/-- What a connective comes to: its deciding value with either operand, the other value with both,
and nothing otherwise. -/
def kleene (d : Bool) (x y : Option Bool) : Option Bool :=
  if x = some d ∨ y = some d then some d
  else if x = none ∨ y = none then none
  else some !d

section
variable {d : Bool} {x y z : Option Bool}

theorem kleene_eq_some : kleene d x y = some d ↔ x = some d ∨ y = some d := by
  revert d x y
  decide

theorem kleene_eq_some_not : kleene d x y = some (!d) ↔ x = some (!d) ∧ y = some (!d) := by
  revert d x y
  decide

theorem kleene_comm : kleene d x y = kleene d y x := by
  revert d x y
  decide

theorem kleene_assoc : kleene d (kleene d x y) z = kleene d x (kleene d y z) := by
  revert d x y z
  decide

theorem map_not_kleene : (kleene d x y).map not = kleene (!d) (x.map not) (y.map not) := by
  revert d x y
  decide

end

namespace Eval

/-- The truth value of an outcome, if it is one. -/
def truthValue : Outcome → Option Bool
  | .ok (.bool t) => some t
  | _ => none

/-- Why an operand of a connective has no truth value. -/
def flaw? (op : BinaryOp) : Outcome → Option EvalError
  | .ok (.bool _) => none
  | .ok v => some (.noSuchOverload op.symbol [v.type])
  | .error e => some e

/-- An outcome that is a truth value or an error. -/
def IsTruth (o : Outcome) : Prop :=
  ∀ v, o = .ok v → ∃ t, v = .bool t

section
variable {op : BinaryOp} {d t : Bool} {o p : Outcome} {e : EvalError}

theorem truthValue_eq_some : truthValue o = some t ↔ o = .ok (.bool t) := by
  constructor
  · intro h
    unfold truthValue at h
    split at h
    · rw [Option.some.inj h]
    · cases h
  · rintro rfl
    rfl

/-- Outcomes that agree but for which error they have. -/
theorem toOption_eq_of_truthValue (ho : IsTruth o) (hp : IsTruth p)
    (h : truthValue o = truthValue p) : o.toOption = p.toOption := by
  cases o with
  | ok v =>
    obtain ⟨t, rfl⟩ := ho v rfl
    rw [truthValue_eq_some.mp h.symm]
  | error e =>
    cases p with
    | ok v =>
      obtain ⟨t, rfl⟩ := hp v rfl
      cases h
    | error _ => rfl

/-- An operand with a truth value, or the reason why it has none. -/
theorem truth_cases (op : BinaryOp) (o : Outcome) :
    (∃ t, truth op o = .ok t ∧ truthValue o = some t ∧ flaw? op o = none) ∨
      ∃ e, truth op o = .error e ∧ truthValue o = none ∧ flaw? op o = some e := by
  rcases o with e | v
  · exact .inr ⟨e, rfl, rfl, rfl⟩
  · cases v with
    | bool t => exact .inl ⟨t, rfl, rfl, rfl⟩
    | _ => exact .inr ⟨_, rfl, rfl, rfl⟩

theorem connective_eq_or (d : Bool) : decide (connective d = .or) = d := by
  cases d <;> rfl

/-- A connective computes from the truth values of its operands, also where it does without the
second one. -/
theorem truthValue_logical : truthValue (logical (connective d) o fun _ => p) =
    kleene d (truthValue o) (truthValue p) := by
  unfold logical
  rw [connective_eq_or]
  obtain ⟨s, ho, hx, _⟩ | ⟨f, ho, hx, _⟩ := truth_cases (connective d) o <;>
    obtain ⟨t, hp, hy, _⟩ | ⟨g, hp, hy, _⟩ := truth_cases (connective d) p <;>
    rw [ho, hp, hx, hy]
  · cases d <;> cases s <;> cases t <;> rfl
  · cases d <;> cases s <;> rfl
  · cases d <;> cases t <;> rfl
  · rfl

theorem logical_eq_error : logical (connective d) o (fun _ => p) = .error e ↔
    truthValue o ≠ some d ∧ truthValue p ≠ some d ∧
      (flaw? (connective d) o).or (flaw? (connective d) p) = some e := by
  unfold logical
  rw [connective_eq_or]
  obtain ⟨s, ho, hx, hf⟩ | ⟨f, ho, hx, hf⟩ := truth_cases (connective d) o <;>
    obtain ⟨t, hp, hy, hg⟩ | ⟨g, hp, hy, hg⟩ := truth_cases (connective d) p <;>
    rw [ho, hp, hx, hy, hf, hg]
  · cases d <;> cases s <;> cases t <;> simp
  · cases d <;> cases s <;> simp
  · cases d <;> cases t <;> simp
  · simp

section
variable {b : Bindings} {d : Bool} {room : Nat} {l r e : Expr}

theorem eval_connective : eval b (room + 1) (.binary (connective d) l r) =
    logical (connective d) (eval b room l) fun _ => eval b room r := by
  rw [eval]
  cases d <;> rfl

theorem isTruth_connective : IsTruth (eval b room (.binary (connective d) l r)) := by
  intro v hv
  cases room with
  | zero => cases hv
  | succ room =>
    rw [eval_connective] at hv
    exact Value.eq_bool (logical_type hv)

theorem truthValue_connective : truthValue (eval b (room + 1) (.binary (connective d) l r)) =
    kleene d (truthValue (eval b room l)) (truthValue (eval b room r)) := by
  rw [eval_connective, truthValue_logical]

theorem isTruth_not : IsTruth (eval b room (.unary .not e)) := by
  intro v hv
  cases room with
  | zero => cases hv
  | succ room =>
    obtain ⟨w, _, hw⟩ := bind_eq_ok.mp hv
    cases w with
    | bool t => exact ⟨!t, (Except.ok.inj hw).symm⟩
    | _ => cases hw

theorem truthValue_not : truthValue (eval b (room + 1) (.unary .not e)) =
    (truthValue (eval b room e)).map not := by
  rw [eval]
  rcases eval b room e with _ | v
  · rfl
  · cases v <;> rfl

end

end

end Eval

/-- An expression that evaluation can go through, however it goes: every part of it lies within the
levels. -/
def Expr.Fits (room : Nat) (e : Expr) : Prop :=
  ∀ rest part, Expr.Part room e rest part → 0 < rest

theorem Expr.fits_succ {room : Nat} {e : Expr} :
    e.Fits (room + 1) ↔ ∀ c ∈ e.children, c.Fits room := by
  constructor
  · exact fun h c hc rest part hp => h rest part (.inside hc hp)
  · intro h rest part hp
    cases hp with
    | whole => exact Nat.succ_pos room
    | inside hc hp => exact h _ hc rest part hp

theorem Expr.fits_binary {room : Nat} {op : BinaryOp} {l r : Expr} :
    (Expr.binary op l r).Fits (room + 1) ↔ l.Fits room ∧ r.Fits room := by
  simp only [fits_succ, children, List.forall_mem_cons, List.not_mem_nil, false_imp_iff,
    implies_true, and_true]

theorem Expr.fits_of_children_eq_nil {room : Nat} {e : Expr} (h : e.children = []) :
    e.Fits (room + 1) := by
  rw [fits_succ, h]
  exact fun _ hc => nomatch hc

/-- More levels than an expression has make no difference. -/
theorem Eval.eval_of_fits {b : Bindings} {room rest : Nat} {e : Expr} (h : e.Fits room)
    (hle : room ≤ rest) : eval b rest e = eval b room e := by
  induction room generalizing rest e with
  | zero => exact absurd (h 0 e .whole) (Nat.lt_irrefl 0)
  | succ room ih =>
    obtain ⟨rest, rfl⟩ := Nat.exists_eq_succ_of_ne_zero (show rest ≠ 0 by omega)
    exact Eval.eval_eq_of_children (fun _ _ => rfl) fun c hc =>
      ih (Expr.fits_succ.mp h c hc) (Nat.le_of_succ_le_succ hle)

/-- At every level a connective has its deciding value as soon as one operand has it, the other
truth value when both have that, and otherwise the error of the first operand without a truth value.
So its operands can be swapped and regrouped, and negation goes over to them with the other
connective, up to which error there is; operands that are regrouped change their levels. -/
theorem connectives_strong_kleene (b : Bindings) (d : Bool) (l r s : Expr) (room : Nat) :
    let value := Eval.eval b
    let joined (d : Bool) := Expr.binary (connective d)
    (value (room + 1) (joined d l r) = .ok (.bool d) ↔
      value room l = .ok (.bool d) ∨ value room r = .ok (.bool d)) ∧
    (value (room + 1) (joined d l r) = .ok (.bool !d) ↔
      value room l = .ok (.bool !d) ∧ value room r = .ok (.bool !d)) ∧
    (∀ v, value (room + 1) (joined d l r) = .ok v → v = .bool d ∨ v = .bool !d) ∧
    (∀ e, value (room + 1) (joined d l r) = .error e ↔
      value room l ≠ .ok (.bool d) ∧ value room r ≠ .ok (.bool d) ∧
        (Eval.flaw? (connective d) (value room l)).or (Eval.flaw? (connective d) (value room r)) =
          some e) ∧
    (value (room + 1) (joined d l r)).toOption = (value (room + 1) (joined d r l)).toOption ∧
    ((joined d (joined d l r) s).Fits (room + 2) → (joined d l (joined d r s)).Fits (room + 2) →
      (value (room + 2) (joined d (joined d l r) s)).toOption =
        (value (room + 2) (joined d l (joined d r s))).toOption) ∧
    (value (room + 2) (.unary .not (joined d l r))).toOption =
      (value (room + 2) (joined (!d) (.unary .not l) (.unary .not r))).toOption := by
  intro value joined
  have htable {room : Nat} {d : Bool} {l r : Expr} :
      Eval.truthValue (value (room + 1) (joined d l r)) =
        kleene d (Eval.truthValue (value room l)) (Eval.truthValue (value room r)) :=
    Eval.truthValue_connective
  have htruth {room : Nat} {d : Bool} {l r : Expr} : Eval.IsTruth (value room (joined d l r)) :=
    Eval.isTruth_connective
  refine ⟨?_, ?_, fun v hv => ?_, ?_, ?_, fun hleft hright => ?_, ?_⟩
  · rw [← Eval.truthValue_eq_some, htable, kleene_eq_some, Eval.truthValue_eq_some,
      Eval.truthValue_eq_some]
  · rw [← Eval.truthValue_eq_some, htable, kleene_eq_some_not, Eval.truthValue_eq_some,
      Eval.truthValue_eq_some]
  · obtain ⟨t, rfl⟩ := htruth v hv
    cases t <;> cases d <;> simp
  · intro e
    rw [Ne, Ne, ← Eval.truthValue_eq_some, ← Eval.truthValue_eq_some, ← Eval.logical_eq_error,
      ← Eval.eval_connective]
  · refine Eval.toOption_eq_of_truthValue htruth htruth ?_
    rw [htable, htable, kleene_comm]
  · -- `l` and `s` change their levels, `r` keeps its own
    have hl : value (room + 1) l = value room l :=
      Eval.eval_of_fits (Expr.fits_binary.mp (Expr.fits_binary.mp hleft).1).1 (Nat.le_succ room)
    have hs : value (room + 1) s = value room s :=
      Eval.eval_of_fits (Expr.fits_binary.mp (Expr.fits_binary.mp hright).2).2 (Nat.le_succ room)
    refine Eval.toOption_eq_of_truthValue htruth htruth ?_
    rw [htable, htable, htable, htable, hl, hs, kleene_assoc]
  · refine Eval.toOption_eq_of_truthValue Eval.isTruth_not htruth ?_
    rw [Eval.truthValue_not, htable, map_not_kleene, htable, Eval.truthValue_not,
      Eval.truthValue_not]

/-- An operand that fails and one that is no truth value, before the one that decides. -/
theorem connectives_strong_kleene_of_false_last :
    let both := Expr.binary .and
    let l := Expr.binary .divide (.int 1) (.int 0)
    let r := Expr.string "x"
    let s := Expr.bool false
    (both (both l r) s).Fits (maxDepth + 1) ∧ (both l (both r s)).Fits (maxDepth + 1) ∧
      (both l r).eval .empty = .error .divisionByZero ∧
      ((both (both l r) s).eval .empty).toOption = ((both l (both r s)).eval .empty).toOption ∧
      (both l (both r s)).eval .empty = .ok (.bool false) := by
  intro both l r s
  have leaf {e : Expr} (h : e.children = []) {room : Nat} : e.Fits (room + 1) :=
    Expr.fits_of_children_eq_nil h
  have hl {room : Nat} : l.Fits (room + 2) := Expr.fits_binary.mpr ⟨leaf rfl, leaf rfl⟩
  have hleft : (both (both l r) s).Fits (127 + 2) :=
    Expr.fits_binary.mpr ⟨Expr.fits_binary.mpr ⟨@hl 125, leaf rfl⟩, leaf rfl⟩
  have hright : (both l (both r s)).Fits (127 + 2) :=
    Expr.fits_binary.mpr ⟨@hl 126, Expr.fits_binary.mpr ⟨leaf rfl, leaf rfl⟩⟩
  have h := connectives_strong_kleene .empty false l r s 127
  exact ⟨hleft, hright, rfl, h.2.2.2.2.2.1 hleft hright, rfl⟩

end EventStream
