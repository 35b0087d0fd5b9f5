import EventStream.Proofs.Expr.Connectives
import EventStream.Proofs.Expr.Ownership

namespace EventStream

/-- The ways to a field: two that ask for it and two that read it. -/
inductive FieldWay where
  | has
  | isIn
  | member
  | index

namespace FieldWay

/-- The expression that goes this way to a field of an operand. -/
def of (f : String) (e : Expr) : FieldWay → Expr
  | .has => .has e f
  | .isIn => .binary .isIn (.string f) e
  | .member => .member e f
  | .index => .index e (.string f)

def read (f : String) (v : Value) : FieldWay → Eval.Outcome
  | .has => Eval.has v f
  | .isIn => Eval.isIn (.string f) v
  | .member => Eval.member v f
  | .index => Eval.index v (.string f)

/-- What a way fails with on a value that has no fields. -/
def refusal (f : String) (t : ValueType) : FieldWay → EvalError
  | .has => .noSuchOverload "has" [t]
  | .isIn => .noSuchOverload "in" [.string, t]
  | .member => .noSuchOverload ("." ++ f) [t]
  | .index => .noSuchOverload "_[_]" [t, .string]

/-- The ways to a field agree about an operand with the outcome `o`. -/
structure Agree (f : String) (o : Eval.Outcome) (way : FieldWay → Eval.Outcome) : Prop where
  of_map : ∀ entries, o = .ok (.map entries) → ∃ present,
    way .has = .ok (.bool present) ∧ way .isIn = .ok (.bool present) ∧
    (present = true ↔
      ∃ v, lookup? entries f = some v ∧ way .member = .ok v ∧ way .index = .ok v) ∧
    (present = false ↔
      way .member = .error (.noSuchKey f) ∧ way .index = .error (.noSuchKey f))
  of_list : ∀ items, o = .ok (.list items) →
    way .isIn = .ok (.bool (items.any (Value.string f).equal))
  of_other : ∀ v, o = .ok v → v.type ≠ .map → ∀ w : FieldWay, (w = .isIn → v.type ≠ .list) →
    way w = .error (w.refusal f v.type)
  of_error : ∀ err, o = .error err → ∀ w, way w = .error err

section
variable {f : String} {w : FieldWay} {v : Value}

theorem read_eq_refusal (h : v.type ≠ .map) (hw : w = .isIn → v.type ≠ .list) :
    w.read f v = .error (w.refusal f v.type) := by
  cases w with
  | isIn =>
    cases v with
    | list => exact absurd rfl (hw rfl)
    | map => exact absurd rfl h
    | _ => rfl
  | _ =>
    cases v with
    | map => exact absurd rfl h
    | _ => rfl

/-- Both ways that read a field take what the map has under it. -/
theorem read_map (f : String) (entries : List (String × Value)) :
    member.read f (.map entries) = (lookup? entries f).elim (.error (.noSuchKey f)) .ok ∧
      index.read f (.map entries) = (lookup? entries f).elim (.error (.noSuchKey f)) .ok := by
  have hselect (operation : String) (operands : List ValueType) :
      Eval.select (.map entries) f operation operands =
        (lookup? entries f).elim (.error (.noSuchKey f)) .ok := by
    rw [Eval.select]
    cases lookup? entries f <;> rfl
  exact ⟨hselect ("." ++ f) [.map], hselect "_[_]" [.map, .string]⟩

theorem agree_read (f : String) (o : Eval.Outcome) :
    Agree f o fun w => o >>= fun v => w.read f v := by
  constructor
  · rintro entries rfl
    obtain ⟨hmember, hindex⟩ := read_map f entries
    refine ⟨(lookup? entries f).isSome, rfl, rfl, ?_⟩
    simp only [bind, Except.bind, hmember, hindex]
    cases lookup? entries f <;> simp
  · rintro items rfl
    rfl
  · rintro v rfl hv w hw
    exact read_eq_refusal hv hw
  · rintro err rfl w
    rfl

end

theorem eval_of (b : Bindings) (room : Nat) (f : String) (e : Expr) (w : FieldWay) :
    Eval.eval b (room + 1) (w.of f e) = Eval.eval b room e >>= fun v => w.read f v := by
  cases room with
  | zero => cases w <;> rfl
  | succ room => cases w <;> rfl

theorem mem_children_of (f : String) (e : Expr) (w : FieldWay) : e ∈ (w.of f e).children := by
  cases w <;> simp [of, Expr.children]

end FieldWay

/-- The levels of the parts of a compiled program. -/
theorem Program.fits_of_mem_children {source : String} {declared : List String} {p : Program}
    {e : Expr} (hp : Program.compile source declared = .ok p) (he : e ∈ p.root.children) :
    e.Fits maxDepth := by
  obtain ⟨t, ht, _⟩ := Program.compile_eq_ok hp
  intro rest part hpart
  obtain ⟨s, hs⟩ := Typing.check_part ht (.inside he hpart)
  cases rest with
  | zero => cases hs
  | succ rest => exact Nat.succ_pos rest

/-- The ways to a field agree about every operand that leaves a level for them, as the operand does
in a compiled program, and at any level about what the operand comes to one level further down.
Borrowed values and built ones have the same outcomes. -/
theorem ways_to_field_agree (b : Bindings) (e : Expr) (f : String) :
    (e.Fits maxDepth → FieldWay.Agree f (e.eval b) fun w => (w.of f e).eval b) ∧
    (∀ room, FieldWay.Agree f (Eval.eval b room e) fun w => Eval.eval b (room + 1) (w.of f e)) ∧
    (∀ room part, (Eval.evalHeld b room part).map Held.value = Eval.eval b room part) ∧
    ∀ source declared p (w : FieldWay), Program.compile source declared = .ok p →
      p.root = w.of f e → e.Fits maxDepth := by
  have agree (room : Nat) :
      FieldWay.Agree f (Eval.eval b room e) fun w => Eval.eval b (room + 1) (w.of f e) := by
    simp only [FieldWay.eval_of]
    exact FieldWay.agree_read f _
  refine ⟨fun hfits => ?_, agree, Eval.evalHeld_value b, fun source declared p w hp hroot => ?_⟩
  · have he : e.eval b = Eval.eval b maxDepth e := Eval.eval_of_fits hfits (Nat.le_succ maxDepth)
    rw [he]
    exact agree maxDepth
  · apply Program.fits_of_mem_children hp
    rw [hroot]
    exact FieldWay.mem_children_of f e w

/-- A field in the middle of a map that the expression builds. -/
theorem ways_to_field_agree_of_built_map :
    let e := Expr.map [("e", .int 1), ("f", .int 2), ("g", .int 3)]
    e.Fits maxDepth ∧ FieldWay.Agree "f" (e.eval .empty) (fun w => (w.of "f" e).eval .empty) ∧
      e.eval .empty = .ok (.map [("e", .int 1), ("f", .int 2), ("g", .int 3)]) ∧
      (FieldWay.has.of "f" e).eval .empty = .ok (.bool true) ∧
      (FieldWay.member.of "f" e).eval .empty = .ok (.int 2) := by
  intro e
  have hp : Program.compile "\x7b\"e\": 1, \"f\": 2, \"g\": 3\x7d.f" [] =
      .ok ⟨"\x7b\"e\": 1, \"f\": 2, \"g\": 3\x7d.f", [], FieldWay.member.of "f" e⟩ := by
    cbv
  have h := ways_to_field_agree .empty e "f"
  have hfits : e.Fits maxDepth := h.2.2.2 _ _ _ .member hp rfl
  exact ⟨hfits, h.1 hfits, rfl, rfl, rfl⟩

section
variable {b : Bindings} {n room : Nat}

/-- A truth value under so many negations. -/
def Expr.negated : Nat → Expr
  | 0 => .bool true
  | n + 1 => .unary .not (negated n)

theorem Expr.eval_negated_of_lt (h : n < room) :
    ∃ t, Eval.eval b room (negated n) = .ok (.bool t) := by
  induction n generalizing room with
  | zero =>
    obtain ⟨room, rfl⟩ := Nat.exists_eq_succ_of_ne_zero (Nat.ne_of_gt h)
    exact ⟨true, rfl⟩
  | succ n ih =>
    obtain ⟨room, rfl⟩ := Nat.exists_eq_succ_of_ne_zero (show room ≠ 0 by omega)
    obtain ⟨t, ht⟩ := ih (Nat.lt_of_succ_lt_succ h)
    exact ⟨!t, by rw [negated, Eval.eval, ht]; rfl⟩

theorem Expr.eval_negated_of_le (h : room ≤ n) :
    Eval.eval b room (negated n) = .error .tooDeep := by
  induction n generalizing room with
  | zero =>
    rw [Nat.le_zero.mp h]
    rfl
  | succ n ih =>
    cases room with
    | zero => rfl
    | succ room =>
      rw [negated, Eval.eval, ih (Nat.le_of_succ_le_succ h)]
      rfl

/-- The expression whose source has so many marks in front of `true == true ? 1 : 1`. -/
def Expr.chosen (n : Nat) : Expr :=
  .conditional (.binary .equal (negated n) (.bool true)) (.int 1) (.int 1)

theorem Expr.eval_chosen_of_lt (h : n < room) :
    Eval.eval b (room + 2) (chosen n) = .ok (.int 1) := by
  obtain ⟨t, ht⟩ := eval_negated_of_lt (b := b) h
  obtain ⟨room, rfl⟩ := Nat.exists_eq_succ_of_ne_zero (Nat.ne_zero_of_lt h)
  have hequal : Eval.eval b (room + 2) (.binary .equal (negated n) (.bool true)) =
      .ok (.bool (t == true)) := by
    rw [Eval.eval, ht]
    rfl
  rw [chosen, Eval.eval, hequal]
  cases t <;> rfl

theorem Expr.eval_chosen_of_le (h : room ≤ n) :
    Eval.eval b (room + 2) (chosen n) = .error .tooDeep := by
  have hequal : Eval.eval b (room + 1) (.binary .equal (negated n) (.bool true)) =
      .error .tooDeep := by
    rw [Eval.eval, eval_negated_of_le h]
    rfl
  rw [chosen, Eval.eval, hequal]
  rfl

end

/-- A map that takes every level leaves none for the ways to its field. -/
theorem ways_to_field_fail_of_deepest_map :
    ¬∀ (b : Bindings) (e : Expr) (f : String),
      FieldWay.Agree f (e.eval b) fun w => (w.of f e).eval b := by
  intro h
  let e := Expr.map [("f", Expr.chosen 125)]
  have he : e.eval .empty = .ok (.map [("f", .int 1)]) := by
    have hv := Expr.eval_chosen_of_lt (b := .empty) (show 125 < 126 by decide)
    rw [Expr.eval, maxDepth, Eval.eval, List.mapM_cons, hv]
    rfl
  have hhas : (FieldWay.has.of "f" e).eval .empty = .error .tooDeep := by
    have hv := Expr.eval_chosen_of_le (b := .empty) (Nat.le_refl 125)
    rw [Expr.eval, maxDepth, FieldWay.eval_of, Eval.eval, List.mapM_cons, hv]
    rfl
  obtain ⟨present, hpresent, _⟩ := (h .empty e "f").of_map _ he
  cases hhas.symm.trans hpresent

end EventStream
