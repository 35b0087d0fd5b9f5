import EventStream.Expr.Eval
import Mathlib

namespace EventStream

/-- Failures that lie in the contents of operands, whose types are right. -/
def EvalError.IsDomain : EvalError → Prop
  | .overflow _ | .divisionByZero | .conversion _ => True
  | _ => False

namespace ValueType

def isNumber : ValueType → Bool
  | .int | .double => true
  | _ => false

def ordered (a b : ValueType) : Bool :=
  (a.isNumber && b.isNumber) || (a = b && (a = .string || a = .bool))

def arithmetic? (a b : ValueType) : Option ValueType :=
  if a = .int ∧ b = .int then some .int
  else if a.isNumber ∧ b.isNumber then some .double
  else none

def sum? : ValueType → ValueType → Option ValueType
  | .string, .string => some .string
  | .list, .list => some .list
  | a, b => arithmetic? a b

/-- A list may hold anything, the keys of a map are strings. -/
def contained (element container : ValueType) : Bool :=
  container = .list || (container = .map && element = .string)

end ValueType

def boolType (b : Bool) : Option ValueType :=
  if b then some .bool else none

def UnaryOp.result? : UnaryOp → ValueType → Option ValueType
  | .not, .bool => some .bool
  | .negate, .int => some .int
  | .negate, .double => some .double
  | _, _ => none

/-- The connectives are not among these operators: they do without one of the operands. -/
def BinaryOp.result? (op : BinaryOp) (a b : ValueType) : Option ValueType :=
  match op with
  | .and | .or => none
  | .equal | .notEqual => some .bool
  | .less | .lessEqual | .greater | .greaterEqual => boolType (a.ordered b)
  | .isIn => boolType (a.contained b)
  | .add => a.sum? b
  | .subtract | .multiply | .divide | .modulus => a.arithmetic? b

namespace Builtin

/-- What a function may be called on. -/
def subjects : Builtin → List ValueType
  | .size => [.string, .list, .map]
  | .contains | .startsWith | .endsWith => [.string]
  | .int | .double => [.int, .double, .string]
  | .string => [.bool, .int, .double, .string]

def type : Builtin → ValueType
  | .size | .int => .int
  | .contains | .startsWith | .endsWith => .bool
  | .double => .double
  | .string => .string

/-- Whether a function looks for a text in its subject. -/
def searches : Builtin → Bool
  | .contains | .startsWith | .endsWith => true
  | _ => false

def result? (f : Builtin) (subject : ValueType) (needle : Option ValueType) : Option ValueType :=
  if subject ∈ f.subjects ∧ (f.searches → needle = some .string) then some f.type else none

end Builtin

theorem Value.eq_bool {v : Value} (h : v.type = .bool) : ∃ x, v = .bool x := by
  cases v <;> cases h
  exact ⟨_, rfl⟩

theorem Value.eq_map {v : Value} (h : v.type = .map) : ∃ entries, v = .map entries := by
  cases v <;> cases h
  exact ⟨_, rfl⟩

theorem Value.eq_list {v : Value} (h : v.type = .list) : ∃ items, v = .list items := by
  cases v <;> cases h
  exact ⟨_, rfl⟩

theorem Value.eq_double {v : Value} (h : v.type = .double) : ∃ d, v = .double d := by
  cases v <;> cases h
  exact ⟨_, rfl⟩

namespace Eval

/-- A value of the type, or an error of the kind. -/
def Gives (P : EvalError → Prop) (t : ValueType) : Outcome → Prop
  | .ok v => v.type = t
  | .error e => P e

/-- A listed operation gives the type; one that is not listed has no overload. -/
def Follows (listed : Option ValueType) (operation : String) (operands : List ValueType)
    (o : Outcome) : Prop :=
  match listed with
  | some t => Gives EvalError.IsDomain t o
  | none => o = overload operation operands

section
variable {P Q : EvalError → Prop} {s t : ValueType} {listed : Option ValueType}
  {operation : String} {operands : List ValueType} {o : Outcome}

theorem Gives.mono (h : Gives P t o) (hPQ : ∀ e, P e → Q e) : Gives Q t o := by
  cases o with
  | ok v => exact h
  | error e => exact hPQ e h

theorem Gives.bind {f : Value → Outcome} (h : Gives P s o)
    (hf : ∀ v, o = .ok v → v.type = s → Gives P t (f v)) : Gives P t (o >>= f) := by
  cases o with
  | ok v => exact hf v rfl h
  | error e => exact h

theorem Follows.listed_eq {v : Value} (h : Follows listed operation operands o)
    (ho : o = .ok v) : listed = some v.type := by
  subst ho
  cases listed with
  | none => cases h
  | some t => exact congrArg some (Eq.symm h)

theorem Follows.fails (h : Follows none operation operands o) : ∃ e, o = .error e :=
  ⟨_, h⟩

end

theorem checked_gives (operation : Arithmetic) (n : Int) :
    Gives EvalError.IsDomain .int (checked operation n) := by
  unfold checked
  split
  · rfl
  · trivial

theorem unary_follows (op : UnaryOp) (v : Value) :
    Follows (op.result? v.type) op.symbol [v.type] (unary op v) := by
  cases op with
  | not => cases v <;> rfl
  | negate =>
    cases v with
    | int n => exact checked_gives _ _
    | null | bool | double | string | list | map => rfl

theorem double?_isSome (v : Value) : v.double?.isSome = v.type.isNumber := by
  cases v <;> rfl

theorem doubles_follows (op : BinaryOp) (f : Double → Double → Double) (l r : Value) :
    Follows (if l.type.isNumber ∧ r.type.isNumber then some .double else none) op.symbol
      [l.type, r.type] (doubles op f l r) := by
  rw [← double?_isSome l, ← double?_isSome r]
  unfold doubles
  cases l.double? <;> cases r.double? <;> rfl

theorem quotient_follows (op : BinaryOp) (f : Double → Double → Double) (l r : Value) :
    Follows (if l.type.isNumber ∧ r.type.isNumber then some .double else none) op.symbol
      [l.type, r.type] (quotient op f l r) := by
  rw [← double?_isSome l, ← double?_isSome r]
  unfold quotient
  cases l.double? with
  | none => cases r.double? <;> rfl
  | some a =>
    cases r.double? with
    | none => rfl
    | some b =>
      change Gives EvalError.IsDomain .double (if b.isZero then _ else _)
      split
      · trivial
      · rfl

theorem compare?_isSome (l r : Value) : (compare? l r).isSome = l.type.ordered r.type := by
  unfold compare?
  split
  · rfl
  · rfl
  · rfl
  next hi hs hb =>
    have hn : l.type.ordered r.type = (l.double?.isSome && r.double?.isSome) := by
      cases l <;> cases r <;>
        first | rfl | exact (hs _ _ rfl rfl).elim | exact (hb _ _ rfl rfl).elim
    rw [hn]
    cases l.double? with
    | none => rfl
    | some a =>
      cases r.double? with
      | none => rfl
      | some b => dsimp only; split <;> rfl

theorem order_follows (op : BinaryOp) (l r : Value) :
    Follows (boolType (l.type.ordered r.type)) op.symbol [l.type, r.type] (order op l r) := by
  rw [← compare?_isSome]
  unfold order
  cases compare? l r with
  | none => rfl
  | some o => cases o <;> rfl

theorem isIn_follows (l r : Value) :
    Follows (boolType (l.type.contained r.type)) "in" [l.type, r.type] (isIn l r) := by
  cases r with
  | map entries => cases l <;> rfl
  | null | bool | int | double | string | list => rfl

/-- Two integers have an operation of their own, other numbers go through doubles. -/
theorem arithmetic_follows {op : BinaryOp} {l r : Value} {o numbers : Outcome}
    (hn : Follows (if l.type.isNumber ∧ r.type.isNumber then some .double else none) op.symbol
      [l.type, r.type] numbers)
    (ints : ∀ a b, l = .int a → r = .int b → Gives EvalError.IsDomain .int o)
    (other : ¬(l.type = .int ∧ r.type = .int) → o = numbers) :
    Follows (l.type.arithmetic? r.type) op.symbol [l.type, r.type] o := by
  unfold ValueType.arithmetic?
  split
  next h =>
    cases l <;> cases h.1
    cases r <;> cases h.2
    exact ints _ _ rfl rfl
  next h =>
    rw [other h]
    exact hn

theorem divide_follows (l r : Value) :
    Follows (l.type.arithmetic? r.type) "/" [l.type, r.type] (divide l r) := by
  refine arithmetic_follows (quotient_follows .divide Double.div l r) ?_ fun h => ?_
  · rintro a b rfl rfl
    simp only [divide]
    split
    · trivial
    · exact checked_gives _ _
  · unfold divide
    split
    · exact absurd ⟨rfl, rfl⟩ h
    · rfl

theorem modulus_follows (l r : Value) :
    Follows (l.type.arithmetic? r.type) "%" [l.type, r.type] (modulus l r) := by
  refine arithmetic_follows (quotient_follows .modulus Double.mod l r) ?_ fun h => ?_
  · rintro a b rfl rfl
    simp only [modulus]
    split
    · trivial
    · split
      · trivial
      · exact checked_gives _ _
  · unfold modulus
    split
    · exact absurd ⟨rfl, rfl⟩ h
    · rfl

theorem add_follows (l r : Value) :
    Follows (l.type.sum? r.type) "+" [l.type, r.type] (add l r) := by
  unfold add
  split
  · exact checked_gives _ _
  · rfl
  · rfl
  next hi hs hl =>
    have hsum : l.type.sum? r.type = l.type.arithmetic? r.type := by
      cases l <;> cases r <;> first | rfl | exact absurd rfl (hs _ _ rfl) | exact absurd rfl (hl _ _ rfl)
    rw [hsum]
    exact arithmetic_follows (doubles_follows .add Double.add l r)
      (fun a b ha hb => (hi a b ha hb).elim) fun _ => rfl

theorem subtract_follows (l r : Value) :
    Follows (l.type.arithmetic? r.type) "-" [l.type, r.type] (binary .subtract l r) := by
  refine arithmetic_follows (doubles_follows .subtract Double.sub l r) ?_ fun h => ?_
  · rintro a b rfl rfl
    exact checked_gives _ _
  · rw [binary]
    rintro a b rfl rfl
    exact h ⟨rfl, rfl⟩

theorem multiply_follows (l r : Value) :
    Follows (l.type.arithmetic? r.type) "*" [l.type, r.type] (binary .multiply l r) := by
  refine arithmetic_follows (doubles_follows .multiply Double.mul l r) ?_ fun h => ?_
  · rintro a b rfl rfl
    exact checked_gives _ _
  · rw [binary]
    rintro a b rfl rfl
    exact h ⟨rfl, rfl⟩

theorem binary_follows (op : BinaryOp) (l r : Value) :
    Follows (op.result? l.type r.type) op.symbol [l.type, r.type] (binary op l r) := by
  cases op with
  | or | and | equal | notEqual => rfl
  | less | lessEqual | greater | greaterEqual => exact order_follows _ l r
  | isIn => exact isIn_follows l r
  | add => exact add_follows l r
  | subtract => exact subtract_follows l r
  | multiply => exact multiply_follows l r
  | divide => exact divide_follows l r
  | modulus => exact modulus_follows l r

theorem search_follows {f : Builtin} (hf : f = .contains ∨ f = .startsWith ∨ f = .endsWith)
    (found : List Char → List Char → Bool) (function : String) (operands : List ValueType)
    (subject : Value) (needle : Option Value) :
    Follows (f.result? subject.type (needle.map Value.type)) function operands
      (search found subject needle (overload function operands)) := by
  rcases hf with rfl | rfl | rfl <;> cases subject <;>
    first | rfl | (cases needle with | none => rfl | some n => cases n <;> rfl)

theorem toInt_follows (function : String) (operands : List ValueType) (subject : Value)
    (needle : Option ValueType) :
    Follows (Builtin.int.result? subject.type needle) function operands
      (toInt subject (overload function operands)) := by
  cases subject with
  | double x | string x =>
    change Gives EvalError.IsDomain .int _
    unfold toInt
    dsimp only
    split
    · rfl
    · trivial
  | null | bool | int | list | map => rfl

theorem toDouble_follows (function : String) (operands : List ValueType) (subject : Value)
    (needle : Option ValueType) :
    Follows (Builtin.double.result? subject.type needle) function operands
      (toDouble subject (overload function operands)) := by
  cases subject with
  | string s =>
    change Gives EvalError.IsDomain .double _
    unfold toDouble
    dsimp only
    split
    · rfl
    · trivial
  | null | bool | int | double | list | map => rfl

/-- A call that has a subject. -/
theorem call_follows {function : String} {f : Builtin} {target : Option Value}
    {arguments : List Value} {subject : Value} (hf : Builtin.ofName? function = some f)
    (hs : target.or arguments.head? = some subject) :
    Follows (f.result? subject.type (arguments.head?.map Value.type)) function
      ((target.toList ++ arguments).map Value.type) (call function target arguments) := by
  unfold call
  rw [hf, hs]
  cases f with
  | size => cases subject <;> rfl
  | contains => exact search_follows (.inl rfl) _ _ _ subject _
  | startsWith => exact search_follows (.inr (.inl rfl)) _ _ _ subject _
  | endsWith => exact search_follows (.inr (.inr rfl)) _ _ _ subject _
  | int => exact toInt_follows _ _ subject _
  | double => exact toDouble_follows _ _ subject _
  | string => cases subject <;> rfl

/-- Without a subject there is nothing to call a function on. -/
theorem call_subject {function : String} {target : Option Value} {arguments : List Value}
    {v : Value} (h : call function target arguments = .ok v) :
    ∃ f subject, Builtin.ofName? function = some f ∧ target.or arguments.head? = some subject := by
  unfold call at h
  cases hs : target.or arguments.head? with
  | none => rw [hs] at h; cases h
  | some subject =>
    cases hf : Builtin.ofName? function with
    | none => rw [hs, hf] at h; cases h
    | some f => exact ⟨f, subject, rfl, rfl⟩

theorem logical_type {op : BinaryOp} {left : Outcome} {right : Unit → Outcome} {v : Value}
    (h : logical op left right = .ok v) : v.type = .bool := by
  dsimp only [logical] at h
  split at h
  · split at h
    · cases h; rfl
    · split at h <;> cases h
      rfl
  · split at h
    · split at h <;> cases h
      rfl
    · cases h

theorem truth_error {P : EvalError → Prop} {op : BinaryOp} {o : Outcome} {e : EvalError}
    (ho : Gives P .bool o) (h : truth op o = .error e) : P e := by
  cases o with
  | ok v =>
    cases v with
    | bool b => cases h
    | null | int | double | string | list | map => cases ho
  | error d => cases h; exact ho

theorem logical_gives {P : EvalError → Prop} {op : BinaryOp} {left : Outcome}
    {right : Unit → Outcome} (hl : Gives P .bool left) (hr : Gives P .bool (right ())) :
    Gives P .bool (logical op left right) := by
  dsimp only [logical]
  split
  next b hb =>
    split
    · rfl
    · split
      next => rfl
      next e he => exact truth_error hr he
  next e he =>
    split
    · split
      · rfl
      · exact truth_error hl he
    · exact truth_error hl he

/-- A double stands for a position or stays what it is. -/
theorem asPosition_cases (v : Value) :
    asPosition v = v ∨ ∃ d n, v = .double d ∧ d.whole? = some n ∧
      n.natAbs < 9223372036854775808 ∧ asPosition v = .int (Int64.ofInt n) := by
  unfold asPosition
  split
  next d =>
    split
    next n hn =>
      split
      next hb => exact .inr ⟨d, n, rfl, hn, hb, rfl⟩
      next => exact .inl rfl
    next => exact .inl rfl
  next => exact .inl rfl

/-- Lists have places for numbers, maps for strings, and nothing else has any. -/
theorem index_fails {target position : Value}
    (hl : target.type = .list → position.type ≠ .int ∧ position.type ≠ .double)
    (hm : target.type = .map → position.type ≠ .string) :
    ∃ e, index target position = .error e := by
  have hp : target.type = .list → ∀ i, asPosition position ≠ .int i := by
    intro ht i hi
    obtain ⟨hint, hdouble⟩ := hl ht
    rcases asPosition_cases position with h | ⟨d, _, rfl, _⟩
    · exact hint (by rw [h.symm.trans hi]; rfl)
    · exact hdouble rfl
  have hs : target.type = .map → ∀ k, asPosition position ≠ .string k := by
    intro ht k hk
    rcases asPosition_cases position with h | ⟨_, _, _, _, _, h⟩
    · exact hm ht (by rw [h.symm.trans hk]; rfl)
    · cases h.symm.trans hk
  unfold index
  split
  next i hi => exact absurd hi (hp rfl i)
  next k hk => exact absurd hk (hs rfl k)
  next => exact ⟨_, rfl⟩

end Eval

end EventStream
