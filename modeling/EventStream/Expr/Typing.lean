import EventStream.Expr.Builtin
import EventStream.Expr.Error
/-!
Static types. A variable is a map whose values are unknown, so only what fails for every input is
refused.
-/
namespace EventStream

namespace StaticType

/-- Whether a value of this static type may have a type. -/
def admits (s : StaticType) (t : ValueType) : Bool :=
  s = .dyn ∨ s = .known t

def isNumber : StaticType → Bool
  | .known .int | .known .double => true
  | _ => false

def isNumberOrDyn (s : StaticType) : Bool :=
  s.isNumber || s = .dyn

end StaticType

namespace Typing

def comparable (l r : StaticType) : Bool :=
  l = .dyn || r = .dyn || l = .known .null || r = .known .null || l = r ||
    (l.isNumber && r.isNumber)

def ordered (l r : StaticType) : Bool :=
  l = .dyn || r = .dyn || (l.isNumber && r.isNumber) ||
    (l = r && (l = .known .string || l = .known .bool))

def sum? : StaticType → StaticType → Option StaticType
  | .dyn, .dyn => some .dyn
  | .dyn, t | t, .dyn =>
    if t.isNumber ∨ t = .known .string ∨ t = .known .list then some .dyn else none
  | .known .int, .known .int => some (.known .int)
  | .known .string, .known .string => some (.known .string)
  | .known .list, .known .list => some (.known .list)
  | l, r => if l.isNumber ∧ r.isNumber then some (.known .double) else none

def arithmetic? (l r : StaticType) : Option StaticType :=
  if l = .known .int ∧ r = .known .int then some (.known .int)
  else if l.isNumber ∧ r.isNumber then some (.known .double)
  else if l.isNumberOrDyn ∧ r.isNumberOrDyn then some .dyn
  else none

def boolIf (b : Bool) : Option StaticType :=
  if b then some (.known .bool) else none

def binary? (op : BinaryOp) (l r : StaticType) : Option StaticType :=
  match op with
  | .and | .or => boolIf (l.admits .bool && r.admits .bool)
  | .equal | .notEqual => boolIf (comparable l r)
  | .less | .lessEqual | .greater | .greaterEqual => boolIf (ordered l r)
  | .isIn => boolIf (r.admits .list || r.admits .map)
  | .add => sum? l r
  | .subtract | .multiply | .divide | .modulus => arithmetic? l r

def unary? (op : UnaryOp) (t : StaticType) : Option StaticType :=
  match op with
  | .not => boolIf (t.admits .bool)
  | .negate => if t.isNumberOrDyn then some t else none

def index? (target position : StaticType) : Bool :=
  match target with
  | .dyn => true
  | .known .list => position.admits .int
  | .known .map => position.admits .string
  | _ => false

def sizeOf (function : String) (t : StaticType) : Except CompileError StaticType :=
  if t.admits .string || t.admits .list || t.admits .map then .ok (.known .int)
  else .error (.type (.argument function t))

/-- A conversion from the types of a list. -/
def conversion (function : String) (accepted : List ValueType) (result : ValueType)
    (t : StaticType) : Except CompileError StaticType :=
  if accepted.any t.admits then .ok (.known result) else .error (.type (.argument function t))

def search (function : String) (target needle : StaticType) : Except CompileError StaticType :=
  if !target.admits .string then .error (.type (.argument function target))
  else if !needle.admits .string then .error (.type (.argument function needle))
  else .ok (.known .bool)

/-- A function on a target or without one; size is the only one that may be both. -/
def call (function : String) (target : Option StaticType) (arguments : List StaticType) :
    Except CompileError StaticType :=
  let arity := fun n => CompileError.arity function n arguments.length
  match Builtin.ofName? function, target, arguments with
  | some .size, none, [t] => sizeOf function t
  | some .size, none, _ => .error (arity 1)
  | some .size, some t, [] => sizeOf function t
  | some .size, some _, _ => .error (arity 0)
  | some .contains, some t, [n] | some .startsWith, some t, [n] | some .endsWith, some t, [n] =>
    search function t n
  | some .contains, some _, _ | some .startsWith, some _, _ | some .endsWith, some _, _ =>
    .error (arity 1)
  | some .int, none, [t] => conversion function [.int, .double, .string] .int t
  | some .double, none, [t] => conversion function [.int, .double, .string] .double t
  | some .string, none, [t] => conversion function [.bool, .int, .double, .string] .string t
  | some .int, none, _ | some .double, none, _ | some .string, none, _ => .error (arity 1)
  | _, _, _ => .error (.unknownFunction function)

/-- The type of an expression with at most `room` levels over the declared variables. -/
def check (declared : List String) : Nat → Expr → Except CompileError StaticType
  | 0, _ => .error .tooDeep
  | room + 1, e =>
    match e with
    | .null => .ok (.known .null)
    | .bool _ => .ok (.known .bool)
    | .int _ => .ok (.known .int)
    | .double _ => .ok (.known .double)
    | .string _ => .ok (.known .string)
    | .list items => do
      let _ ← items.mapM (check declared room)
      .ok (.known .list)
    | .map entries => do
      let _ ← entries.mapM fun e => check declared room e.2
      .ok (.known .map)
    | .variable name =>
      if declared.contains name then .ok (.known .map) else .error (.undeclaredReference name)
    | .member target field => do
      let t ← check declared room target
      if t.admits .map then .ok .dyn else .error (.type (.selection t field))
    | .has target field => do
      let t ← check declared room target
      if t.admits .map then .ok (.known .bool) else .error (.type (.presence t field))
    | .index target position => do
      let t ← check declared room target
      let p ← check declared room position
      if index? t p then .ok .dyn else .error (.type (.index t p))
    | .unary op operand => do
      let t ← check declared room operand
      match unary? op t with
      | some r => .ok r
      | none => .error (.type (.unary op t))
    | .binary op left right => do
      let l ← check declared room left
      let r ← check declared room right
      match binary? op l r with
      | some t => .ok t
      | none => .error (.type (.binary op l r))
    | .conditional condition yes no => do
      let c ← check declared room condition
      if !c.admits .bool then .error (.type (.condition c))
      else
        let y ← check declared room yes
        let n ← check declared room no
        .ok (if y = n then y else .dyn)
    | .call function target arguments => do
      let t ← target.mapM (check declared room)
      let ts ← arguments.mapM (check declared room)
      call function t ts

end Typing

/-- The root lies at depth zero. -/
def Expr.check (e : Expr) (declared : List String) : Except CompileError StaticType :=
  Typing.check declared (maxDepth + 1) e

end EventStream
