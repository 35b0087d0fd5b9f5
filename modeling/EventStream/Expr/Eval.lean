import EventStream.Double.Decimal
import EventStream.Expr.Bindings
import EventStream.Expr.Builtin
import EventStream.Expr.Error
import EventStream.Text.Blank

namespace EventStream

namespace Eval

abbrev Outcome := Except EvalError Value

def overload (operation : String) (operands : List ValueType) : Outcome :=
  .error (.noSuchOverload operation operands)

def select (target : Value) (field : String) (operation : String) (operands : List ValueType) :
    Outcome :=
  match target with
  | .map entries =>
    match lookup? entries field with
    | some v => .ok v
    | none => .error (.noSuchKey field)
  | _ => overload operation operands

def member (target : Value) (field : String) : Outcome :=
  select target field ("." ++ field) [target.type]

def has (target : Value) (field : String) : Outcome :=
  match target with
  | .map entries => .ok (.bool (lookup? entries field).isSome)
  | v => overload "has" [v.type]

/-- A whole double is as good a position as the integer. -/
def asPosition (v : Value) : Value :=
  match v with
  | .double d =>
    match d.whole? with
    | some n => if n.natAbs < 9223372036854775808 then .int (Int64.ofInt n) else v
    | none => v
  | _ => v

def element (items : List Value) (position : Int64) : Outcome :=
  if position.toInt < 0 then .error (.indexOutOfRange position items.length)
  else
    match items[position.toInt.toNat]? with
    | some v => .ok v
    | none => .error (.indexOutOfRange position items.length)

def index (target position : Value) : Outcome :=
  match target, asPosition position with
  | .list items, .int i => element items i
  | .map entries, .string key => select (.map entries) key "_[_]" [.map, .string]
  | t, p => overload "_[_]" [t.type, p.type]

/-- An integer result, if it has 64 bits. -/
def checked (operation : Arithmetic) (n : Int) : Outcome :=
  match word? n with
  | some w => .ok (.int w)
  | none => .error (.overflow operation)

def unary (op : UnaryOp) (operand : Value) : Outcome :=
  match op, operand with
  | .not, .bool b => .ok (.bool !b)
  | .negate, .int n => checked .negation (-n.toInt)
  | .negate, .double d => .ok (.double d.neg)
  | op, v => overload op.symbol [v.type]

/-- How two values lie; numbers of which one is nan lie nowhere. -/
def compare? : Value → Value → Option (Option Ordering)
  | .int a, .int b => some (some (compare a.toInt b.toInt))
  | .string a, .string b => some (some (compare a b))
  | .bool a, .bool b => some (some (compare a.toNat b.toNat))
  | l, r =>
    match l.double?, r.double? with
    | some a, some b =>
      match a.place?, b.place? with
      | some x, some y => some (some (compare x y))
      | _, _ => some none
    | _, _ => none

def holds : BinaryOp → Ordering → Bool
  | .less, o => o = .lt
  | .lessEqual, o => o ≠ .gt
  | .greater, o => o = .gt
  | _, o => o ≠ .lt

/-- Two numbers as doubles. -/
def doubles (op : BinaryOp) (f : Double → Double → Double) (l r : Value) : Outcome :=
  match l.double?, r.double? with
  | some a, some b => .ok (.double (f a b))
  | _, _ => overload op.symbol [l.type, r.type]

/-- Two numbers as doubles, the second not zero. -/
def quotient (op : BinaryOp) (f : Double → Double → Double) (l r : Value) : Outcome :=
  match l.double?, r.double? with
  | some a, some b => if b.isZero then .error .divisionByZero else .ok (.double (f a b))
  | _, _ => overload op.symbol [l.type, r.type]

def order (op : BinaryOp) (l r : Value) : Outcome :=
  match compare? l r with
  | none => overload op.symbol [l.type, r.type]
  | some none => .ok (.bool false)
  | some (some o) => .ok (.bool (holds op o))

def isIn (l r : Value) : Outcome :=
  match l, r with
  | l, .list items => .ok (.bool (items.any l.equal))
  | .string key, .map entries => .ok (.bool (lookup? entries key).isSome)
  | l, r => overload "in" [l.type, r.type]

def add (l r : Value) : Outcome :=
  match l, r with
  | .int a, .int b => checked .addition (a.toInt + b.toInt)
  | .string a, .string b => .ok (.string (a ++ b))
  | .list a, .list b => .ok (.list (a ++ b))
  | l, r => doubles .add Double.add l r

def divide (l r : Value) : Outcome :=
  match l, r with
  | .int a, .int b =>
    if b = 0 then .error .divisionByZero else checked .division (a.toInt.tdiv b.toInt)
  | l, r => quotient .divide Double.div l r

/-- The remainder exists where the quotient does. -/
def modulus (l r : Value) : Outcome :=
  match l, r with
  | .int a, .int b =>
    if b = 0 then .error .divisionByZero
    else if (word? (a.toInt.tdiv b.toInt)).isNone then .error (.overflow .modulus)
    else checked .modulus (a.toInt.tmod b.toInt)
  | l, r => quotient .modulus Double.mod l r

/-- Operators that take both operands. -/
def binary (op : BinaryOp) (l r : Value) : Outcome :=
  match op, l, r with
  | .equal, l, r => .ok (.bool (l.equal r))
  | .notEqual, l, r => .ok (.bool !(l.equal r))
  | .less, l, r | .lessEqual, l, r | .greater, l, r | .greaterEqual, l, r => order op l r
  | .isIn, l, r => isIn l r
  | .add, l, r => add l r
  | .subtract, .int a, .int b => checked .subtraction (a.toInt - b.toInt)
  | .subtract, l, r => doubles .subtract Double.sub l r
  | .multiply, .int a, .int b => checked .multiplication (a.toInt * b.toInt)
  | .multiply, l, r => doubles .multiply Double.mul l r
  | .divide, l, r => divide l r
  | .modulus, l, r => modulus l r
  | .and, l, r | .or, l, r => overload op.symbol [l.type, r.type]

/-- What an operand of a logical operator counts as. -/
def truth (op : BinaryOp) (v : Outcome) : Except EvalError Bool :=
  match v with
  | .ok (.bool b) => .ok b
  | .ok v => .error (.noSuchOverload op.symbol [v.type])
  | .error e => .error e

/-- The operand that decides the operator makes an error of the other one count for nothing. -/
def logical (op : BinaryOp) (left : Outcome) (right : Unit → Outcome) : Outcome :=
  let decisive : Bool := op = .or
  let l := truth op left
  match l with
  | .ok b =>
    if b = decisive then .ok (.bool decisive)
    else
      match truth op (right ()) with
      | .ok b => .ok (.bool b)
      | .error e => .error e
  | .error e =>
    match truth op (right ()) with
    | .ok b => if b = decisive then .ok (.bool decisive) else .error e
    | .error _ => .error e

/-- Whether a text occurs in another. -/
def occurs (needle : List Char) : List Char → Bool
  | [] => needle.isEmpty
  | c :: r => needle.isPrefixOf (c :: r) || occurs needle r

def toInt (subject : Value) (mismatch : Outcome) : Outcome :=
  match subject with
  | .int n => .ok (.int n)
  | .double d =>
    match d.truncate?.bind word? with
    | some n => .ok (.int n)
    | none => .error (.conversion ("double " ++ d.text ++ " out of int range"))
  | .string s =>
    match (signed? (trim s.toList)).bind word? with
    | some n => .ok (.int n)
    | none => .error (.conversion ("'" ++ s ++ "' is not an int"))
  | _ => mismatch

def toDouble (subject : Value) (mismatch : Outcome) : Outcome :=
  match subject with
  | .int n => .ok (.double (.ofInt n.toInt))
  | .double d => .ok (.double d)
  | .string s =>
    match Double.read? (trim s.toList) with
    | some d => .ok (.double d)
    | none => .error (.conversion ("'" ++ s ++ "' is not a double"))
  | _ => mismatch

def toText (subject : Value) (mismatch : Outcome) : Outcome :=
  match subject with
  | .string s => .ok (.string s)
  | .int _ | .double _ | .bool _ => .ok (.string subject.display)
  | _ => mismatch

def size (subject : Value) (mismatch : Outcome) : Outcome :=
  match subject with
  | .string s => .ok (.int (Int64.ofNat s.length))
  | .list items => .ok (.int (Int64.ofNat items.length))
  | .map entries => .ok (.int (Int64.ofNat entries.length))
  | _ => mismatch

def search (found : List Char → List Char → Bool) (subject : Value) (needle : Option Value)
    (mismatch : Outcome) : Outcome :=
  match subject, needle with
  | .string s, some (.string n) => .ok (.bool (found n.toList s.toList))
  | _, _ => mismatch

/-- The subject of a call is its target, or else its first argument. -/
def call (function : String) (target : Option Value) (arguments : List Value) : Outcome :=
  let mismatch := overload function ((target.toList ++ arguments).map Value.type)
  match target.or arguments.head?, Builtin.ofName? function with
  | some subject, some .size => size subject mismatch
  | some subject, some .contains => search occurs subject arguments.head? mismatch
  | some subject, some .startsWith => search List.isPrefixOf subject arguments.head? mismatch
  | some subject, some .endsWith => search List.isSuffixOf subject arguments.head? mismatch
  | some subject, some .int => toInt subject mismatch
  | some subject, some .double => toDouble subject mismatch
  | some subject, some .string => toText subject mismatch
  | _, _ => mismatch

/-- Entries in order; a later one with a key replaces an earlier one in its place. -/
def mapOf (entries : List (String × Value)) : Value :=
  .map (entries.foldl (fun m e => setEntry e.1 e.2 m) [])

/-- The value of an expression with at most `room` levels. -/
def eval (bindings : Bindings) : Nat → Expr → Outcome
  | 0, _ => .error .tooDeep
  | room + 1, e =>
    match e with
    | .null => .ok .null
    | .bool b => .ok (.bool b)
    | .int n => .ok (.int n)
    | .double d => .ok (.double d)
    | .string s => .ok (.string s)
    | .list items => do
      let vs ← items.mapM (eval bindings room)
      .ok (.list vs)
    | .map entries => do
      let vs ← entries.mapM fun e => do
        let v ← eval bindings room e.2
        .ok (e.1, v)
      .ok (mapOf vs)
    | .variable name =>
      match bindings.get? name with
      | some v => .ok v
      | none => .error (.missingBinding name)
    | .member target field => do
      let t ← eval bindings room target
      member t field
    | .has target field => do
      let t ← eval bindings room target
      has t field
    | .index target position => do
      let t ← eval bindings room target
      let p ← eval bindings room position
      index t p
    | .unary op operand => do
      let v ← eval bindings room operand
      unary op v
    | .binary op left right =>
      if op = .and ∨ op = .or then
        logical op (eval bindings room left) fun _ => eval bindings room right
      else do
        let l ← eval bindings room left
        let r ← eval bindings room right
        binary op l r
    | .conditional condition yes no => do
      let c ← eval bindings room condition
      match c with
      | .bool true => eval bindings room yes
      | .bool false => eval bindings room no
      | v => overload "_?_:_" [v.type]
    | .call function target arguments => do
      let t ← target.mapM (eval bindings room)
      let vs ← arguments.mapM (eval bindings room)
      call function t vs

end Eval

/-- The root lies at depth zero. -/
def Expr.eval (e : Expr) (bindings : Bindings) : Except EvalError Value :=
  Eval.eval bindings (maxDepth + 1) e

end EventStream
