import EventStream.Expr.Eval
/-!
Evaluation with its storage: values of bindings are borrowed, and stay so under selection; what an
expression builds it owns, and selecting from that takes the part out and gives up the rest.
-/
namespace EventStream

/-- A value with where it is kept. -/
inductive Held where
  | borrowed (value : Value)
  | owned (value : Value)

def Held.value : Held → Value
  | .borrowed v | .owned v => v

/-- Takes out the item at a position; the last item goes to its place. -/
def swapRemove? {α : Type} (items : List α) (position : Nat) : Option (α × List α) :=
  match items[position]?, items.getLast? with
  | some v, some last => some (v, (items.set position last).dropLast)
  | _, _ => none

/-- Takes out the entry with a key. -/
def swapRemoveKey? {κ α : Type} [DecidableEq κ] (entries : List (κ × α)) (key : κ) :
    Option ((κ × α) × List (κ × α)) :=
  swapRemove? entries (entries.findIdx fun e => e.1 = key)

namespace Held

/-- What a map has under a key, kept as the map is. -/
def get? : Held → String → Option Held
  | .borrowed (.map entries), key => (lookup? entries key).map .borrowed
  | .owned (.map entries), key => (swapRemoveKey? entries key).map fun taken => .owned taken.1.2
  | _, _ => none

/-- What a list has in a place, kept as the list is. -/
def item? : Held → Nat → Option Held
  | .borrowed (.list items), n => items[n]?.map .borrowed
  | .owned (.list items), n => (swapRemove? items n).map fun taken => .owned taken.1
  | _, _ => none

end Held

namespace Eval

/-- Held values or errors. -/
abbrev HeldOutcome := Except EvalError Held

def selectHeld (target : Held) (field operation : String) (operands : List ValueType) :
    HeldOutcome :=
  match target.value with
  | .map _ =>
    match target.get? field with
    | some v => .ok v
    | none => .error (.noSuchKey field)
  | _ => .error (.noSuchOverload operation operands)

def memberHeld (target : Held) (field : String) : HeldOutcome :=
  selectHeld target field ("." ++ field) [target.value.type]

def elementHeld (target : Held) (length : Nat) (position : Int64) : HeldOutcome :=
  if position.toInt < 0 then .error (.indexOutOfRange position length)
  else
    match target.item? position.toInt.toNat with
    | some v => .ok v
    | none => .error (.indexOutOfRange position length)

def indexHeld (target : Held) (position : Value) : HeldOutcome :=
  match target.value, asPosition position with
  | .list items, .int i => elementHeld target items.length i
  | .map _, .string key => selectHeld target key "_[_]" [.map, .string]
  | t, p => .error (.noSuchOverload "_[_]" [t.type, p.type])

/-- The value of an expression with at most `room` levels, and where it is kept. -/
def evalHeld (bindings : Bindings) : Nat → Expr → HeldOutcome
  | 0, _ => .error .tooDeep
  | room + 1, e =>
    let value (part : Expr) : Outcome := (evalHeld bindings room part).map Held.value
    let build (o : Outcome) : HeldOutcome := o.map .owned
    match e with
    | .null => .ok (.owned .null)
    | .bool b => .ok (.owned (.bool b))
    | .int n => .ok (.owned (.int n))
    | .double d => .ok (.owned (.double d))
    | .string s => .ok (.owned (.string s))
    | .list items => build do
      let vs ← items.mapM value
      .ok (.list vs)
    | .map entries => build do
      let vs ← entries.mapM fun e => do
        let v ← value e.2
        .ok (e.1, v)
      .ok (mapOf vs)
    | .variable name =>
      match bindings.get? name with
      | some v => .ok (.borrowed v)
      | none => .error (.missingBinding name)
    | .member target field => do
      let t ← evalHeld bindings room target
      memberHeld t field
    | .has target field => build do
      let t ← value target
      has t field
    | .index target position => do
      let t ← evalHeld bindings room target
      let p ← value position
      indexHeld t p
    | .unary op operand => build do
      let v ← value operand
      unary op v
    | .binary op left right => build <|
      if op = .and ∨ op = .or then logical op (value left) fun _ => value right
      else do
        let l ← value left
        let r ← value right
        binary op l r
    | .conditional condition yes no => do
      let c ← value condition
      match c with
      | .bool true => evalHeld bindings room yes
      | .bool false => evalHeld bindings room no
      | v => .error (.noSuchOverload "_?_:_" [v.type])
    | .call function target arguments => build do
      let t ← target.mapM value
      let vs ← arguments.mapM value
      call function t vs

end Eval

end EventStream
