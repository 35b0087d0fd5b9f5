import EventStream.Expr.Eval
import EventStream.Expr.Parser
import EventStream.Expr.Typing

namespace EventStream

/-- A name that the language reads as a variable. -/
def isIdentifier (name : String) : Bool :=
  match name.toList with
  | [] => false
  | c :: r => Lexer.isNameStart c && r.all Lexer.isNamePart && (Keyword.ofName? name).isNone

/-- Dashes and points become underscores. -/
def sanitizeIdentifier (name : String) : String :=
  String.ofList (name.toList.map fun c => if c = '-' ∨ c = '.' then '_' else c)

structure Program where
  source : String
  declared : List String
  root : Expr

namespace Program

def compile (source : String) (declared : List String) : Except CompileError Program :=
  match declared.find? fun v => !isIdentifier v with
  | some v => .error (.invalidVariable v)
  | none => do
    let root ← Expr.parse source
    let _ ← root.check declared
    .ok ⟨source, declared, root⟩

def evaluate (p : Program) (bindings : Bindings) : Except EvalError Value :=
  p.root.eval bindings

end Program

/-- The compact JSON of a value. -/
def Value.jsonBytes (v : Value) : Except EvalError Bytes :=
  match v.toJson with
  | .ok j => .ok j.write
  | .error d => .error (.notSerializable d)

end EventStream
