import EventStream.Expr.Program
import EventStream.ProcessorError

namespace EventStream

namespace Role

/-- An expression need not be there. -/
def compile (role : Role) (declared : List String) (source : Option String) :
    Except ProcessorError (Option Program) :=
  match source with
  | none => .ok none
  | some s =>
    match Program.compile s declared with
    | .ok p => .ok (some p)
    | .error e => .error (.compile role e)

end Role

namespace Program

def valueOf (p : Program) (b : Bindings) : Except ProcessorError Value :=
  (p.evaluate b).mapError .eval

/-- The answer of a filter or a trigger. -/
def holds (p : Program) (b : Bindings) : Except ProcessorError Bool := do
  let v ← p.valueOf b
  (v.bool?).mapError .typeMismatch

/-- The JSON of what is selected. -/
def selected (p : Program) (b : Bindings) : Except ProcessorError Bytes := do
  let v ← p.valueOf b
  (v.jsonBytes).mapError .eval

end Program

end EventStream
