import EventStream.Expr.Token
import EventStream.Expr.Tree
import EventStream.Expr.Value

namespace EventStream

/-- What is known of a value before evaluation: nothing, or its type. -/
inductive StaticType where
  | dyn
  | known (t : ValueType)
  deriving DecidableEq

def StaticType.name : StaticType → String
  | .dyn => "dyn"
  | .known t => t.name

/-- An operation on types for which it has no value. -/
inductive TypeError where
  | selection (target : StaticType) (field : String)
  | presence (target : StaticType) (field : String)
  | index (target position : StaticType)
  | unary (op : UnaryOp) (operand : StaticType)
  | binary (op : BinaryOp) (left right : StaticType)
  | condition (found : StaticType)
  | argument (function : String) (found : StaticType)

def TypeError.message : TypeError → String
  | .selection t f => "type '" ++ t.name ++ "' does not support field selection '." ++ f ++ "'"
  | .presence t f => "has() on type '" ++ t.name ++ "' cannot test field '" ++ f ++ "'"
  | .index t p => "cannot index type '" ++ t.name ++ "' with '" ++ p.name ++ "'"
  | .unary op t => "'" ++ op.symbol ++ "' applied to '" ++ t.name ++ "'"
  | .binary op l r =>
    "'" ++ op.symbol ++ "' applied to ('" ++ l.name ++ "', '" ++ r.name ++ "')"
  | .condition t => "conditional requires a bool condition, found '" ++ t.name ++ "'"
  | .argument f t => f ++ "() does not accept '" ++ t.name ++ "'"

inductive CompileError where
  | unexpectedToken (position : Nat) (expected : String) (found : Token)
  | invalidEscape (escaped : String)
  | undeclaredReference (name : String)
  | invalidVariable (name : String)
  | unknownFunction (name : String)
  | arity (function : String) (expected found : Nat)
  | invalidHas
  | type (error : TypeError)
  | tooDeep

def CompileError.message : CompileError → String
  | .unexpectedToken p e f =>
    "syntax error at position " ++ p.repr ++ ": expected " ++ e ++ ", found " ++ f.display
  | .invalidEscape e => "invalid escape sequence '\\" ++ e ++ "'"
  | .undeclaredReference n => "undeclared reference to '" ++ n ++ "'"
  | .invalidVariable n => "invalid variable name '" ++ n ++ "'"
  | .unknownFunction n => "unknown function '" ++ n ++ "'"
  | .arity f e n =>
    "function '" ++ f ++ "' expects " ++ e.repr ++ " argument(s), found " ++ n.repr
  | .invalidHas => "has() requires a field selection argument, e.g. has(a.b)"
  | .type e => "type error: " ++ e.message
  | .tooDeep => "expression nesting exceeds maximum depth of " ++ maxDepth.repr

inductive Arithmetic where
  | addition
  | subtraction
  | multiplication
  | division
  | modulus
  | negation

def Arithmetic.name : Arithmetic → String
  | .addition => "addition"
  | .subtraction => "subtraction"
  | .multiplication => "multiplication"
  | .division => "division"
  | .modulus => "modulus"
  | .negation => "negation"

inductive EvalError where
  | noSuchKey (key : String)
  | indexOutOfRange (index : Int64) (size : Nat)
  | noSuchOverload (operation : String) (operands : List ValueType)
  | overflow (operation : Arithmetic)
  | divisionByZero
  | missingBinding (name : String)
  | conversion (reason : String)
  | notSerializable (d : Double)
  | tooDeep

def EvalError.message : EvalError → String
  | .noSuchKey k => "no such key: " ++ k
  | .indexOutOfRange i n =>
    "index " ++ String.ofList (Json.integerText i.toInt) ++ " out of range for list of size " ++
      n.repr
  | .noSuchOverload op ts =>
    "no such overload: " ++ op ++ " applied to (" ++ ", ".intercalate (ts.map ValueType.name) ++ ")"
  | .overflow op => "integer overflow in " ++ op.name
  | .divisionByZero => "division by zero"
  | .missingBinding n => "no binding supplied for variable '" ++ n ++ "'"
  | .conversion r => "conversion failed: " ++ r
  | .notSerializable d => "value cannot be serialized as JSON: double " ++ d.text
  | .tooDeep => "evaluation nesting exceeds maximum depth of " ++ maxDepth.repr

end EventStream
