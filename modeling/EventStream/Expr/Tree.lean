import EventStream.Double.Basic

namespace EventStream

inductive UnaryOp where
  | not
  | negate
  deriving DecidableEq

inductive BinaryOp where
  | or
  | and
  | equal
  | notEqual
  | less
  | lessEqual
  | greater
  | greaterEqual
  | isIn
  | add
  | subtract
  | multiply
  | divide
  | modulus
  deriving DecidableEq

def UnaryOp.symbol : UnaryOp → String
  | .not => "!"
  | .negate => "-"

def BinaryOp.symbol : BinaryOp → String
  | .or => "||"
  | .and => "&&"
  | .equal => "=="
  | .notEqual => "!="
  | .less => "<"
  | .lessEqual => "<="
  | .greater => ">"
  | .greaterEqual => ">="
  | .isIn => "in"
  | .add => "+"
  | .subtract => "-"
  | .multiply => "*"
  | .divide => "/"
  | .modulus => "%"

inductive Expr where
  | null
  | bool (b : Bool)
  | int (n : Int64)
  | double (d : Double)
  | string (s : String)
  | list (items : List Expr)
  | map (entries : List (String × Expr))
  | variable (name : String)
  | member (target : Expr) (field : String)
  /-- Whether a map has a field. -/
  | has (target : Expr) (field : String)
  | index (target : Expr) (position : Expr)
  /-- A function on arguments, or on a target and arguments. -/
  | call (name : String) (target : Option Expr) (arguments : List Expr)
  | unary (op : UnaryOp) (operand : Expr)
  | binary (op : BinaryOp) (left right : Expr)
  | conditional (condition yes no : Expr)

/-- Trees are at most this deep, each in its own count for reading, checking and evaluating. -/
def maxDepth : Nat := 128

end EventStream
