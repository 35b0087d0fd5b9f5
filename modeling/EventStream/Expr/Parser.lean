import EventStream.Expr.Error
import EventStream.Expr.Lexer
/-!
Expressions from tokens. Operators of one level group to the left, each level tighter than the one
before it: or, and, comparison, sum, product, sign, selection. `room` is how much deeper the tree
may still grow; every operator, selection and enclosed expression takes one step of it.
-/
namespace EventStream

namespace Parser

inductive Failure where
  | error (e : CompileError)
  | outOfFuel

abbrev Tokens := List Lexeme

def peek : Tokens → Token
  | [] => .ending
  | l :: _ => l.token

def position : Tokens → Nat
  | [] => 0
  | l :: _ => l.start

def unexpected {α : Type} (expected : String) (ts : Tokens) : Except Failure α :=
  .error (.error (.unexpectedToken (position ts) expected (peek ts)))

def tooDeep {α : Type} : Except Failure α :=
  .error (.error .tooDeep)

/-- The tokens after a symbol. -/
def expect (s : Symbol) (ts : Tokens) : Except Failure Tokens :=
  if peek ts = .symbol s then .ok (ts.drop 1) else unexpected (String.ofList s.chars) ts

/-- What the body of a string stands for. -/
def unescape : List Char → Except CompileError (List Char)
  | '\\' :: c :: r =>
    match [('n', '\n'), ('t', '\t'), ('r', '\r'), ('\\', '\\'), ('"', '"'),
        ('\'', '\'')].lookup c with
    | some d => (unescape r).map (d :: ·)
    | none => .error (.invalidEscape (String.ofList [c]))
  | ['\\'] => .error (.invalidEscape "")
  | c :: r => (unescape r).map (c :: ·)
  | [] => .ok []

def stringOf (raw : List Char) : Except Failure String :=
  match unescape raw with
  | .ok s => .ok (String.ofList s)
  | .error e => .error (.error e)

def name (ts : Tokens) : Except Failure (String × Tokens) :=
  match peek ts with
  | .identifier n => .ok (n, ts.drop 1)
  | _ => unexpected "identifier" ts

/-- The levels of operators with two operands, each with the next tighter one. -/
inductive Level where
  | or
  | and
  | comparison
  | sum
  | product

def Level.tighter? : Level → Option Level
  | .or => some .and
  | .and => some .comparison
  | .comparison => some .sum
  | .sum => some .product
  | .product => none

def Level.operator? : Level → Token → Option BinaryOp
  | .or, .symbol .or => some .or
  | .and, .symbol .and => some .and
  | .comparison, .symbol .equal => some .equal
  | .comparison, .symbol .notEqual => some .notEqual
  | .comparison, .symbol .less => some .less
  | .comparison, .symbol .lessEqual => some .lessEqual
  | .comparison, .symbol .greater => some .greater
  | .comparison, .symbol .greaterEqual => some .greaterEqual
  | .comparison, .keyword .inWord => some .isIn
  | .sum, .symbol .plus => some .add
  | .sum, .symbol .minus => some .subtract
  | .product, .symbol .times => some .multiply
  | .product, .symbol .divide => some .divide
  | .product, .symbol .modulus => some .modulus
  | _, _ => none

def sign? : Token → Option UnaryOp
  | .symbol .not => some .not
  | .symbol .minus => some .negate
  | _ => none

/-- A call by name; `has` is applied to one selection. -/
def callOf (function : String) (arguments : List Expr) : Except Failure Expr :=
  if function = "has" then
    match arguments with
    | [.member e f] => .ok (.has e f)
    | [_] => .error (.error .invalidHas)
    | _ => .error (.error (.arity "has" 1 arguments.length))
  else .ok (.call function none arguments)

mutual

def expression : Nat → Nat → Tokens → Except Failure (Expr × Tokens)
  | 0, _, _ => .error .outOfFuel
  | _ + 1, 0, _ => tooDeep
  | fuel + 1, room + 1, ts => do
    let (condition, ts) ← chain fuel .or room ts
    if peek ts = .symbol .question then
      let (yes, ts) ← chain fuel .or room (ts.drop 1)
      let ts ← expect .colon ts
      let (no, ts) ← expression fuel room ts
      .ok (.conditional condition yes no, ts)
    else .ok (condition, ts)
termination_by structural n => n

/-- Operands of a level with its operators between them. -/
def chain : Nat → Level → Nat → Tokens → Except Failure (Expr × Tokens)
  | 0, _, _, _ => .error .outOfFuel
  | fuel + 1, level, room, ts => do
    let (left, ts) ← operand fuel level room ts
    chainFrom fuel level left room ts
termination_by structural n => n

def chainFrom : Nat → Level → Expr → Nat → Tokens → Except Failure (Expr × Tokens)
  | 0, _, _, _, _ => .error .outOfFuel
  | fuel + 1, level, left, room, ts =>
    match level.operator? (peek ts), room with
    | none, _ => .ok (left, ts)
    | some _, 0 => tooDeep
    | some op, room + 1 => do
      let (right, ts) ← operand fuel level room (ts.drop 1)
      chainFrom fuel level (.binary op left right) room ts
termination_by structural n => n

def operand : Nat → Level → Nat → Tokens → Except Failure (Expr × Tokens)
  | 0, _, _, _ => .error .outOfFuel
  | fuel + 1, level, room, ts =>
    match level.tighter? with
    | some l => chain fuel l room ts
    | none => signed fuel room ts
termination_by structural n => n

def signed : Nat → Nat → Tokens → Except Failure (Expr × Tokens)
  | 0, _, _ => .error .outOfFuel
  | fuel + 1, room, ts =>
    match sign? (peek ts), room with
    | none, room => selection fuel room ts
    | some _, 0 => tooDeep
    | some op, room + 1 => do
      let (e, ts) ← signed fuel room (ts.drop 1)
      .ok (.unary op e, ts)
termination_by structural n => n

/-- A primary expression and the selections after it. -/
def selection : Nat → Nat → Tokens → Except Failure (Expr × Tokens)
  | 0, _, _ => .error .outOfFuel
  | fuel + 1, room, ts => do
    let (e, ts) ← primary fuel room ts
    selectionFrom fuel e room ts
termination_by structural n => n

def selectionFrom : Nat → Expr → Nat → Tokens → Except Failure (Expr × Tokens)
  | 0, _, _, _ => .error .outOfFuel
  | fuel + 1, e, room, ts =>
    match peek ts, room with
    | .symbol .dot, 0 => tooDeep
    | .symbol .dot, room + 1 => do
      let (field, ts) ← name (ts.drop 1)
      if peek ts = .symbol .leftParen then
        let (arguments, ts) ← elements fuel .rightParen room (ts.drop 1)
        selectionFrom fuel (.call field (some e) arguments) room ts
      else selectionFrom fuel (.member e field) room ts
    | .symbol .leftBracket, 0 => tooDeep
    | .symbol .leftBracket, room + 1 => do
      let (position, ts) ← expression fuel room (ts.drop 1)
      let ts ← expect .rightBracket ts
      selectionFrom fuel (.index e position) room ts
    | _, _ => .ok (e, ts)
termination_by structural n => n

def primary : Nat → Nat → Tokens → Except Failure (Expr × Tokens)
  | 0, _, _ => .error .outOfFuel
  | fuel + 1, room, ts =>
    match peek ts with
    | .keyword .nullWord => .ok (.null, ts.drop 1)
    | .keyword .trueWord => .ok (.bool true, ts.drop 1)
    | .keyword .falseWord => .ok (.bool false, ts.drop 1)
    | .integer n => .ok (.int n, ts.drop 1)
    | .double d => .ok (.double d, ts.drop 1)
    | .string raw => do
      let s ← stringOf raw
      .ok (.string s, ts.drop 1)
    | .identifier n =>
      if peek (ts.drop 1) = .symbol .leftParen then do
        let (arguments, ts) ← elements fuel .rightParen room (ts.drop 2)
        let e ← callOf n arguments
        .ok (e, ts)
      else .ok (.variable n, ts.drop 1)
    | .symbol .leftParen => do
      let (e, ts) ← expression fuel room (ts.drop 1)
      let ts ← expect .rightParen ts
      .ok (e, ts)
    | .symbol .leftBracket => do
      let (items, ts) ← elements fuel .rightBracket room (ts.drop 1)
      .ok (.list items, ts)
    | .symbol .leftBrace => do
      let (entries, ts) ← entries fuel room (ts.drop 1)
      .ok (.map entries, ts)
    | .symbol _ | .keyword .inWord | .invalid _ | .ending => unexpected "expression" ts
termination_by structural n => n

/-- Expressions with commas between them up to a closing symbol; one more comma may precede it. -/
def elements : Nat → Symbol → Nat → Tokens → Except Failure (List Expr × Tokens)
  | 0, _, _, _ => .error .outOfFuel
  | fuel + 1, close, room, ts =>
    if peek ts = .symbol close then .ok ([], ts.drop 1) else elementsFrom fuel close [] room ts
termination_by structural n => n

def elementsFrom : Nat → Symbol → List Expr → Nat → Tokens → Except Failure (List Expr × Tokens)
  | 0, _, _, _, _ => .error .outOfFuel
  | fuel + 1, close, done, room, ts => do
    let (e, ts) ← expression fuel room ts
    if peek ts = .symbol .comma ∧ peek (ts.drop 1) ≠ .symbol close then
      elementsFrom fuel close (e :: done) room (ts.drop 1)
    else
      let ts ← expect close (if peek ts = .symbol .comma then ts.drop 1 else ts)
      .ok ((e :: done).reverse, ts)
termination_by structural n => n

/-- The entries of a map up to its closing brace. -/
def entries : Nat → Nat → Tokens → Except Failure (List (String × Expr) × Tokens)
  | 0, _, _ => .error .outOfFuel
  | fuel + 1, room, ts =>
    if peek ts = .symbol .rightBrace then .ok ([], ts.drop 1) else entriesFrom fuel [] room ts
termination_by structural n => n

def entriesFrom : Nat → List (String × Expr) → Nat → Tokens →
    Except Failure (List (String × Expr) × Tokens)
  | 0, _, _, _ => .error .outOfFuel
  | fuel + 1, done, room, ts =>
    match peek ts with
    | .string raw => do
      let key ← stringOf raw
      let ts ← expect .colon (ts.drop 1)
      let (e, ts) ← expression fuel room ts
      if peek ts = .symbol .comma ∧ peek (ts.drop 1) ≠ .symbol .rightBrace then
        entriesFrom fuel ((key, e) :: done) room (ts.drop 1)
      else
        let ts ← expect .rightBrace (if peek ts = .symbol .comma then ts.drop 1 else ts)
        .ok (((key, e) :: done).reverse, ts)
    | _ => unexpected "string map key" ts
termination_by structural n => n

end

/-- Between two tokens at most fourteen steps are taken. -/
def fuelFor (ts : Tokens) : Nat :=
  16 * (ts.length + 1)

/-- An expression that takes all tokens up to the end. -/
def parse (ts : Tokens) : Except Failure Expr := do
  let (e, ts) ← expression (fuelFor ts) maxDepth ts
  if peek ts = .ending then .ok e else unexpected "end of expression" ts

end Parser

/-- The fuel always suffices; its end would count as depth. -/
def Expr.parse (source : String) : Except CompileError Expr :=
  match Parser.parse (tokens source) with
  | .ok e => .ok e
  | .error (.error e) => .error e
  | .error .outOfFuel => .error .tooDeep

end EventStream
