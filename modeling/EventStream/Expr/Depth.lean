import EventStream.Expr.Parser
/-!
The parser with its counter: how deep the node lies that is being built. What goes deeper puts the
counter back when it has been read; within a loop the counter grows with each operator.
-/
namespace EventStream.Parser.Counted

/-- Where parsing fails, the counter stays as it is. -/
abbrev Counting := ExceptT Failure (StateM Nat)

/-- What comes of it with the counter at `depth`, and the counter then. -/
def Counting.at {α : Type} (x : Counting α) (depth : Nat) : Except Failure α × Nat :=
  x.run.run depth

def descend : Counting Unit := do
  modify (· + 1)
  if maxDepth < (← get) then throw (.error .tooDeep)

/-- The counter is put back after a success. -/
def restored {α : Type} (x : Counting α) : Counting α := do
  let base ← get
  let a ← x
  set base
  return a

/-- One level deeper, the counter is put back after a failure too. -/
def enclosed {α : Type} (x : Counting α) : Counting α := do
  let base ← get
  descend
  let result ← observing x
  set base
  result

mutual

def expression : Nat → Tokens → Counting (Expr × Tokens)
  | 0, _ => throw .outOfFuel
  | fuel + 1, ts => enclosed do
    let (condition, ts) ← chain fuel .or ts
    if peek ts = .symbol .question then
      let (yes, ts) ← chain fuel .or (ts.drop 1)
      let ts ← expect .colon ts
      let (no, ts) ← expression fuel ts
      return (.conditional condition yes no, ts)
    else return (condition, ts)
termination_by structural n => n

def chain : Nat → Level → Tokens → Counting (Expr × Tokens)
  | 0, _, _ => throw .outOfFuel
  | fuel + 1, level, ts => restored do
    let (left, ts) ← operand fuel level ts
    chainFrom fuel level left ts
termination_by structural n => n

def chainFrom : Nat → Level → Expr → Tokens → Counting (Expr × Tokens)
  | 0, _, _, _ => throw .outOfFuel
  | fuel + 1, level, left, ts =>
    match level.operator? (peek ts) with
    | none => return (left, ts)
    | some op => do
      descend
      let (right, ts) ← operand fuel level (ts.drop 1)
      chainFrom fuel level (.binary op left right) ts
termination_by structural n => n

def operand : Nat → Level → Tokens → Counting (Expr × Tokens)
  | 0, _, _ => throw .outOfFuel
  | fuel + 1, level, ts =>
    match level.tighter? with
    | some l => chain fuel l ts
    | none => signed fuel ts
termination_by structural n => n

def signed : Nat → Tokens → Counting (Expr × Tokens)
  | 0, _ => throw .outOfFuel
  | fuel + 1, ts =>
    match sign? (peek ts) with
    | none => selection fuel ts
    | some op => restored do
      descend
      let (e, ts) ← signed fuel (ts.drop 1)
      return (.unary op e, ts)
termination_by structural n => n

def selection : Nat → Tokens → Counting (Expr × Tokens)
  | 0, _ => throw .outOfFuel
  | fuel + 1, ts => restored do
    let (e, ts) ← primary fuel ts
    selectionFrom fuel e ts
termination_by structural n => n

def selectionFrom : Nat → Expr → Tokens → Counting (Expr × Tokens)
  | 0, _, _ => throw .outOfFuel
  | fuel + 1, e, ts =>
    match peek ts with
    | .symbol .dot => do
      descend
      let (field, ts) ← name (ts.drop 1)
      if peek ts = .symbol .leftParen then
        let (arguments, ts) ← elements fuel .rightParen (ts.drop 1)
        selectionFrom fuel (.call field (some e) arguments) ts
      else selectionFrom fuel (.member e field) ts
    | .symbol .leftBracket => do
      descend
      let (position, ts) ← expression fuel (ts.drop 1)
      let ts ← expect .rightBracket ts
      selectionFrom fuel (.index e position) ts
    | _ => return (e, ts)
termination_by structural n => n

def primary : Nat → Tokens → Counting (Expr × Tokens)
  | 0, _ => throw .outOfFuel
  | fuel + 1, ts =>
    match peek ts with
    | .keyword .nullWord => return (.null, ts.drop 1)
    | .keyword .trueWord => return (.bool true, ts.drop 1)
    | .keyword .falseWord => return (.bool false, ts.drop 1)
    | .integer n => return (.int n, ts.drop 1)
    | .double d => return (.double d, ts.drop 1)
    | .string raw => do
      let s ← stringOf raw
      return (.string s, ts.drop 1)
    | .identifier n =>
      if peek (ts.drop 1) = .symbol .leftParen then do
        let (arguments, ts) ← elements fuel .rightParen (ts.drop 2)
        let e ← callOf n arguments
        return (e, ts)
      else return (.variable n, ts.drop 1)
    | .symbol .leftParen => do
      let (e, ts) ← expression fuel (ts.drop 1)
      let ts ← expect .rightParen ts
      return (e, ts)
    | .symbol .leftBracket => do
      let (items, ts) ← elements fuel .rightBracket (ts.drop 1)
      return (.list items, ts)
    | .symbol .leftBrace => do
      let (entries, ts) ← entries fuel (ts.drop 1)
      return (.map entries, ts)
    | .symbol _ | .keyword .inWord | .invalid _ | .ending =>
      unexpected "expression" ts
termination_by structural n => n

def elements : Nat → Symbol → Tokens → Counting (List Expr × Tokens)
  | 0, _, _ => throw .outOfFuel
  | fuel + 1, close, ts =>
    if peek ts = .symbol close then return ([], ts.drop 1) else elementsFrom fuel close [] ts
termination_by structural n => n

def elementsFrom : Nat → Symbol → List Expr → Tokens → Counting (List Expr × Tokens)
  | 0, _, _, _ => throw .outOfFuel
  | fuel + 1, close, done, ts => do
    let (e, ts) ← expression fuel ts
    if peek ts = .symbol .comma ∧ peek (ts.drop 1) ≠ .symbol close then
      elementsFrom fuel close (e :: done) (ts.drop 1)
    else
      let ts ← expect close (if peek ts = .symbol .comma then ts.drop 1 else ts)
      return ((e :: done).reverse, ts)
termination_by structural n => n

def entries : Nat → Tokens → Counting (List (String × Expr) × Tokens)
  | 0, _ => throw .outOfFuel
  | fuel + 1, ts =>
    if peek ts = .symbol .rightBrace then return ([], ts.drop 1) else entriesFrom fuel [] ts
termination_by structural n => n

def entriesFrom : Nat → List (String × Expr) → Tokens → Counting (List (String × Expr) × Tokens)
  | 0, _, _ => throw .outOfFuel
  | fuel + 1, done, ts =>
    match peek ts with
    | .string raw => do
      let key ← stringOf raw
      let ts ← expect .colon (ts.drop 1)
      let (e, ts) ← expression fuel ts
      if peek ts = .symbol .comma ∧ peek (ts.drop 1) ≠ .symbol .rightBrace then
        entriesFrom fuel ((key, e) :: done) (ts.drop 1)
      else
        let ts ← expect .rightBrace (if peek ts = .symbol .comma then ts.drop 1 else ts)
        return (((key, e) :: done).reverse, ts)
    | _ => unexpected "string map key" ts
termination_by structural n => n

end

def parse (ts : Tokens) : Counting Expr := do
  let (e, ts) ← expression (fuelFor ts) ts
  if peek ts = .ending then return e else unexpected "end of expression" ts

end EventStream.Parser.Counted
