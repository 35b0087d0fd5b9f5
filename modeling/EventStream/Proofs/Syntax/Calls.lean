import EventStream.Expr.Parser
import EventStream.Proofs.Traversal

namespace EventStream.Parser

/-- The functions of the parser. Those that go on from what was read are the rest of a loop. -/
inductive Routine where
  | expression
  | chain (level : Level)
  | chainFrom (level : Level) (left : Expr)
  | operand (level : Level)
  | signed
  | selection
  | selectionFrom (e : Expr)
  | primary
  | elements (close : Symbol)
  | elementsFrom (close : Symbol) (done : List Expr)
  | entries
  | entriesFrom (done : List (String × Expr))

/-- What a function reads. -/
@[reducible]
def Routine.Result : Routine → Type
  | .expression | .chain _ | .chainFrom _ _ | .operand _ | .signed | .selection
  | .selectionFrom _ | .primary => Expr
  | .elements _ | .elementsFrom _ _ => List Expr
  | .entries | .entriesFrom _ => List (String × Expr)

structure Call where
  routine : Routine
  room : Nat
  tokens : Tokens

/-- What a call returns: what it read and the tokens that are left. -/
abbrev Call.Result (c : Call) : Type :=
  c.routine.Result × Tokens

/-- What an amount of fuel makes of a call. -/
def answer (fuel : Nat) : (c : Call) → Except Failure c.Result
  | ⟨.expression, room, ts⟩ => expression fuel room ts
  | ⟨.chain level, room, ts⟩ => chain fuel level room ts
  | ⟨.chainFrom level left, room, ts⟩ => chainFrom fuel level left room ts
  | ⟨.operand level, room, ts⟩ => operand fuel level room ts
  | ⟨.signed, room, ts⟩ => signed fuel room ts
  | ⟨.selection, room, ts⟩ => selection fuel room ts
  | ⟨.selectionFrom e, room, ts⟩ => selectionFrom fuel e room ts
  | ⟨.primary, room, ts⟩ => primary fuel room ts
  | ⟨.elements close, room, ts⟩ => elements fuel close room ts
  | ⟨.elementsFrom close done, room, ts⟩ => elementsFrom fuel close done room ts
  | ⟨.entries, room, ts⟩ => entries fuel room ts
  | ⟨.entriesFrom done, room, ts⟩ => entriesFrom fuel done room ts

/-- A computation that makes calls and goes on with what they return. -/
inductive Body (α : Type) where
  | ends (x : Except Failure α)
  | calls (c : Call) (next : c.Result → Body α)

namespace Body

variable {α β : Type}

def bind : Body α → (α → Body β) → Body β
  | .ends (.ok a), f => f a
  | .ends (.error e), _ => .ends (.error e)
  | .calls c next, f => .calls c fun r => (next r).bind f

instance : Monad Body where
  pure a := .ends (.ok a)
  bind := bind

def call (c : Call) : Body c.Result :=
  .calls c pure

/-- Runs a body with an answer for each call. -/
def run (answers : (c : Call) → Except Failure c.Result) : Body α → Except Failure α
  | .ends x => x
  | .calls c next => answers c >>= fun r => (next r).run answers

end Body

open Body (ends call)

def expressionBody : Nat → Tokens → Body (Expr × Tokens)
  | 0, _ => ends tooDeep
  | room + 1, ts => do
    let (condition, ts) ← call ⟨.chain .or, room, ts⟩
    if peek ts = .symbol .question then
      let (yes, ts) ← call ⟨.chain .or, room, ts.drop 1⟩
      let ts ← ends (expect .colon ts)
      let (no, ts) ← call ⟨.expression, room, ts⟩
      return (.conditional condition yes no, ts)
    else return (condition, ts)

def chainBody (level : Level) (room : Nat) (ts : Tokens) : Body (Expr × Tokens) := do
  let (left, ts) ← call ⟨.operand level, room, ts⟩
  call ⟨.chainFrom level left, room, ts⟩

def chainFromBody (level : Level) (left : Expr) (room : Nat) (ts : Tokens) :
    Body (Expr × Tokens) :=
  match level.operator? (peek ts), room with
  | none, _ => return (left, ts)
  | some _, 0 => ends tooDeep
  | some op, room + 1 => do
    let (right, ts) ← call ⟨.operand level, room, ts.drop 1⟩
    call ⟨.chainFrom level (.binary op left right), room, ts⟩

def operandBody (level : Level) (room : Nat) (ts : Tokens) : Body (Expr × Tokens) :=
  match level.tighter? with
  | some l => call ⟨.chain l, room, ts⟩
  | none => call ⟨.signed, room, ts⟩

def signedBody (room : Nat) (ts : Tokens) : Body (Expr × Tokens) :=
  match sign? (peek ts), room with
  | none, room => call ⟨.selection, room, ts⟩
  | some _, 0 => ends tooDeep
  | some op, room + 1 => do
    let (e, ts) ← call ⟨.signed, room, ts.drop 1⟩
    return (.unary op e, ts)

def selectionBody (room : Nat) (ts : Tokens) : Body (Expr × Tokens) := do
  let (e, ts) ← call ⟨.primary, room, ts⟩
  call ⟨.selectionFrom e, room, ts⟩

def selectionFromBody (e : Expr) (room : Nat) (ts : Tokens) : Body (Expr × Tokens) :=
  match peek ts, room with
  | .symbol .dot, 0 => ends tooDeep
  | .symbol .dot, room + 1 => do
    let (field, ts) ← ends (name (ts.drop 1))
    if peek ts = .symbol .leftParen then
      let (arguments, ts) ← call ⟨.elements .rightParen, room, ts.drop 1⟩
      call ⟨.selectionFrom (.call field (some e) arguments), room, ts⟩
    else call ⟨.selectionFrom (.member e field), room, ts⟩
  | .symbol .leftBracket, 0 => ends tooDeep
  | .symbol .leftBracket, room + 1 => do
    let (position, ts) ← call ⟨.expression, room, ts.drop 1⟩
    let ts ← ends (expect .rightBracket ts)
    call ⟨.selectionFrom (.index e position), room, ts⟩
  | _, _ => return (e, ts)

def primaryBody (room : Nat) (ts : Tokens) : Body (Expr × Tokens) :=
  match peek ts with
  | .keyword .nullWord => return (.null, ts.drop 1)
  | .keyword .trueWord => return (.bool true, ts.drop 1)
  | .keyword .falseWord => return (.bool false, ts.drop 1)
  | .integer n => return (.int n, ts.drop 1)
  | .double d => return (.double d, ts.drop 1)
  | .string raw => do
    let s ← ends (stringOf raw)
    return (.string s, ts.drop 1)
  | .identifier n =>
    if peek (ts.drop 1) = .symbol .leftParen then do
      let (arguments, ts) ← call ⟨.elements .rightParen, room, ts.drop 2⟩
      let e ← ends (callOf n arguments)
      return (e, ts)
    else return (.variable n, ts.drop 1)
  | .symbol .leftParen => do
    let (e, ts) ← call ⟨.expression, room, ts.drop 1⟩
    let ts ← ends (expect .rightParen ts)
    return (e, ts)
  | .symbol .leftBracket => do
    let (items, ts) ← call ⟨.elements .rightBracket, room, ts.drop 1⟩
    return (.list items, ts)
  | .symbol .leftBrace => do
    let (entries, ts) ← call ⟨.entries, room, ts.drop 1⟩
    return (.map entries, ts)
  | .symbol _ | .keyword .inWord | .invalid _ | .ending => ends (unexpected "expression" ts)

def elementsBody (close : Symbol) (room : Nat) (ts : Tokens) : Body (List Expr × Tokens) :=
  if peek ts = .symbol close then return ([], ts.drop 1)
  else call ⟨.elementsFrom close [], room, ts⟩

def elementsFromBody (close : Symbol) (done : List Expr) (room : Nat) (ts : Tokens) :
    Body (List Expr × Tokens) := do
  let (e, ts) ← call ⟨.expression, room, ts⟩
  if peek ts = .symbol .comma ∧ peek (ts.drop 1) ≠ .symbol close then
    call ⟨.elementsFrom close (e :: done), room, ts.drop 1⟩
  else
    let ts ← ends (expect close (if peek ts = .symbol .comma then ts.drop 1 else ts))
    return ((e :: done).reverse, ts)

def entriesBody (room : Nat) (ts : Tokens) : Body (List (String × Expr) × Tokens) :=
  if peek ts = .symbol .rightBrace then return ([], ts.drop 1)
  else call ⟨.entriesFrom [], room, ts⟩

def entriesFromBody (done : List (String × Expr)) (room : Nat) (ts : Tokens) :
    Body (List (String × Expr) × Tokens) :=
  match peek ts with
  | .string raw => do
    let key ← ends (stringOf raw)
    let ts ← ends (expect .colon (ts.drop 1))
    let (e, ts) ← call ⟨.expression, room, ts⟩
    if peek ts = .symbol .comma ∧ peek (ts.drop 1) ≠ .symbol .rightBrace then
      call ⟨.entriesFrom ((key, e) :: done), room, ts.drop 1⟩
    else
      let ts ← ends (expect .rightBrace (if peek ts = .symbol .comma then ts.drop 1 else ts))
      return (((key, e) :: done).reverse, ts)
  | _ => ends (unexpected "string map key" ts)

def Call.body : (c : Call) → Body c.Result
  | ⟨.expression, room, ts⟩ => expressionBody room ts
  | ⟨.chain level, room, ts⟩ => chainBody level room ts
  | ⟨.chainFrom level left, room, ts⟩ => chainFromBody level left room ts
  | ⟨.operand level, room, ts⟩ => operandBody level room ts
  | ⟨.signed, room, ts⟩ => signedBody room ts
  | ⟨.selection, room, ts⟩ => selectionBody room ts
  | ⟨.selectionFrom e, room, ts⟩ => selectionFromBody e room ts
  | ⟨.primary, room, ts⟩ => primaryBody room ts
  | ⟨.elements close, room, ts⟩ => elementsBody close room ts
  | ⟨.elementsFrom close done, room, ts⟩ => elementsFromBody close done room ts
  | ⟨.entries, room, ts⟩ => entriesBody room ts
  | ⟨.entriesFrom done, room, ts⟩ => entriesFromBody done room ts

section
variable {α β : Type} {answers : (c : Call) → Except Failure c.Result}
variable {fuel room : Nat} {ts : Tokens} {level : Level} {close : Symbol} {left : Expr}

theorem Body.run_bind (x : Body α) (f : α → Body β) :
    (x >>= f).run answers = x.run answers >>= fun a => (f a).run answers := by
  induction x with
  | ends x => cases x <;> rfl
  | calls c next ih =>
    change (answers c >>= fun r => (next r >>= f).run answers) = _
    simp only [ih]
    cases h : answers c <;> simp [run, h, Bind.bind, Except.bind]

theorem Body.run_call (c : Call) : (call c).run answers = answers c := by
  change answers c >>= pure = _
  cases answers c <;> rfl

theorem answer_eq_run (c : Call) : answer fuel c = (call c).run (answer fuel) :=
  (Body.run_call c).symm

/-- Two computations that begin with one call and go on alike. -/
theorem Body.eq_run_call (c : Call) {x : Except Failure c.Result} {f : c.Result → Except Failure β}
    {g : c.Result → Body β} (hx : x = answers c) (hf : ∀ r, f r = (g r).run answers) :
    x >>= f = (call c >>= g).run answers := by
  rw [run_bind, run_call, hx]
  exact congrArg _ (funext hf)

/-- Two computations that begin without a call and go on alike. -/
theorem Body.eq_run_ends (x : Except Failure α) {f : α → Except Failure β} {g : α → Body β}
    (hf : ∀ a, f a = (g a).run answers) : x >>= f = (ends x >>= g).run answers := by
  rw [run_bind]
  exact congrArg _ (funext hf)

theorem expression_eq_run :
    expression (fuel + 1) room ts = (expressionBody room ts).run (answer fuel) := by
  cases room with
  | zero => rfl
  | succ room =>
    refine Body.eq_run_call ⟨.chain .or, room, ts⟩ rfl fun ⟨c, ts⟩ => ?_
    dsimp only
    split
    · refine Body.eq_run_call ⟨.chain .or, room, _⟩ rfl fun ⟨y, ts⟩ => ?_
      refine Body.eq_run_ends (expect .colon ts) fun ts => ?_
      exact Body.eq_run_call ⟨.expression, room, ts⟩ rfl fun _ => rfl
    · rfl

theorem chain_eq_run :
    chain (fuel + 1) level room ts = (chainBody level room ts).run (answer fuel) := by
  refine Body.eq_run_call ⟨.operand level, room, ts⟩ rfl fun ⟨left, ts⟩ => ?_
  exact answer_eq_run ⟨.chainFrom level left, room, ts⟩

theorem chainFrom_eq_run : chainFrom (fuel + 1) level left room ts =
    (chainFromBody level left room ts).run (answer fuel) := by
  unfold chainFrom chainFromBody
  cases level.operator? (peek ts) with
  | none => rfl
  | some op =>
    cases room with
    | zero => rfl
    | succ room =>
      refine Body.eq_run_call ⟨.operand level, room, ts.drop 1⟩ rfl fun ⟨right, ts⟩ => ?_
      exact answer_eq_run ⟨.chainFrom level (.binary op left right), room, ts⟩

theorem operand_eq_run :
    operand (fuel + 1) level room ts = (operandBody level room ts).run (answer fuel) := by
  unfold operand operandBody
  cases level.tighter? with
  | none => exact answer_eq_run ⟨.signed, room, ts⟩
  | some l => exact answer_eq_run ⟨.chain l, room, ts⟩

theorem signed_eq_run :
    signed (fuel + 1) room ts = (signedBody room ts).run (answer fuel) := by
  unfold signed signedBody
  cases sign? (peek ts) with
  | none => exact answer_eq_run ⟨.selection, room, ts⟩
  | some op =>
    cases room with
    | zero => rfl
    | succ room => exact Body.eq_run_call ⟨.signed, room, ts.drop 1⟩ rfl fun _ => rfl

theorem selection_eq_run :
    selection (fuel + 1) room ts = (selectionBody room ts).run (answer fuel) := by
  refine Body.eq_run_call ⟨.primary, room, ts⟩ rfl fun ⟨e, ts⟩ => ?_
  exact answer_eq_run ⟨.selectionFrom e, room, ts⟩

theorem selectionFrom_eq_run :
    selectionFrom (fuel + 1) left room ts = (selectionFromBody left room ts).run (answer fuel) := by
  unfold selectionFrom selectionFromBody
  generalize peek ts = t
  cases t with
  | symbol s =>
    cases s with
    | dot =>
      cases room with
      | zero => rfl
      | succ room =>
        refine Body.eq_run_ends (name (ts.drop 1)) fun ⟨field, ts⟩ => ?_
        dsimp only
        split
        · refine Body.eq_run_call ⟨.elements .rightParen, room, ts.drop 1⟩ rfl fun ⟨us, ts⟩ => ?_
          exact answer_eq_run ⟨.selectionFrom (.call field (some left) us), room, ts⟩
        · exact answer_eq_run ⟨.selectionFrom (.member left field), room, ts⟩
    | leftBracket =>
      cases room with
      | zero => rfl
      | succ room =>
        refine Body.eq_run_call ⟨.expression, room, ts.drop 1⟩ rfl fun ⟨position, ts⟩ => ?_
        refine Body.eq_run_ends (expect .rightBracket ts) fun ts => ?_
        exact answer_eq_run ⟨.selectionFrom (.index left position), room, ts⟩
    | _ => rfl
  | _ => rfl

theorem primary_eq_run :
    primary (fuel + 1) room ts = (primaryBody room ts).run (answer fuel) := by
  unfold primary primaryBody
  generalize peek ts = t
  cases t with
  | keyword k => cases k <;> rfl
  | integer | double | invalid | ending => rfl
  | string raw => exact Body.eq_run_ends (stringOf raw) fun _ => rfl
  | identifier n =>
    dsimp only
    split
    · refine Body.eq_run_call ⟨.elements .rightParen, room, ts.drop 2⟩ rfl fun ⟨arguments, ts⟩ => ?_
      exact Body.eq_run_ends (callOf n arguments) fun _ => rfl
    · rfl
  | symbol s =>
    cases s with
    | leftParen =>
      refine Body.eq_run_call ⟨.expression, room, ts.drop 1⟩ rfl fun ⟨e, ts⟩ => ?_
      exact Body.eq_run_ends (expect .rightParen ts) fun _ => rfl
    | leftBracket =>
      exact Body.eq_run_call ⟨.elements .rightBracket, room, ts.drop 1⟩ rfl fun _ => rfl
    | leftBrace => exact Body.eq_run_call ⟨.entries, room, ts.drop 1⟩ rfl fun _ => rfl
    | _ => rfl

theorem elements_eq_run :
    elements (fuel + 1) close room ts = (elementsBody close room ts).run (answer fuel) := by
  unfold elements elementsBody
  split
  · rfl
  · exact answer_eq_run ⟨.elementsFrom close [], room, ts⟩

theorem elementsFrom_eq_run {done : List Expr} : elementsFrom (fuel + 1) close done room ts =
    (elementsFromBody close done room ts).run (answer fuel) := by
  refine Body.eq_run_call ⟨.expression, room, ts⟩ rfl fun ⟨e, ts⟩ => ?_
  dsimp only
  split
  · exact answer_eq_run ⟨.elementsFrom close (e :: done), room, ts.drop 1⟩
  · exact Body.eq_run_ends (expect close _) fun _ => rfl

theorem entries_eq_run :
    entries (fuel + 1) room ts = (entriesBody room ts).run (answer fuel) := by
  unfold entries entriesBody
  split
  · rfl
  · exact answer_eq_run ⟨.entriesFrom [], room, ts⟩

theorem entriesFrom_eq_run {done : List (String × Expr)} : entriesFrom (fuel + 1) done room ts =
    (entriesFromBody done room ts).run (answer fuel) := by
  unfold entriesFrom entriesFromBody
  generalize peek ts = t
  cases t with
  | string raw =>
    refine Body.eq_run_ends (stringOf raw) fun key => ?_
    refine Body.eq_run_ends (expect .colon (ts.drop 1)) fun ts => ?_
    refine Body.eq_run_call ⟨.expression, room, ts⟩ rfl fun ⟨e, ts⟩ => ?_
    dsimp only
    split
    · exact answer_eq_run ⟨.entriesFrom ((key, e) :: done), room, ts.drop 1⟩
    · exact Body.eq_run_ends (expect .rightBrace _) fun _ => rfl
  | _ => rfl

/-- Without fuel no call is answered, and with more of it the body is run. -/
theorem answer_zero (c : Call) : answer 0 c = .error .outOfFuel := by
  obtain ⟨f, room, ts⟩ := c
  cases f <;> rfl

theorem answer_succ (c : Call) : answer (fuel + 1) c = c.body.run (answer fuel) := by
  obtain ⟨f, room, ts⟩ := c
  cases f with
  | expression => exact expression_eq_run
  | chain => exact chain_eq_run
  | chainFrom => exact chainFrom_eq_run
  | operand => exact operand_eq_run
  | signed => exact signed_eq_run
  | selection => exact selection_eq_run
  | selectionFrom => exact selectionFrom_eq_run
  | primary => exact primary_eq_run
  | elements => exact elements_eq_run
  | elementsFrom => exact elementsFrom_eq_run
  | entries => exact entries_eq_run
  | entriesFrom => exact entriesFrom_eq_run

end

end EventStream.Parser
