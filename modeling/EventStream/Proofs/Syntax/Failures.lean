import EventStream.Proofs.Expr.Parts
import EventStream.Proofs.Syntax.Accepted

namespace EventStream

namespace Parser

/-- How the parser can fail on some of these tokens: with a token that it does not expect, an escape
in one of the strings, or a call of `has` on anything but one selection. -/
inductive Refuses (all : Tokens) : Failure → Prop
  | outOfFuel : Refuses all .outOfFuel
  | tooDeep : Refuses all (.error .tooDeep)
  | unexpected {position expected found} :
      Refuses all (.error (.unexpectedToken position expected found))
  | escape {l raw text} : l ∈ all → l.token = .string raw →
      unescape raw = .error (.invalidEscape text) → Refuses all (.error (.invalidEscape text))
  | arity {found} : Refuses all (.error (.arity "has" 1 found))
  | invalidHas : Refuses all (.error .invalidHas)

/-- What is left are some of these tokens, and a failure is one that they can cause. -/
def Reads {α : Type} (all : Tokens) (x : Except Failure (α × Tokens)) : Prop :=
  Yields (fun r => r.2 ⊆ all) (Refuses all) x

section
variable {α : Type} {P : α → Prop} {all ts : Tokens} {room : Nat}

theorem drop_subset (h : ts ⊆ all) (n : Nat) : ts.drop n ⊆ all :=
  List.Subset.trans (List.drop_subset n ts) h

theorem yields_tooDeep : Yields P (Refuses all) tooDeep :=
  yields_error .tooDeep

theorem yields_unexpected {expected : String} : Yields P (Refuses all) (unexpected expected ts) :=
  yields_error .unexpected

theorem expect_yields (s : Symbol) (h : ts ⊆ all) :
    Yields (· ⊆ all) (Refuses all) (expect s ts) := by
  unfold expect
  split
  · exact yields_ok (drop_subset h 1)
  · exact yields_unexpected

/-- The closing symbol of a list, which one more comma may precede. -/
theorem closing_yields (close : Symbol) (h : ts ⊆ all) : Yields (· ⊆ all) (Refuses all)
    (expect close (if peek ts = .symbol .comma then ts.drop 1 else ts)) := by
  refine expect_yields close ?_
  split
  · exact drop_subset h 1
  · exact h

theorem name_reads (h : ts ⊆ all) : Reads all (name ts) := by
  unfold name
  split
  · exact yields_ok (drop_subset h 1)
  · exact yields_unexpected

theorem callOf_yields (function : String) (arguments : List Expr) :
    Yields (fun _ => True) (Refuses all) (callOf function arguments) := by
  unfold callOf
  split
  · split
    · exact yields_ok trivial
    · exact yields_error .invalidHas
    · exact yields_error .arity
  · exact yields_ok trivial

/-- Nothing but an escape can be wrong with the body of a string. -/
theorem exists_invalidEscape {raw : List Char} {e : CompileError} (h : unescape raw = .error e) :
    ∃ text, e = .invalidEscape text := by
  fun_induction unescape raw with
  | case1 c r d hd ih => exact ih (map_eq_error.mp h)
  | case2 c r hnone => exact ⟨_, (Except.error.inj h).symm⟩
  | case3 => exact ⟨_, (Except.error.inj h).symm⟩
  | case4 c r _ _ ih => exact ih (map_eq_error.mp h)
  | case5 => cases h

theorem stringOf_yields {raw : List Char} (h : ts ⊆ all) (hp : peek ts = .string raw) :
    Yields (fun _ => True) (Refuses all) (stringOf raw) := by
  unfold stringOf
  split
  next => exact yields_ok trivial
  next e he =>
    obtain ⟨text, rfl⟩ := exists_invalidEscape he
    cases ts with
    | nil => cases hp
    | cons l ts => exact yields_error (.escape (h List.mem_cons_self) hp he)

end

/-- What each function says with an amount of fuel. -/
structure Failing (all : Tokens) (fuel : Nat) : Prop where
  expression {room ts} : ts ⊆ all → Reads all (expression fuel room ts)
  chain {level room ts} : ts ⊆ all → Reads all (chain fuel level room ts)
  chainFrom {level left room ts} : ts ⊆ all → Reads all (chainFrom fuel level left room ts)
  operand {level room ts} : ts ⊆ all → Reads all (operand fuel level room ts)
  signed {room ts} : ts ⊆ all → Reads all (signed fuel room ts)
  selection {room ts} : ts ⊆ all → Reads all (selection fuel room ts)
  selectionFrom {e room ts} : ts ⊆ all → Reads all (selectionFrom fuel e room ts)
  primary {room ts} : ts ⊆ all → Reads all (primary fuel room ts)
  elements {close room ts} : ts ⊆ all → Reads all (elements fuel close room ts)
  elementsFrom {close done room ts} : ts ⊆ all → Reads all (elementsFrom fuel close done room ts)
  entries {room ts} : ts ⊆ all → Reads all (entries fuel room ts)
  entriesFrom {done room ts} : ts ⊆ all → Reads all (entriesFrom fuel done room ts)

section
variable {all ts : Tokens} {fuel room : Nat} {level : Level} {close : Symbol} {left : Expr}
  {done : List Expr} {found : List (String × Expr)} (ih : Failing all fuel) (h : ts ⊆ all)

include ih h

theorem expression_failing : Reads all (expression (fuel + 1) room ts) := by
  cases room with
  | zero => exact yields_tooDeep
  | succ room =>
    refine .bind (ih.chain h) fun ⟨c, ts⟩ h => ?_
    dsimp only at h ⊢
    split
    · refine .bind (ih.chain (drop_subset h 1)) fun ⟨y, ts⟩ h => ?_
      refine .bind (expect_yields .colon h) fun ts h => ?_
      exact .bind (ih.expression h) fun _ h => yields_ok h
    · exact yields_ok h

theorem chain_failing : Reads all (chain (fuel + 1) level room ts) :=
  .bind (ih.operand h) fun _ h => ih.chainFrom h

theorem chainFrom_failing : Reads all (chainFrom (fuel + 1) level left room ts) := by
  unfold chainFrom
  split
  · exact yields_ok h
  · exact yields_tooDeep
  · exact .bind (ih.operand (drop_subset h 1)) fun _ h => ih.chainFrom h

theorem operand_failing : Reads all (operand (fuel + 1) level room ts) := by
  unfold operand
  split
  · exact ih.chain h
  · exact ih.signed h

theorem signed_failing : Reads all (signed (fuel + 1) room ts) := by
  unfold signed
  split
  · exact ih.selection h
  · exact yields_tooDeep
  · exact .bind (ih.signed (drop_subset h 1)) fun _ h => yields_ok h

theorem selection_failing : Reads all (selection (fuel + 1) room ts) :=
  .bind (ih.primary h) fun _ h => ih.selectionFrom h

theorem selectionFrom_failing : Reads all (selectionFrom (fuel + 1) left room ts) := by
  unfold selectionFrom
  split
  · exact yields_tooDeep
  · refine .bind (name_reads (drop_subset h 1)) fun ⟨field, ts⟩ h => ?_
    dsimp only at h ⊢
    split
    · exact .bind (ih.elements (drop_subset h 1)) fun _ h => ih.selectionFrom h
    · exact ih.selectionFrom h
  · exact yields_tooDeep
  · refine .bind (ih.expression (drop_subset h 1)) fun ⟨position, ts⟩ h => ?_
    exact .bind (expect_yields .rightBracket h) fun _ h => ih.selectionFrom h
  · exact yields_ok h

theorem primary_failing : Reads all (primary (fuel + 1) room ts) := by
  unfold primary
  split
  next => exact yields_ok (drop_subset h 1)
  next => exact yields_ok (drop_subset h 1)
  next => exact yields_ok (drop_subset h 1)
  next => exact yields_ok (drop_subset h 1)
  next => exact yields_ok (drop_subset h 1)
  next hp => exact .bind (stringOf_yields h hp) fun _ _ => yields_ok (drop_subset h 1)
  next n _ =>
    split
    · refine .bind (ih.elements (drop_subset h 2)) fun ⟨arguments, ts⟩ h => ?_
      exact .bind (callOf_yields n arguments) fun _ _ => yields_ok h
    · exact yields_ok (drop_subset h 1)
  next =>
    refine .bind (ih.expression (drop_subset h 1)) fun ⟨e, ts⟩ h => ?_
    exact .bind (expect_yields .rightParen h) fun _ h => yields_ok h
  next => exact .bind (ih.elements (drop_subset h 1)) fun _ h => yields_ok h
  next => exact .bind (ih.entries (drop_subset h 1)) fun _ h => yields_ok h
  all_goals exact yields_unexpected

theorem elements_failing : Reads all (elements (fuel + 1) close room ts) := by
  unfold elements
  split
  · exact yields_ok (drop_subset h 1)
  · exact ih.elementsFrom h

theorem elementsFrom_failing : Reads all (elementsFrom (fuel + 1) close done room ts) := by
  refine .bind (ih.expression h) fun ⟨e, ts⟩ h => ?_
  dsimp only at h ⊢
  split
  · exact ih.elementsFrom (drop_subset h 1)
  · exact .bind (closing_yields close h) fun _ h => yields_ok h

theorem entries_failing : Reads all (entries (fuel + 1) room ts) := by
  unfold entries
  split
  · exact yields_ok (drop_subset h 1)
  · exact ih.entriesFrom h

theorem entriesFrom_failing : Reads all (entriesFrom (fuel + 1) found room ts) := by
  unfold entriesFrom
  split
  next hp =>
    refine .bind (stringOf_yields h hp) fun key _ => ?_
    refine .bind (expect_yields .colon (drop_subset h 1)) fun ts h => ?_
    refine .bind (ih.expression h) fun ⟨e, ts⟩ h => ?_
    dsimp only at h ⊢
    split
    · exact ih.entriesFrom (drop_subset h 1)
    · exact .bind (closing_yields .rightBrace h) fun _ h => yields_ok h
  next => exact yields_unexpected

end

theorem failing (all : Tokens) (fuel : Nat) : Failing all fuel := by
  induction fuel with
  | zero => constructor <;> intros <;> exact yields_error .outOfFuel
  | succ fuel ih =>
    exact {
      expression := expression_failing ih
      chain := chain_failing ih
      chainFrom := chainFrom_failing ih
      operand := operand_failing ih
      signed := signed_failing ih
      selection := selection_failing ih
      selectionFrom := selectionFrom_failing ih
      primary := primary_failing ih
      elements := elements_failing ih
      elementsFrom := elementsFrom_failing ih
      entries := entries_failing ih
      entriesFrom := entriesFrom_failing ih }

theorem parse_refuses {source : String} {e : CompileError}
    (h : Expr.parse source = .error e) : Refuses (tokens source) (.error e) := by
  have hread : Yields (fun _ => True) (Refuses (tokens source)) (parse (tokens source)) := by
    refine .bind ((failing _ _).expression (List.Subset.refl _)) fun ⟨e, ts⟩ _ => ?_
    dsimp only
    split
    · exact yields_ok trivial
    · exact yields_unexpected
  unfold Expr.parse at h
  split at h
  next => cases h
  next he => exact Except.error.inj h ▸ hread.2 _ he
  next => exact Except.error.inj h ▸ .tooDeep

end Parser

section
variable {declared : List String}

/-- How the checker can fail: with names, types and numbers of arguments that it does not know, and
with too many levels. -/
def CompileError.IsTyping : CompileError → Prop
  | .undeclaredReference _ | .unknownFunction _ | .arity _ _ _ | .type _ | .tooDeep => True
  | _ => False

theorem isTyping_of_ite {c : Prop} [Decidable c] {t : StaticType} {err : TypeError} :
    Yields (fun _ => True) CompileError.IsTyping (if c then .ok t else .error (.type err)) := by
  split
  · exact yields_ok trivial
  · exact yields_error trivial

theorem search_isTyping (function : String) (target needle : StaticType) :
    Yields (fun _ => True) CompileError.IsTyping (Typing.search function target needle) := by
  unfold Typing.search
  split
  · exact yields_error trivial
  · split
    · exact yields_error trivial
    · exact yields_ok trivial

theorem call_isTyping (function : String) (target : Option StaticType)
    (arguments : List StaticType) :
    Yields (fun _ => True) CompileError.IsTyping (Typing.call function target arguments) := by
  unfold Typing.call
  dsimp only
  split
  next => exact isTyping_of_ite
  next => exact yields_error trivial
  next => exact isTyping_of_ite
  next => exact yields_error trivial
  next => exact search_isTyping _ _ _
  next => exact search_isTyping _ _ _
  next => exact search_isTyping _ _ _
  next => exact yields_error trivial
  next => exact yields_error trivial
  next => exact yields_error trivial
  next => exact isTyping_of_ite
  next => exact isTyping_of_ite
  next => exact isTyping_of_ite
  all_goals exact yields_error trivial

theorem check_isTyping (room : Nat) (e : Expr) :
    Yields (fun _ => True) CompileError.IsTyping (Typing.check declared room e) := by
  induction room generalizing e with
  | zero => exact yields_error trivial
  | succ room ih =>
    cases e with
    | null | bool | int | double | string => exact yields_ok trivial
    | list items => exact .bind (yields_mapM fun e _ => ih e) fun _ _ => yields_ok trivial
    | map entries => exact .bind (yields_mapM fun e _ => ih e.2) fun _ _ => yields_ok trivial
    | «variable» name =>
      rw [Typing.check]
      split
      · exact yields_ok trivial
      · exact yields_error trivial
    | member target field | has target field => exact .bind (ih target) fun _ _ => isTyping_of_ite
    | index target position =>
      exact .bind (ih target) fun _ _ => .bind (ih position) fun _ _ => isTyping_of_ite
    | unary op operand =>
      refine .bind (ih operand) fun t _ => ?_
      split
      · exact yields_ok trivial
      · exact yields_error trivial
    | binary op left right =>
      refine .bind (ih left) fun l _ => .bind (ih right) fun r _ => ?_
      split
      · exact yields_ok trivial
      · exact yields_error trivial
    | conditional condition yes no =>
      refine .bind (ih condition) fun c _ => ?_
      split
      · exact yields_error trivial
      · exact .bind (ih yes) fun _ _ => .bind (ih no) fun _ _ => yields_ok trivial
    | call function target arguments =>
      have htarget : Yields (fun _ => True) CompileError.IsTyping
          (target.mapM (Typing.check declared room)) := by
        refine ⟨fun _ _ => trivial, fun err herr => ?_⟩
        obtain ⟨e, _, he⟩ := option_mapM_error herr
        exact (ih e).2 err he
      refine .bind htarget fun t _ => ?_
      exact .bind (yields_mapM fun e _ => ih e) fun ts _ => call_isTyping function t ts

end

/-- Compilation takes the names, the tokens and the types one after another. -/
theorem Program.compile_eq_error {source : String} {declared : List String} {err : CompileError}
    (h : compile source declared = .error err) :
    (∃ v, (declared.find? fun v => !isIdentifier v) = some v ∧ err = .invalidVariable v) ∨
      (declared.find? fun v => !isIdentifier v) = none ∧
        (Parser.Refuses (tokens source) (.error err) ∨ err.IsTyping) := by
  unfold compile at h
  split at h
  next v hv => exact .inl ⟨v, hv, (Except.error.inj h).symm⟩
  next hnone =>
    refine .inr ⟨hnone, ?_⟩
    rcases bind_eq_error.mp h with h | ⟨e, _, h⟩
    · exact .inl (Parser.parse_refuses h)
    · rcases bind_eq_error.mp h with h | ⟨_, _, h⟩
      · exact .inr ((check_isTyping _ e).2 _ h)
      · cases h

end EventStream
