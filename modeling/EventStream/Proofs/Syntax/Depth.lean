import EventStream.Expr.Depth
import EventStream.Proofs.Syntax.Consumption

namespace EventStream.Parser.Counted

def answer (fuel : Nat) : (f : Routine) → Tokens → Counting (f.Result × Tokens)
  | .expression, ts => expression fuel ts
  | .chain level, ts => chain fuel level ts
  | .chainFrom level left, ts => chainFrom fuel level left ts
  | .operand level, ts => operand fuel level ts
  | .signed, ts => signed fuel ts
  | .selection, ts => selection fuel ts
  | .selectionFrom e, ts => selectionFrom fuel e ts
  | .primary, ts => primary fuel ts
  | .elements close, ts => elements fuel close ts
  | .elementsFrom close done, ts => elementsFrom fuel close done ts
  | .entries, ts => entries fuel ts
  | .entriesFrom done, ts => entriesFrom fuel done ts

section
variable {α β : Type} {depth room : Nat} {x : Counting α}

theorem at_bind {f : α → Counting β} :
    (x >>= f).at depth = match x.at depth with
      | (.ok a, after) => (f a).at after
      | (.error e, after) => (.error e, after) := by
  change (ExceptT.bindCont f (x.at depth).1 : StateM Nat _) (x.at depth).2 = _
  obtain ⟨_ | _, _⟩ := x.at depth <;> rfl

theorem at_descend : descend.at depth =
    (if maxDepth < depth + 1 then .error (.error .tooDeep) else .ok (), depth + 1) := by
  change (if maxDepth < depth + 1 then throw _ else pure () : Counting Unit).at (depth + 1) = _
  split <;> rfl

theorem at_restored :
    (restored x).at depth = match x.at depth with
      | (.ok a, _) => (.ok a, depth)
      | (.error e, after) => (.error e, after) :=
  at_bind (f := fun a => do set depth; pure a)

theorem at_observing :
    (observing x).at depth = (.ok (x.at depth).1, (x.at depth).2) := by
  unfold Counting.at ExceptT.run StateT.run
  simp only [observing, tryCatch, tryCatchThe, MonadExceptOf.tryCatch, ExceptT.tryCatch, ExceptT.mk,
    bind, ExceptT.bind, ExceptT.bindCont, StateT.bind]
  obtain ⟨_ | _, _⟩ := x depth <;> rfl

theorem at_enclosed : (enclosed x).at depth =
    if maxDepth < depth + 1 then (.error (.error .tooDeep), depth + 1)
    else ((x.at (depth + 1)).1, depth) := by
  have hbind : (enclosed x).at depth = (descend >>= fun _ => observing x >>= fun r => do
      set depth
      r).at depth := rfl
  rw [hbind, at_bind, at_descend]
  by_cases h : maxDepth < depth + 1
  · rw [if_pos h, if_pos h]
  · rw [if_neg h, if_neg h]
    simp only
    rw [at_bind, at_observing]
    rfl

/-- With the counter at `depth`, `x` comes to `y`. Unless the counter may grow, a success leaves it
where it was. -/
def Follows {α : Type} (grows : Bool) (depth : Nat) (x : Counting α) (y : Except Failure α) :
    Prop :=
  ∃ after, x.at depth = (y, after) ∧ (grows = false → ∀ a, y = .ok a → after = depth)

variable {grows : Bool} {y : Except Failure α}

theorem follows_pure (a : α) : Follows grows depth (pure a) (.ok a) :=
  ⟨depth, rfl, fun _ _ _ => rfl⟩

theorem follows_lift (y : Except Failure α) : Follows grows depth y y :=
  ⟨depth, rfl, fun _ _ _ => rfl⟩

theorem Follows.bind {f : α → Counting β} {g : α → Except Failure β} (h : Follows false depth x y)
    (hf : ∀ a, Follows grows depth (f a) (g a)) : Follows grows depth (x >>= f) (y >>= g) := by
  obtain ⟨after, hrun, hafter⟩ := h
  have hbind : (x >>= f).at depth = _ := at_bind
  rw [hrun] at hbind
  cases y with
  | error e => exact ⟨after, hbind, nofun⟩
  | ok a =>
    cases hafter rfl a rfl
    obtain ⟨last, hlast, hkept⟩ := hf a
    exact ⟨last, hbind.trans hlast, hkept⟩

theorem Follows.restored (h : Follows true depth x y) : Follows grows depth (restored x) y := by
  obtain ⟨after, hrun, _⟩ := h
  have hrestored : (Counted.restored x).at depth = _ := at_restored
  rw [hrun] at hrestored
  cases y with
  | error e => exact ⟨after, hrestored, nofun⟩
  | ok a => exact ⟨depth, hrestored, fun _ _ _ => rfl⟩

/-- At the limit there is no going deeper. -/
theorem follows_descend_limit {f : Unit → Counting α} (h : maxDepth - depth = 0) :
    Follows true depth (descend >>= f) tooDeep := by
  refine ⟨depth + 1, ?_, nofun⟩
  rw [at_bind, at_descend, if_pos (by omega)]
  rfl

theorem Follows.descend {f : Unit → Counting α} (h : maxDepth - depth = room + 1)
    (hf : Follows true (depth + 1) (f ()) y) : Follows true depth (descend >>= f) y := by
  obtain ⟨after, hrun, _⟩ := hf
  refine ⟨after, ?_, nofun⟩
  rw [at_bind, at_descend, if_neg (by omega)]
  exact hrun

theorem follows_enclosed_limit (h : maxDepth - depth = 0) :
    Follows grows depth (enclosed x) tooDeep :=
  ⟨depth + 1, by rw [at_enclosed, if_pos (by omega)]; rfl, nofun⟩

theorem Follows.enclosed (h : maxDepth - depth = room + 1)
    (hx : Follows true (depth + 1) x y) : Follows grows depth (enclosed x) y := by
  obtain ⟨after, hrun, _⟩ := hx
  refine ⟨depth, ?_, fun _ _ _ => rfl⟩
  rw [at_enclosed, if_neg (by omega), hrun]

end

section
variable {fuel depth room : Nat} {ts : Tokens} {level : Level} {close : Symbol} {left : Expr}
  (ih : ∀ (f : Routine) (depth room : Nat) (ts : Tokens), maxDepth - depth = room →
    Follows f.resumes depth (answer fuel f ts) (Parser.answer fuel ⟨f, room, ts⟩))
include ih

theorem follows_expression (hroom : maxDepth - depth = room) :
    Follows false depth (expression (fuel + 1) ts) (Parser.expression (fuel + 1) room ts) := by
  cases room with
  | zero => exact follows_enclosed_limit hroom
  | succ room =>
    have hdeeper : maxDepth - (depth + 1) = room := by omega
    refine Follows.enclosed hroom ?_
    refine (ih (.chain .or) _ _ _ hdeeper).bind ?_
    rintro ⟨c, ts⟩
    dsimp only
    split
    · refine (ih (.chain .or) _ _ _ hdeeper).bind ?_
      rintro ⟨y, ts⟩
      refine (follows_lift (expect .colon ts)).bind fun ts => ?_
      exact (ih .expression _ _ ts hdeeper).bind fun _ => follows_pure _
    · exact follows_pure _

theorem follows_chain (hroom : maxDepth - depth = room) :
    Follows false depth (chain (fuel + 1) level ts) (Parser.chain (fuel + 1) level room ts) := by
  refine Follows.restored ?_
  refine (ih (.operand level) _ _ ts hroom).bind ?_
  rintro ⟨left, ts⟩
  exact ih (.chainFrom level left) _ _ ts hroom

theorem follows_chainFrom (hroom : maxDepth - depth = room) :
    Follows true depth (chainFrom (fuel + 1) level left ts)
      (Parser.chainFrom (fuel + 1) level left room ts) := by
  unfold chainFrom Parser.chainFrom
  cases level.operator? (peek ts) with
  | none => exact follows_pure _
  | some op =>
    cases room with
    | zero => exact follows_descend_limit hroom
    | succ room =>
      have hdeeper : maxDepth - (depth + 1) = room := by omega
      refine Follows.descend hroom ?_
      refine (ih (.operand level) _ _ _ hdeeper).bind ?_
      rintro ⟨right, ts⟩
      exact ih (.chainFrom level (.binary op left right)) _ _ ts hdeeper

theorem follows_operand (hroom : maxDepth - depth = room) :
    Follows false depth (operand (fuel + 1) level ts)
      (Parser.operand (fuel + 1) level room ts) := by
  unfold operand Parser.operand
  cases level.tighter? with
  | none => exact ih .signed _ _ ts hroom
  | some l => exact ih (.chain l) _ _ ts hroom

theorem follows_signed (hroom : maxDepth - depth = room) :
    Follows false depth (signed (fuel + 1) ts) (Parser.signed (fuel + 1) room ts) := by
  unfold signed Parser.signed
  cases sign? (peek ts) with
  | none => exact ih .selection _ _ ts hroom
  | some op =>
    refine Follows.restored ?_
    cases room with
    | zero => exact follows_descend_limit hroom
    | succ room =>
      have hdeeper : maxDepth - (depth + 1) = room := by omega
      refine Follows.descend hroom ?_
      exact (ih .signed _ _ _ hdeeper).bind fun _ => follows_pure _

theorem follows_selection (hroom : maxDepth - depth = room) :
    Follows false depth (selection (fuel + 1) ts) (Parser.selection (fuel + 1) room ts) := by
  refine Follows.restored ?_
  refine (ih .primary _ _ ts hroom).bind ?_
  rintro ⟨e, ts⟩
  exact ih (.selectionFrom e) _ _ ts hroom

theorem follows_selectionFrom (hroom : maxDepth - depth = room) :
    Follows true depth (selectionFrom (fuel + 1) left ts)
      (Parser.selectionFrom (fuel + 1) left room ts) := by
  unfold selectionFrom Parser.selectionFrom
  generalize peek ts = t
  cases t with
  | symbol s =>
    cases s with
    | dot =>
      cases room with
      | zero => exact follows_descend_limit hroom
      | succ room =>
        have hdeeper : maxDepth - (depth + 1) = room := by omega
        refine Follows.descend hroom ?_
        refine (follows_lift (name (ts.drop 1))).bind ?_
        rintro ⟨field, ts⟩
        dsimp only
        split
        · refine (ih (.elements .rightParen) _ _ _ hdeeper).bind ?_
          rintro ⟨us, ts⟩
          exact ih (.selectionFrom (.call field (some left) us)) _ _ ts hdeeper
        · exact ih (.selectionFrom (.member left field)) _ _ ts hdeeper
    | leftBracket =>
      cases room with
      | zero => exact follows_descend_limit hroom
      | succ room =>
        have hdeeper : maxDepth - (depth + 1) = room := by omega
        refine Follows.descend hroom ?_
        refine (ih .expression _ _ _ hdeeper).bind ?_
        rintro ⟨position, ts⟩
        refine (follows_lift (expect .rightBracket ts)).bind fun ts => ?_
        exact ih (.selectionFrom (.index left position)) _ _ ts hdeeper
    | _ => exact follows_pure _
  | _ => exact follows_pure _

theorem follows_primary (hroom : maxDepth - depth = room) :
    Follows false depth (primary (fuel + 1) ts) (Parser.primary (fuel + 1) room ts) := by
  unfold primary Parser.primary
  generalize peek ts = t
  cases t with
  | keyword k =>
    cases k with
    | inWord => exact follows_lift _
    | _ => exact follows_pure _
  | integer | double => exact follows_pure _
  | invalid | ending => exact follows_lift _
  | string raw => exact (follows_lift (stringOf raw)).bind fun s => follows_pure _
  | identifier n =>
    dsimp only
    split
    · refine (ih (.elements .rightParen) _ _ _ hroom).bind ?_
      rintro ⟨us, ts⟩
      exact (follows_lift (callOf n us)).bind fun e => follows_pure _
    · exact follows_pure _
  | symbol s =>
    cases s with
    | leftParen =>
      refine (ih .expression _ _ _ hroom).bind ?_
      rintro ⟨e, ts⟩
      exact (follows_lift (expect .rightParen ts)).bind fun ts => follows_pure _
    | leftBracket =>
      exact (ih (.elements .rightBracket) _ _ _ hroom).bind fun _ => follows_pure _
    | leftBrace => exact (ih .entries _ _ _ hroom).bind fun _ => follows_pure _
    | _ => exact follows_lift _

theorem follows_elements (hroom : maxDepth - depth = room) :
    Follows false depth (elements (fuel + 1) close ts)
      (Parser.elements (fuel + 1) close room ts) := by
  unfold elements Parser.elements
  split
  · exact follows_pure _
  · exact ih (.elementsFrom close []) _ _ ts hroom

theorem follows_elementsFrom {done : List Expr} (hroom : maxDepth - depth = room) :
    Follows false depth (elementsFrom (fuel + 1) close done ts)
      (Parser.elementsFrom (fuel + 1) close done room ts) := by
  refine (ih .expression _ _ ts hroom).bind ?_
  rintro ⟨e, ts⟩
  dsimp only
  split
  · exact ih (.elementsFrom close (e :: done)) _ _ _ hroom
  · exact (follows_lift (expect close _)).bind fun ts => follows_pure _

theorem follows_entries (hroom : maxDepth - depth = room) :
    Follows false depth (entries (fuel + 1) ts) (Parser.entries (fuel + 1) room ts) := by
  unfold entries Parser.entries
  split
  · exact follows_pure _
  · exact ih (.entriesFrom []) _ _ ts hroom

theorem follows_entriesFrom {done : List (String × Expr)} (hroom : maxDepth - depth = room) :
    Follows false depth (entriesFrom (fuel + 1) done ts)
      (Parser.entriesFrom (fuel + 1) done room ts) := by
  unfold entriesFrom Parser.entriesFrom
  generalize peek ts = t
  cases t with
  | string raw =>
    refine (follows_lift (stringOf raw)).bind fun key => ?_
    refine (follows_lift (expect .colon (ts.drop 1))).bind fun ts => ?_
    refine (ih .expression _ _ ts hroom).bind ?_
    rintro ⟨e, ts⟩
    dsimp only
    split
    · exact ih (.entriesFrom ((key, e) :: done)) _ _ _ hroom
    · exact (follows_lift (expect .rightBrace _)).bind fun ts => follows_pure _
  | _ => exact follows_lift _

end

/-- With the counter each function reads what it reads with the room that the counter leaves, and
all but the loops give the counter back as they found it. -/
theorem answer_follows (fuel : Nat) (f : Routine) (depth room : Nat) (ts : Tokens)
    (hroom : maxDepth - depth = room) :
    Follows f.resumes depth (answer fuel f ts) (Parser.answer fuel ⟨f, room, ts⟩) := by
  induction fuel generalizing f depth room ts with
  | zero => cases f <;> exact ⟨depth, rfl, nofun⟩
  | succ fuel ih =>
    cases f with
    | expression => exact follows_expression ih hroom
    | chain => exact follows_chain ih hroom
    | chainFrom => exact follows_chainFrom ih hroom
    | operand => exact follows_operand ih hroom
    | signed => exact follows_signed ih hroom
    | selection => exact follows_selection ih hroom
    | selectionFrom => exact follows_selectionFrom ih hroom
    | primary => exact follows_primary ih hroom
    | elements => exact follows_elements ih hroom
    | elementsFrom => exact follows_elementsFrom ih hroom
    | entries => exact follows_entries ih hroom
    | entriesFrom => exact follows_entriesFrom ih hroom

/-- A call that succeeds leaves the counter at its entry value. -/
theorem counter_of_ok {fuel depth after : Nat} {f : Routine} {ts : Tokens} {r : f.Result × Tokens}
    (h : (answer fuel f ts).at depth = (.ok r, after)) (hf : f.resumes = false) :
    after = depth := by
  obtain ⟨last, hlast, hkept⟩ := answer_follows fuel f depth _ ts rfl
  obtain ⟨hresult, rfl⟩ := Prod.mk.inj (h.symm.trans hlast)
  exact hkept hf r hresult.symm

/-- From zero a text is parsed as with all the room there is, and then the counter is zero again. -/
theorem parse_follows (ts : Tokens) : Follows false 0 (parse ts) (Parser.parse ts) := by
  refine (answer_follows (fuelFor ts) .expression 0 maxDepth ts rfl).bind ?_
  rintro ⟨e, ts⟩
  dsimp only
  split
  · exact follows_pure _
  · exact follows_lift _

end EventStream.Parser.Counted
