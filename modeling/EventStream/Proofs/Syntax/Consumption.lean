import EventStream.Proofs.Syntax.Calls
import EventStream.Proofs.Syntax.Outline

namespace EventStream.Parser

/-- At least one token is taken, and others are left. -/
def Consumes (ts rest : Tokens) : Prop :=
  rest <:+ ts ∧ rest.length < ts.length

namespace Routine

/-- Whether a function goes on with what was read, so that it may have nothing to add. -/
def resumes : Routine → Bool
  | .chainFrom _ _ | .selectionFrom _ => true
  | _ => false

/-- What can be left by a function. -/
def Leaves (f : Routine) (ts rest : Tokens) : Prop :=
  rest <:+ ts ∧ (f.resumes = false → Consumes ts rest)

/-- The levels, from primary expressions to lists. -/
def level : Routine → Nat
  | .primary => 0
  | .selection | .selectionFrom _ => 1
  | .signed => 2
  | .operand l => 2 * l.number - 1
  | .chain l | .chainFrom l _ => 2 * l.number
  | .expression => 13
  | .elementsFrom _ _ | .entriesFrom _ => 14
  | .elements _ | .entries => 15

end Routine

/-- A call goes on behind a token, or where another one began, at a tighter level. -/
def Call.Within (d c : Call) : Prop :=
  Consumes c.tokens d.tokens ∨ d.tokens = c.tokens ∧ d.routine.level < c.routine.level

/-- The calls that a body makes, with anything returned that can be returned. -/
inductive Body.Makes {α : Type} : Body α → Call → Prop
  | first {c next} : Makes (.calls c next) c
  | later {c next fuel r d} : answer fuel c = .ok r → Makes (next r) d → Makes (.calls c next) d

/-- The calls of a body are allowed and what it ends with has a property, if the calls leave what
they can leave. -/
def Body.Obeys {α : Type} (allowed : Call → Prop) (P : α → Prop) : Body α → Prop
  | .ends x => Yields P (· ≠ .outOfFuel) x
  | .calls c next =>
    allowed c ∧ ∀ r : c.Result, c.routine.Leaves c.tokens r.2 → (next r).Obeys allowed P

section
variable {f g : Routine} {ts mid rest : Tokens} {room room' : Nat}

theorem Consumes.trans (h : Consumes ts mid) (h' : rest <:+ mid) : Consumes ts rest :=
  ⟨h'.trans h.1, Nat.lt_of_le_of_lt h'.length_le h.2⟩

theorem consumes_drop (h : peek ts ≠ .ending) : Consumes ts (ts.drop 1) := by
  cases ts with
  | nil => exact absurd rfl h
  | cons l ts => exact ⟨List.suffix_cons l ts, Nat.lt_succ_self _⟩

theorem consumes_of_peek {t : Token} (h : peek ts = t) (ht : t ≠ .ending) :
    Consumes ts (ts.drop 1) :=
  consumes_drop (h ▸ ht)

theorem Routine.Leaves.consumes (h : f.Leaves ts rest) (hf : f.resumes = false) :
    Consumes ts rest :=
  h.2 hf

theorem Consumes.leaves (h : Consumes ts rest) : f.Leaves ts rest :=
  ⟨h.1, fun _ => h⟩

theorem within_of_consumes (h : Consumes ts rest) :
    Call.Within ⟨f, room, rest⟩ ⟨g, room', ts⟩ :=
  .inl h

theorem within_of_level (h : f.level < g.level) : Call.Within ⟨f, room, ts⟩ ⟨g, room', ts⟩ :=
  .inr ⟨rfl, h⟩

theorem expect_consumes (s : Symbol) (ts : Tokens) :
    Yields (Consumes ts ·) (· ≠ .outOfFuel) (expect s ts) := by
  unfold expect
  split
  next h => exact yields_ok (consumes_of_peek h nofun)
  next => exact yields_error nofun

theorem name_consumes (ts : Tokens) :
    Yields (Consumes ts ·.2) (· ≠ .outOfFuel) (name ts) := by
  unfold name
  split
  next h => exact yields_ok (consumes_of_peek h nofun)
  next => exact yields_error nofun

theorem closing_consumes (close : Symbol) (ts : Tokens) :
    Yields (Consumes ts ·) (· ≠ .outOfFuel)
      (expect close (if peek ts = .symbol .comma then ts.drop 1 else ts)) := by
  split
  next h =>
    have hcomma := consumes_of_peek h nofun
    exact ⟨fun rest hr => hcomma.trans ((expect_consumes close _).1 rest hr).1,
      (expect_consumes close _).2⟩
  next => exact expect_consumes close ts

theorem stringOf_yields_string (raw : List Char) :
    Yields (fun _ => True) (· ≠ .outOfFuel) (stringOf raw) := by
  unfold stringOf
  split
  · exact yields_ok trivial
  · exact yields_error nofun

theorem callOf_yields_call (function : String) (arguments : List Expr) :
    Yields (fun _ => True) (· ≠ .outOfFuel) (callOf function arguments) := by
  unfold callOf
  split
  · split
    · exact yields_ok trivial
    · exact yields_error nofun
    · exact yields_error nofun
  · exact yields_ok trivial

end

namespace Body.Obeys

variable {α β : Type} {allowed : Call → Prop} {P : α → Prop} {Q : β → Prop}

theorem call_bind {c : Call} {g : c.Result → Body α} (hc : allowed c)
    (hg : ∀ r : c.Result, c.routine.Leaves c.tokens r.2 → (g r).Obeys allowed P) :
    (call c >>= g).Obeys allowed P :=
  ⟨hc, hg⟩

theorem call {c : Call} {P : c.Result → Prop} (hc : allowed c)
    (hP : ∀ r : c.Result, c.routine.Leaves c.tokens r.2 → P r) : (Body.call c).Obeys allowed P :=
  ⟨hc, fun r hr => yields_ok (hP r hr)⟩

theorem ends_bind {x : Except Failure α} {g : α → Body β} (hx : Yields P (· ≠ .outOfFuel) x)
    (hg : ∀ a, P a → (g a).Obeys allowed Q) : (ends x >>= g).Obeys allowed Q := by
  cases x with
  | ok a => exact hg a (hx.1 a rfl)
  | error e => exact yields_error (hx.2 e rfl)

theorem mono {x : Body α} {P' : α → Prop} (h : x.Obeys allowed P) (hP : ∀ a, P a → P' a) :
    x.Obeys allowed P' := by
  induction x with
  | ends x => exact ⟨fun a ha => hP a (h.1 a ha), h.2⟩
  | calls c next ih => exact ⟨h.1, fun r hr => ih r (h.2 r hr)⟩

end Body.Obeys

/-- A body that ends with what a call behind some tokens returns. -/
theorem last_call {f g : Routine} {ts us : Tokens} {room room' : Nat} (h : Consumes ts us) :
    (Body.call ⟨f, room, us⟩).Obeys (·.Within ⟨g, room', ts⟩) (Consumes ts ·.2) :=
  .call (within_of_consumes h) fun _ h' => h.trans h'.1

section
variable {room : Nat} {ts : Tokens} {level : Level} {close : Symbol} {left : Expr}

theorem expressionBody_obeys : (expressionBody room ts).Obeys
    (·.Within ⟨.expression, room, ts⟩) (Consumes ts ·.2) := by
  cases room with
  | zero => exact yields_error nofun
  | succ room =>
    refine .call_bind (within_of_level (by decide)) fun ⟨c, us⟩ h => ?_
    have hcondition : Consumes ts us := h.consumes rfl
    dsimp only
    split
    next hq =>
      have hq := hcondition.trans (consumes_of_peek hq nofun).1
      refine .call_bind (within_of_consumes hq) fun ⟨y, us⟩ h => ?_
      have hyes := hq.trans h.1
      refine .ends_bind (expect_consumes .colon us) fun us h => ?_
      have hcolon := hyes.trans h.1
      refine .call_bind (within_of_consumes hcolon) fun ⟨n, us⟩ h => ?_
      exact yields_ok (hcolon.trans h.1)
    next => exact yields_ok hcondition

theorem chainBody_obeys : (chainBody level room ts).Obeys
    (·.Within ⟨.chain level, room, ts⟩) (Consumes ts ·.2) := by
  refine .call_bind (within_of_level ?_) fun ⟨left, us⟩ h => ?_
  · cases level <;> decide
  · have hleft : Consumes ts us := h.consumes rfl
    exact last_call hleft

theorem chainFromBody_obeys : (chainFromBody level left room ts).Obeys
    (·.Within ⟨.chainFrom level left, room, ts⟩)
    ((Routine.chainFrom level left).Leaves ts ·.2) := by
  unfold chainFromBody
  split
  next => exact yields_ok ⟨List.suffix_rfl, nofun⟩
  next => exact yields_error nofun
  next op room ho =>
    have hop : Consumes ts (ts.drop 1) := consumes_drop fun h => by
      rw [h] at ho
      cases level <;> cases ho
    refine .call_bind (within_of_consumes hop) fun ⟨right, us⟩ h => ?_
    have hright := hop.trans h.1
    exact (last_call hright).mono fun _ => Consumes.leaves

theorem operandBody_obeys : (operandBody level room ts).Obeys
    (·.Within ⟨.operand level, room, ts⟩) (Consumes ts ·.2) := by
  unfold operandBody
  cases level <;> exact .call (within_of_level (by decide)) fun _ h => h.consumes rfl

theorem signedBody_obeys : (signedBody room ts).Obeys
    (·.Within ⟨.signed, room, ts⟩) (Consumes ts ·.2) := by
  unfold signedBody
  split
  next => exact .call (within_of_level (by decide)) fun _ h => h.consumes rfl
  next => exact yields_error nofun
  next op room ho =>
    have hop : Consumes ts (ts.drop 1) := consumes_drop fun h => by
      rw [h] at ho
      cases ho
    exact .call_bind (within_of_consumes hop) fun _ h => yields_ok (hop.trans h.1)

theorem selectionBody_obeys : (selectionBody room ts).Obeys
    (·.Within ⟨.selection, room, ts⟩) (Consumes ts ·.2) := by
  refine .call_bind (within_of_level (by decide)) fun ⟨e, us⟩ h => ?_
  have hprimary : Consumes ts us := h.consumes rfl
  exact last_call hprimary

theorem selectionFromBody_obeys : (selectionFromBody left room ts).Obeys
    (·.Within ⟨.selectionFrom left, room, ts⟩) ((Routine.selectionFrom left).Leaves ts ·.2) := by
  unfold selectionFromBody
  split
  next => exact yields_error nofun
  next room hdot =>
    have hdot := consumes_of_peek hdot nofun
    refine .ends_bind (name_consumes _) fun ⟨field, us⟩ h => ?_
    have hfield := hdot.trans h.1
    dsimp only
    split
    next hparen =>
      have hparen := hfield.trans (consumes_of_peek hparen nofun).1
      refine .call_bind (within_of_consumes hparen) fun ⟨arguments, us⟩ h => ?_
      have harguments := hparen.trans h.1
      exact (last_call harguments).mono fun _ => Consumes.leaves
    next => exact (last_call hfield).mono fun _ => Consumes.leaves
  next => exact yields_error nofun
  next room hbracket =>
    have hbracket := consumes_of_peek hbracket nofun
    refine .call_bind (within_of_consumes hbracket) fun ⟨position, us⟩ h => ?_
    have hposition := hbracket.trans h.1
    refine .ends_bind (expect_consumes .rightBracket us) fun us h => ?_
    have hclosed := hposition.trans h.1
    exact (last_call hclosed).mono fun _ => Consumes.leaves
  next => exact yields_ok ⟨List.suffix_rfl, nofun⟩

theorem primaryBody_obeys : (primaryBody room ts).Obeys
    (·.Within ⟨.primary, room, ts⟩) (Consumes ts ·.2) := by
  unfold primaryBody
  split
  next h => exact yields_ok (consumes_of_peek h nofun)
  next h => exact yields_ok (consumes_of_peek h nofun)
  next h => exact yields_ok (consumes_of_peek h nofun)
  next h => exact yields_ok (consumes_of_peek h nofun)
  next h => exact yields_ok (consumes_of_peek h nofun)
  next raw h =>
    exact .ends_bind (stringOf_yields_string raw) fun _ _ => yields_ok (consumes_of_peek h nofun)
  next n h =>
    have hname := consumes_of_peek h nofun
    split
    next hparen =>
      have hparen : Consumes ts (ts.drop 2) := by
        have := hname.trans (consumes_of_peek hparen nofun).1
        rwa [List.drop_drop] at this
      refine .call_bind (within_of_consumes hparen) fun ⟨arguments, us⟩ h => ?_
      have harguments := hparen.trans h.1
      exact .ends_bind (callOf_yields_call n arguments) fun _ _ => yields_ok harguments
    next => exact yields_ok hname
  next h =>
    have hparen := consumes_of_peek h nofun
    refine .call_bind (within_of_consumes hparen) fun ⟨e, us⟩ h => ?_
    have he := hparen.trans h.1
    exact .ends_bind (expect_consumes .rightParen us) fun _ h => yields_ok (he.trans h.1)
  next h =>
    have hbracket := consumes_of_peek h nofun
    exact .call_bind (within_of_consumes hbracket) fun _ h => yields_ok (hbracket.trans h.1)
  next h =>
    have hbrace := consumes_of_peek h nofun
    exact .call_bind (within_of_consumes hbrace) fun _ h => yields_ok (hbrace.trans h.1)
  all_goals exact yields_error nofun

theorem elementsBody_obeys : (elementsBody close room ts).Obeys
    (·.Within ⟨.elements close, room, ts⟩) (Consumes ts ·.2) := by
  unfold elementsBody
  split
  next h => exact yields_ok (consumes_of_peek h nofun)
  next => exact .call (within_of_level (Nat.lt_succ_self 14)) fun _ h => h.consumes rfl

theorem elementsFromBody_obeys {done : List Expr} : (elementsFromBody close done room ts).Obeys
    (·.Within ⟨.elementsFrom close done, room, ts⟩) (Consumes ts ·.2) := by
  refine .call_bind (within_of_level (Nat.lt_succ_self 13)) fun ⟨e, us⟩ h => ?_
  have he : Consumes ts us := h.consumes rfl
  dsimp only
  split
  next hcomma =>
    have hcomma := he.trans (consumes_of_peek hcomma.1 nofun).1
    exact last_call hcomma
  next => exact .ends_bind (closing_consumes close us) fun _ h => yields_ok (he.trans h.1)

theorem entriesBody_obeys : (entriesBody room ts).Obeys
    (·.Within ⟨.entries, room, ts⟩) (Consumes ts ·.2) := by
  unfold entriesBody
  split
  next h => exact yields_ok (consumes_of_peek h nofun)
  next => exact .call (within_of_level (by decide)) fun _ h => h.consumes rfl

theorem entriesFromBody_obeys {done : List (String × Expr)} :
    (entriesFromBody done room ts).Obeys
      (·.Within ⟨.entriesFrom done, room, ts⟩) (Consumes ts ·.2) := by
  unfold entriesFromBody
  split
  next raw h =>
    have hkey := consumes_of_peek h nofun
    refine .ends_bind (stringOf_yields_string raw) fun key _ => ?_
    refine .ends_bind (expect_consumes .colon _) fun us h => ?_
    have hcolon := hkey.trans h.1
    refine .call_bind (within_of_consumes hcolon) fun ⟨e, us⟩ h => ?_
    have he := hcolon.trans h.1
    dsimp only
    split
    next hcomma =>
      have hcomma := he.trans (consumes_of_peek hcomma.1 nofun).1
      exact last_call hcomma
    next => exact .ends_bind (closing_consumes .rightBrace us) fun _ h => yields_ok (he.trans h.1)
  next => exact yields_error nofun

end

/-- What one step of each function does. -/
theorem Call.body_obeys (c : Call) :
    c.body.Obeys (·.Within c) (c.routine.Leaves c.tokens ·.2) := by
  obtain ⟨f, room, ts⟩ := c
  cases f with
  | expression => exact expressionBody_obeys.mono fun _ => Consumes.leaves
  | chain => exact chainBody_obeys.mono fun _ => Consumes.leaves
  | chainFrom => exact chainFromBody_obeys
  | operand => exact operandBody_obeys.mono fun _ => Consumes.leaves
  | signed => exact signedBody_obeys.mono fun _ => Consumes.leaves
  | selection => exact selectionBody_obeys.mono fun _ => Consumes.leaves
  | selectionFrom => exact selectionFromBody_obeys
  | primary => exact primaryBody_obeys.mono fun _ => Consumes.leaves
  | elements => exact elementsBody_obeys.mono fun _ => Consumes.leaves
  | elementsFrom => exact elementsFromBody_obeys.mono fun _ => Consumes.leaves
  | entries => exact entriesBody_obeys.mono fun _ => Consumes.leaves
  | entriesFrom => exact entriesFromBody_obeys.mono fun _ => Consumes.leaves

/-- Answers that leave what can be left. -/
def Consuming (answers : (c : Call) → Except Failure c.Result) : Prop :=
  ∀ c r, answers c = .ok r → c.routine.Leaves c.tokens r.2

section
variable {α : Type} {x : Body α} {allowed : Call → Prop} {P : α → Prop} {c d : Call}
variable {answers answers' : (c : Call) → Except Failure c.Result} {fuel n : Nat}

theorem Body.Obeys.run (h : x.Obeys allowed P) (hs : Consuming answers) {a : α}
    (ha : x.run answers = .ok a) : P a := by
  induction x with
  | ends x => exact h.1 a ha
  | calls c next ih =>
    obtain ⟨r, hr, ha⟩ := bind_eq_ok.mp ha
    exact ih r (h.2 r (hs c r hr)) ha

theorem Body.Obeys.run_ne_outOfFuel (h : x.Obeys allowed P) (hs : Consuming answers)
    (hc : ∀ c, allowed c → answers c ≠ .error .outOfFuel) :
    x.run answers ≠ .error .outOfFuel := by
  induction x with
  | ends x => exact fun hx => h.2 _ hx rfl
  | calls c next ih =>
    intro hx
    rcases bind_eq_error.mp hx with hx | ⟨r, hr, hx⟩
    · exact hc c h.1 hx
    · exact ih r (h.2 r (hs c r hr)) hx

theorem Body.Obeys.run_congr (h : x.Obeys allowed P) (hs : Consuming answers)
    (hc : ∀ c, allowed c → answers c = answers' c) : x.run answers = x.run answers' := by
  induction x with
  | ends x => rfl
  | calls c next ih =>
    rw [Body.run, Body.run, ← hc c h.1]
    cases hr : answers c with
    | error e => rfl
    | ok r => exact ih r (h.2 r (hs c r hr))

theorem consuming_answer (fuel : Nat) : Consuming (answer fuel) := by
  induction fuel with
  | zero =>
    intro c r h
    rw [answer_zero] at h
    cases h
  | succ fuel ih =>
    intro c r h
    rw [answer_succ] at h
    exact c.body_obeys.run ih h

theorem Body.Obeys.makes (h : x.Obeys allowed P) (hd : x.Makes d) : allowed d := by
  induction hd with
  | first => exact h.1
  | later hr _ ih => exact ih (h.2 _ (consuming_answer _ _ _ hr))

/-- The steps that a call can take. -/
def Call.cost (c : Call) : Nat :=
  16 * c.tokens.length + c.routine.level

theorem Routine.level_lt (f : Routine) : f.level < 16 := by
  cases f with
  | operand l | chain l | chainFrom l => cases l <;> simp [level, Level.number]
  | _ => simp [level]

theorem Call.Within.cost_lt (h : d.Within c) : d.cost < c.cost := by
  have hd := d.routine.level_lt
  unfold cost
  rcases h with ⟨_, hlt⟩ | ⟨htokens, hlevel⟩
  · omega
  · rw [htokens]
    omega

theorem answer_ne_outOfFuel (h : c.cost < fuel) : answer fuel c ≠ .error .outOfFuel := by
  induction fuel generalizing c with
  | zero => omega
  | succ fuel ih =>
    rw [answer_succ]
    refine c.body_obeys.run_ne_outOfFuel (consuming_answer fuel) fun d hd => ih ?_
    have := hd.cost_lt
    omega

theorem answer_eq_of_cost_lt (h : c.cost < fuel) (h' : c.cost < n) :
    answer fuel c = answer n c := by
  induction fuel generalizing c n with
  | zero => omega
  | succ fuel ih =>
    obtain ⟨n, rfl⟩ : ∃ k, n = k + 1 := Nat.exists_eq_add_one.mpr (by omega)
    rw [answer_succ, answer_succ]
    refine c.body_obeys.run_congr (consuming_answer fuel) fun d hd => ?_
    have := hd.cost_lt
    exact ih (by omega) (by omega)

theorem wellFounded_makes : WellFounded fun d c : Call => c.body.Makes d :=
  Subrelation.wf (fun h => (Call.body_obeys _ |>.makes h).cost_lt) (measure Call.cost).wf

theorem parse_ne_outOfFuel (ts : Tokens) : parse ts ≠ .error .outOfFuel := by
  intro h
  have hcost : (Call.mk .expression maxDepth ts).cost < fuelFor ts := by
    simp only [Call.cost, Routine.level, fuelFor]
    omega
  rcases bind_eq_error.mp h with h | ⟨⟨e, us⟩, _, h⟩
  · exact answer_ne_outOfFuel hcost h
  · dsimp only at h
    split at h <;> cases h

end

/-- What a function reads takes a token at least, except for the rest of a loop, which takes none
back. Each call goes on behind a token or goes to a tighter level, so that each round of a loop
takes a token, calls of calls end, and fuel linear in the tokens is never used up. -/
theorem parsing_consumes :
    (∀ c fuel r, answer fuel c = .ok r → c.routine.Leaves c.tokens r.2) ∧
    (∀ ts r, name ts = .ok r → Consumes ts r.2) ∧
    (∀ c fuel, answer (fuel + 1) c = c.body.run (answer fuel)) ∧
    (∀ c d : Call, c.body.Makes d → d.Within c) ∧
    (∀ c d : Call, c.body.Makes d → c.routine.level ≤ d.routine.level →
      Consumes c.tokens d.tokens) ∧
    (WellFounded fun d c : Call => c.body.Makes d) ∧
    (∀ c fuel, 16 * c.tokens.length + 15 < fuel → answer fuel c ≠ .error .outOfFuel ∧
      ∀ more, fuel ≤ more → answer more c = answer fuel c) ∧
    (∀ ts, parse ts ≠ .error .outOfFuel) ∧
    ∀ source, (∃ e, parse (tokens source) = .ok e ∧ Expr.parse source = .ok e) ∨
      ∃ e, parse (tokens source) = .error (.error e) ∧ Expr.parse source = .error e := by
  have hmakes (c d : Call) (h : c.body.Makes d) : d.Within c := c.body_obeys.makes h
  refine ⟨fun c fuel => consuming_answer fuel c, fun ts => (name_consumes ts).1,
    fun c fuel => answer_succ c, hmakes, fun c d h hlevel => ?_, wellFounded_makes,
    fun c fuel h => ?_, parse_ne_outOfFuel, fun source => ?_⟩
  · exact (hmakes c d h).resolve_right fun htighter => by omega
  · have hcost : c.cost < fuel := by
      have := c.routine.level_lt
      unfold Call.cost
      omega
    exact ⟨answer_ne_outOfFuel hcost,
      fun more hmore => answer_eq_of_cost_lt (by omega) hcost⟩
  · unfold Expr.parse
    rcases hparse : parse (tokens source) with (_ | _) | e
    · exact .inr ⟨_, rfl, rfl⟩
    · exact absurd hparse (parse_ne_outOfFuel _)
    · exact .inl ⟨e, rfl, rfl⟩

/-- A bracket with nothing behind it, a word and a name. -/
theorem parsing_consumes_open_bracket :
    let c : Call := ⟨.primary, 1, [⟨.symbol .leftParen, 0, 1⟩]⟩
    let d : Call := ⟨.expression, 1, []⟩
    let word : Tokens := [⟨.keyword .nullWord, 0, 4⟩]
    let a : Tokens := [⟨.identifier "a", 0, 1⟩]
    (c.body.Makes d ∧ d.Within c ∧ c.routine.level ≤ d.routine.level ∧
      Consumes c.tokens d.tokens) ∧
    (answer 1 ⟨.primary, 0, word⟩ = .ok (.null, []) ∧ Routine.primary.Leaves word []) ∧
    (name a = .ok ("a", []) ∧ Consumes a []) ∧
    answer 32 c ≠ .error .outOfFuel ∧ answer 40 c = answer 32 c := by
  intro c d word a
  obtain ⟨hleaves, hname, _, hwithin, hround, _, hfuel, _⟩ := parsing_consumes
  have hmakes : c.body.Makes d := .first
  have hlevel : c.routine.level ≤ d.routine.level := Nat.zero_le _
  have hword : answer 1 ⟨.primary, 0, word⟩ = .ok (.null, []) := rfl
  have ha : name a = .ok ("a", []) := rfl
  obtain ⟨hanswer, hmore⟩ := hfuel c 32 (by decide)
  exact ⟨⟨hmakes, hwithin c d hmakes, hlevel, hround c d hmakes hlevel⟩,
    ⟨hword, hleaves _ 1 _ hword⟩, ⟨ha, hname a _ ha⟩, hanswer, hmore 40 (by decide)⟩

end EventStream.Parser
