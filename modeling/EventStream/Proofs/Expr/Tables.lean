import EventStream.Proofs.Expr.Operations
import EventStream.Proofs.Expr.Parts

namespace EventStream

namespace Typing

section
variable {s l r t : StaticType} {a b u : ValueType}

theorem boolIf_eq_some {c : Bool} : boolIf c = some t ↔ c = true ∧ t = .known .bool := by
  cases c <;> simp [boolIf, eq_comm]

theorem boolIf_eq_none {c : Bool} : boolIf c = none ↔ c = false := by
  cases c <;> simp [boolIf]

theorem boolType_eq_some {c : Bool} : boolType c = some u ↔ c = true ∧ u = .bool := by
  cases c <;> simp [boolType, eq_comm]

theorem unary?_known (op : UnaryOp) (a : ValueType) :
    unary? op (.known a) = (op.result? a).map .known := by
  cases op <;> cases a <;> rfl

theorem unary?_sound {op : UnaryOp} (hs : s.admits a = true) (ht : unary? op s = some t)
    (hu : op.result? a = some u) : t.admits u = true := by
  rcases StaticType.admits_iff.mp hs with rfl | rfl
  · cases op with
    | not =>
      cases ht
      cases a <;> cases hu
      rfl
    | negate => cases ht; exact StaticType.admits_dyn u
  · rw [unary?_known, hu] at ht
    cases ht
    exact (StaticType.admits_known u u).mpr rfl

theorem unary?_refuses {op : UnaryOp} (hs : s.admits a = true) (ht : unary? op s = none) :
    op.result? a = none := by
  rcases StaticType.admits_iff.mp hs with rfl | rfl
  · cases op <;> cases ht
  · rw [unary?_known] at ht
    exact Option.map_eq_none_iff.mp ht

theorem arithmetic?_known (a b : ValueType) :
    arithmetic? (.known a) (.known b) = (a.arithmetic? b).map .known := by
  cases a <;> cases b <;> rfl

theorem sum?_known (a b : ValueType) :
    sum? (.known a) (.known b) = (a.sum? b).map .known := by
  cases a <;> cases b <;> rfl

theorem ordered_known (a b : ValueType) :
    ordered (.known a) (.known b) = a.ordered b := by
  cases a <;> cases b <;> rfl

/-- Without both types nothing is known of a number. -/
theorem arithmetic?_dyn (h : l = .dyn ∨ r = .dyn) (ht : arithmetic? l r = some t) : t = .dyn := by
  rcases h with rfl | rfl
  · cases r with
    | dyn => cases ht; rfl
    | known b => cases b <;> cases ht <;> rfl
  · cases l with
    | dyn => cases ht; rfl
    | known a => cases a <;> cases ht <;> rfl

theorem sum?_dyn (h : l = .dyn ∨ r = .dyn) (ht : sum? l r = some t) : t = .dyn := by
  rcases h with rfl | rfl
  · cases r with
    | dyn => cases ht; rfl
    | known b => cases b <;> cases ht <;> rfl
  · cases l with
    | dyn => cases ht; rfl
    | known a => cases a <;> cases ht <;> rfl

theorem arithmetic?_refuses (hl : l.admits a = true) (hr : r.admits b = true)
    (ht : arithmetic? l r = none) : a.arithmetic? b = none := by
  rcases StaticType.admits_iff.mp hl with rfl | rfl <;>
    rcases StaticType.admits_iff.mp hr with rfl | rfl
  · cases ht
  · cases b <;> cases ht <;> cases a <;> rfl
  · cases a <;> cases ht <;> cases b <;> rfl
  · rw [arithmetic?_known] at ht
    exact Option.map_eq_none_iff.mp ht

theorem sum?_refuses (hl : l.admits a = true) (hr : r.admits b = true)
    (ht : sum? l r = none) : a.sum? b = none := by
  rcases StaticType.admits_iff.mp hl with rfl | rfl <;>
    rcases StaticType.admits_iff.mp hr with rfl | rfl
  · cases ht
  · cases b <;> cases ht <;> cases a <;> rfl
  · cases a <;> cases ht <;> cases b <;> rfl
  · rw [sum?_known] at ht
    exact Option.map_eq_none_iff.mp ht

theorem ordered_refuses (hl : l.admits a = true) (hr : r.admits b = true)
    (ht : ordered l r = false) : a.ordered b = false := by
  rcases StaticType.admits_iff.mp hl with rfl | rfl
  · simp [ordered] at ht
  · rcases StaticType.admits_iff.mp hr with rfl | rfl
    · simp [ordered] at ht
    · rw [← ordered_known]
      exact ht

/-- The type of a sum or product covers its value. -/
theorem covers_of_known {check : StaticType → StaticType → Option StaticType}
    {result : ValueType → ValueType → Option ValueType}
    (known : ∀ a b, check (.known a) (.known b) = (result a b).map .known)
    (dyn : ∀ {l r t}, l = .dyn ∨ r = .dyn → check l r = some t → t = .dyn)
    (hl : l.admits a = true) (hr : r.admits b = true) (ht : check l r = some t)
    (hu : result a b = some u) : t.admits u = true := by
  rcases StaticType.admits_iff.mp hl with rfl | rfl
  · rw [dyn (.inl rfl) ht]
    exact StaticType.admits_dyn u
  · rcases StaticType.admits_iff.mp hr with rfl | rfl
    · rw [dyn (.inr rfl) ht]
      exact StaticType.admits_dyn u
    · rw [known, hu] at ht
      cases ht
      exact (StaticType.admits_known u u).mpr rfl

theorem binary?_sound {op : BinaryOp} (hl : l.admits a = true) (hr : r.admits b = true)
    (ht : binary? op l r = some t) (hu : op.result? a b = some u) : t.admits u = true := by
  have ofBool : ∀ {c d}, boolIf c = some t → boolType d = some u → t.admits u = true := by
    intro c d hc hd
    rw [(boolIf_eq_some.mp hc).2, (boolType_eq_some.mp hd).2]
    rfl
  cases op with
  | or | and => cases hu
  | equal | notEqual => exact ofBool ht (d := true) hu
  | less | lessEqual | greater | greaterEqual | isIn => exact ofBool ht hu
  | add => exact covers_of_known sum?_known sum?_dyn hl hr ht hu
  | subtract | multiply | divide | modulus =>
    exact covers_of_known arithmetic?_known arithmetic?_dyn hl hr ht hu

/-- Whether the checker refuses an operator only when evaluation does. -/
def strict : BinaryOp → Bool
  | .or | .and | .equal | .notEqual => false
  | _ => true

theorem binary?_refuses {op : BinaryOp} (hop : strict op = true) (hl : l.admits a = true)
    (hr : r.admits b = true) (ht : binary? op l r = none) : op.result? a b = none := by
  have ofBool : ∀ {d}, d = false → boolType d = none := by
    rintro d rfl
    rfl
  cases op with
  | or | and | equal | notEqual => cases hop
  | less | lessEqual | greater | greaterEqual =>
    exact ofBool (ordered_refuses hl hr (boolIf_eq_none.mp ht))
  | isIn =>
    have hc := boolIf_eq_none.mp ht
    rcases StaticType.admits_iff.mp hr with rfl | rfl
    · cases hc
    · cases b <;> cases hc <;> rfl
  | add => exact sum?_refuses hl hr ht
  | subtract | multiply | divide | modulus => exact arithmetic?_refuses hl hr ht

/-- Something that is no string and is looked for among the keys of a map. -/
def misplacedKey (op : BinaryOp) (a b : ValueType) : Bool :=
  op = .isIn && b = .map && a ≠ .string

theorem connective_known {op : BinaryOp} (hop : op = .and ∨ op = .or)
    (ht : binary? op (.known a) (.known b) = some t) : a = .bool ∧ b = .bool ∧ t = .known .bool := by
  have hb : boolIf ((StaticType.known a).admits .bool && (StaticType.known b).admits .bool) =
      some t := by
    rcases hop with rfl | rfl <;> exact ht
  obtain ⟨h, rfl⟩ := boolIf_eq_some.mp hb
  have hab := Bool.and_eq_true_iff.mp h
  exact ⟨(StaticType.admits_known a .bool).mp hab.1, (StaticType.admits_known b .bool).mp hab.2, rfl⟩

/-- With one exception an accepted operator on known types has an overload. -/
theorem binary?_known {op : BinaryOp} (hop : ¬(op = .and ∨ op = .or))
    (ht : binary? op (.known a) (.known b) = some t) :
    misplacedKey op a b = true ∨ ∃ u, op.result? a b = some u ∧ t = .known u := by
  have ofBool : ∀ {c}, boolIf c = some t → ∃ u, boolType c = some u ∧ t = .known u := by
    intro c hc
    obtain ⟨rfl, rfl⟩ := boolIf_eq_some.mp hc
    exact ⟨.bool, rfl, rfl⟩
  cases op with
  | or | and => simp at hop
  | equal | notEqual => exact .inr ⟨.bool, rfl, (boolIf_eq_some.mp ht).2⟩
  | less | lessEqual | greater | greaterEqual =>
    right
    apply ofBool
    rw [← ordered_known]
    exact ht
  | isIn =>
    obtain ⟨hc, rfl⟩ := boolIf_eq_some.mp ht
    cases b <;> cases hc
    · exact .inr ⟨.bool, rfl, rfl⟩
    · by_cases ha : a = .string
      · subst ha
        exact .inr ⟨.bool, rfl, rfl⟩
      · exact .inl (by simp [misplacedKey, ha])
  | add =>
    rw [binary?, sum?_known] at ht
    obtain ⟨u, hu, rfl⟩ := Option.map_eq_some_iff.mp ht
    exact .inr ⟨u, hu, rfl⟩
  | subtract | multiply | divide | modulus =>
    rw [binary?, arithmetic?_known] at ht
    obtain ⟨u, hu, rfl⟩ := Option.map_eq_some_iff.mp ht
    exact .inr ⟨u, hu, rfl⟩

theorem misplacedKey_result {op : BinaryOp} (h : misplacedKey op a b = true) :
    op.result? a b = none := by
  obtain ⟨⟨rfl, rfl⟩, ha⟩ : (op = .isIn ∧ b = .map) ∧ a ≠ .string := by
    simpa [misplacedKey] using h
  cases a <;> first | rfl | exact absurd rfl ha

end

/-- What the checker lets a function be called on. -/
def accepts (f : Builtin) (subject : StaticType) (needle : Option StaticType) : Bool :=
  f.subjects.any subject.admits && (!f.searches || needle.any (·.admits .string))

/-- A call that is accepted has the type of its function, another one is a type error. -/
def Judged (f : Builtin) (subject : StaticType) (needle : Option StaticType)
    (r : Except CompileError StaticType) : Prop :=
  if accepts f subject needle then r = .ok (.known f.type) else ∃ e, r = .error (.type e)

section
variable {function : String} {subject : StaticType} {needle : Option StaticType}

theorem judged_of_ite {f : Builtin} {c : Bool} {e : TypeError} (h : accepts f subject needle = c) :
    Judged f subject needle (if c then .ok (.known f.type) else .error (.type e)) := by
  subst h
  unfold Judged
  split
  · rfl
  · exact ⟨e, rfl⟩

theorem sizeOf_judged : Judged .size subject needle (sizeOf function subject) := by
  apply judged_of_ite
  simp [accepts, Builtin.subjects, Builtin.searches, Bool.or_assoc]

theorem conversion_judged {f : Builtin} (hf : f.searches = false) :
    Judged f subject needle (conversion function f.subjects f.type subject) := by
  apply judged_of_ite
  simp [accepts, hf]

theorem search_judged {f : Builtin} {n : StaticType}
    (hf : f = .contains ∨ f = .startsWith ∨ f = .endsWith) :
    Judged f subject (some n) (search function subject n) := by
  have ha : accepts f subject (some n) = (subject.admits .string && n.admits .string) := by
    rcases hf with rfl | rfl | rfl <;> simp [accepts, Builtin.subjects, Builtin.searches]
  have ht : f.type = .bool := by
    rcases hf with rfl | rfl | rfl <;> rfl
  unfold Judged search
  rw [ha, ht]
  cases subject.admits .string with
  | false => exact ⟨_, rfl⟩
  | true =>
    cases n.admits .string with
    | false => exact ⟨_, rfl⟩
    | true => rfl

/-- Calls are refused for their form, or judged by the types of their subject and needle. -/
theorem call_cases (function : String) (target : Option StaticType) (arguments : List StaticType) :
    (∃ e, call function target arguments = .error e ∧ ∀ t, e ≠ .type t) ∨
      ∃ f subject, Builtin.ofName? function = some f ∧ target.or arguments.head? = some subject ∧
        Judged f subject arguments.head? (call function target arguments) := by
  unfold call
  dsimp only
  split
  next hf => exact .inr ⟨_, _, hf, rfl, sizeOf_judged⟩
  next => exact .inl ⟨_, rfl, by simp⟩
  next hf => exact .inr ⟨_, _, hf, rfl, sizeOf_judged⟩
  next => exact .inl ⟨_, rfl, by simp⟩
  next hf => exact .inr ⟨_, _, hf, rfl, search_judged (.inl rfl)⟩
  next hf => exact .inr ⟨_, _, hf, rfl, search_judged (.inr (.inl rfl))⟩
  next hf => exact .inr ⟨_, _, hf, rfl, search_judged (.inr (.inr rfl))⟩
  next => exact .inl ⟨_, rfl, by simp⟩
  next => exact .inl ⟨_, rfl, by simp⟩
  next => exact .inl ⟨_, rfl, by simp⟩
  next hf => exact .inr ⟨_, _, hf, rfl, conversion_judged (f := .int) rfl⟩
  next hf => exact .inr ⟨_, _, hf, rfl, conversion_judged (f := .double) rfl⟩
  next hf => exact .inr ⟨_, _, hf, rfl, conversion_judged (f := .string) rfl⟩
  all_goals exact .inl ⟨_, rfl, by simp⟩

theorem call_ok {target : Option StaticType} {arguments : List StaticType} {t : StaticType}
    (h : call function target arguments = .ok t) :
    ∃ f subject, Builtin.ofName? function = some f ∧ target.or arguments.head? = some subject ∧
      accepts f subject arguments.head? = true ∧ t = .known f.type := by
  rcases call_cases function target arguments with ⟨e, he, _⟩ | ⟨f, subject, hf, hs, hj⟩
  · rw [he] at h
    cases h
  · unfold Judged at hj
    split at hj
    next ha => exact ⟨f, subject, hf, hs, ha, Except.ok.inj (h.symm.trans hj)⟩
    next =>
      obtain ⟨e, he⟩ := hj
      rw [he] at h
      cases h

theorem call_type_error {target : Option StaticType} {arguments : List StaticType} {e : TypeError}
    (h : call function target arguments = .error (.type e)) :
    ∃ f subject, Builtin.ofName? function = some f ∧ target.or arguments.head? = some subject ∧
      accepts f subject arguments.head? = false := by
  rcases call_cases function target arguments with ⟨d, hd, hne⟩ | ⟨f, subject, hf, hs, hj⟩
  · cases hd.symm.trans h
    exact absurd rfl (hne e)
  · unfold Judged at hj
    split at hj
    next => cases hj.symm.trans h
    next ha => exact ⟨f, subject, hf, hs, by simpa using ha⟩

theorem result?_type {f : Builtin} {a u : ValueType} {n : Option ValueType}
    (h : f.result? a n = some u) : u = f.type := by
  unfold Builtin.result? at h
  split at h <;> cases h
  rfl

/-- A function that has a value for some operands is accepted for what covers them. -/
theorem accepts_of_result {f : Builtin} {a u : ValueType} {n : Option ValueType}
    (hs : subject.admits a = true) (hn : ∀ b, n = some b → needle.any (·.admits b) = true)
    (h : f.result? a n = some u) : accepts f subject needle = true := by
  unfold Builtin.result? at h
  split at h
  next hr =>
    have hmem : f.subjects.any subject.admits = true := List.any_eq_true.mpr ⟨a, hr.1, hs⟩
    cases hf : f.searches with
    | false => simp [accepts, hmem, hf]
    | true => simp [accepts, hmem, hn .string (hr.2 hf)]
  next => cases h

/-- On known types a call that is accepted has an overload. -/
theorem result?_of_accepts {f : Builtin} {a : ValueType} {n : Option ValueType}
    (h : accepts f (.known a) (n.map .known) = true) : f.result? a n = some f.type := by
  obtain ⟨hs, hn⟩ := Bool.and_eq_true_iff.mp h
  obtain ⟨b, hb, hab⟩ := List.any_eq_true.mp hs
  have hmem : a ∈ f.subjects := by
    rw [(StaticType.admits_known a b).mp hab]
    exact hb
  refine if_pos ⟨hmem, fun hf => ?_⟩
  cases n with
  | none => simp [hf] at hn
  | some b => simpa [hf] using hn

end

end Typing

end EventStream
