import EventStream.Expr.Program
import EventStream.Proofs.Traversal

namespace EventStream

namespace Expr

/-- The expressions right below another. -/
def children : Expr → List Expr
  | .list items => items
  | .map entries => entries.map Prod.snd
  | .member target _ | .has target _ => [target]
  | .index target position => [target, position]
  | .call _ target arguments => target.toList ++ arguments
  | .unary _ operand => [operand]
  | .binary _ left right => [left, right]
  | .conditional condition yes no => [condition, yes, no]
  | _ => []

/-- An expression with the levels it may have, and a part of it with those that are left there. -/
inductive Part : Nat → Expr → Nat → Expr → Prop
  | whole {room e} : Part room e room e
  | inside {room e c rest part} : c ∈ e.children → Part room c rest part →
      Part (room + 1) e rest part

theorem Part.trans {room rest last : Nat} {e part inner : Expr} (h : Part room e rest part)
    (hi : Part rest part last inner) : Part room e last inner := by
  induction h with
  | whole => exact hi
  | inside hc _ ih => exact .inside hc (ih hi)

end Expr

/-- Each declared variable is a map. -/
def Bindings.BindMaps (b : Bindings) (declared : List String) : Prop :=
  ∀ name ∈ declared, ∃ entries, b.get? name = some (.map entries)

namespace StaticType

@[simp]
theorem admits_dyn (t : ValueType) : dyn.admits t = true := by
  simp [admits]

@[simp]
theorem admits_known (s t : ValueType) : (known s).admits t = true ↔ s = t := by
  simp [admits]

theorem admits_iff {s : StaticType} {t : ValueType} :
    s.admits t = true ↔ s = .dyn ∨ s = .known t := by
  simp [admits]

theorem exists_known {s : StaticType} (h : s ≠ .dyn) : ∃ t, s = .known t := by
  cases s with
  | dyn => exact absurd rfl h
  | known t => exact ⟨t, rfl⟩

end StaticType

namespace Typing

section
variable {declared : List String} {room : Nat} {t : StaticType}

theorem check_list {items : List Expr} (h : check declared (room + 1) (.list items) = .ok t) :
    t = .known .list ∧ ∀ e ∈ items, ∃ s, check declared room e = .ok s := by
  obtain ⟨ts, hts, h⟩ := bind_eq_ok.mp h
  cases h
  exact ⟨rfl, fun e he => mapM_ok_of_mem hts he⟩

theorem check_map {entries : List (String × Expr)}
    (h : check declared (room + 1) (.map entries) = .ok t) :
    t = .known .map ∧ ∀ e ∈ entries, ∃ s, check declared room e.2 = .ok s := by
  obtain ⟨ts, hts, h⟩ := bind_eq_ok.mp h
  cases h
  refine ⟨rfl, fun e he => ?_⟩
  obtain ⟨s, hs⟩ := mapM_ok_of_mem hts he
  exact ⟨s, hs⟩

theorem check_variable {name : String}
    (h : check declared (room + 1) (.variable name) = .ok t) :
    name ∈ declared ∧ t = .known .map := by
  rw [check] at h
  split at h
  next hd => cases h; exact ⟨by simpa using hd, rfl⟩
  next => cases h

theorem check_member {target : Expr} {field : String}
    (h : check declared (room + 1) (.member target field) = .ok t) :
    t = .dyn ∧ ∃ s, check declared room target = .ok s ∧ s.admits .map := by
  obtain ⟨s, hs, h⟩ := bind_eq_ok.mp h
  split at h
  next ha => cases h; exact ⟨rfl, s, hs, ha⟩
  next => cases h

theorem check_has {target : Expr} {field : String}
    (h : check declared (room + 1) (.has target field) = .ok t) :
    t = .known .bool ∧ ∃ s, check declared room target = .ok s ∧ s.admits .map := by
  obtain ⟨s, hs, h⟩ := bind_eq_ok.mp h
  split at h
  next ha => cases h; exact ⟨rfl, s, hs, ha⟩
  next => cases h

theorem check_index {target position : Expr}
    (h : check declared (room + 1) (.index target position) = .ok t) :
    t = .dyn ∧ ∃ s p, check declared room target = .ok s ∧ check declared room position = .ok p ∧
      index? s p := by
  obtain ⟨s, hs, h⟩ := bind_eq_ok.mp h
  obtain ⟨p, hp, h⟩ := bind_eq_ok.mp h
  split at h
  next hi => cases h; exact ⟨rfl, s, p, hs, hp, hi⟩
  next => cases h

theorem check_unary {op : UnaryOp} {operand : Expr}
    (h : check declared (room + 1) (.unary op operand) = .ok t) :
    ∃ s, check declared room operand = .ok s ∧ unary? op s = some t := by
  obtain ⟨s, hs, h⟩ := bind_eq_ok.mp h
  split at h
  next r hr => cases h; exact ⟨s, hs, hr⟩
  next => cases h

theorem check_binary {op : BinaryOp} {left right : Expr}
    (h : check declared (room + 1) (.binary op left right) = .ok t) :
    ∃ l r, check declared room left = .ok l ∧ check declared room right = .ok r ∧
      binary? op l r = some t := by
  obtain ⟨l, hl, h⟩ := bind_eq_ok.mp h
  obtain ⟨r, hr, h⟩ := bind_eq_ok.mp h
  split at h
  next s hs => cases h; exact ⟨l, r, hl, hr, hs⟩
  next => cases h

theorem check_conditional {condition yes no : Expr}
    (h : check declared (room + 1) (.conditional condition yes no) = .ok t) :
    ∃ c y n, check declared room condition = .ok c ∧ c.admits .bool ∧
      check declared room yes = .ok y ∧ check declared room no = .ok n ∧
      t = if y = n then y else .dyn := by
  obtain ⟨c, hc, h⟩ := bind_eq_ok.mp h
  split at h
  next => cases h
  next ha =>
    obtain ⟨y, hy, h⟩ := bind_eq_ok.mp h
    obtain ⟨n, hn, h⟩ := bind_eq_ok.mp h
    cases h
    exact ⟨c, y, n, hc, by simpa using ha, hy, hn, rfl⟩

theorem check_call {function : String} {target : Option Expr} {arguments : List Expr}
    (h : check declared (room + 1) (.call function target arguments) = .ok t) :
    ∃ s ts, target.mapM (check declared room) = .ok s ∧
      arguments.mapM (check declared room) = .ok ts ∧ call function s ts = .ok t := by
  obtain ⟨s, hs, h⟩ := bind_eq_ok.mp h
  obtain ⟨ts, hts, h⟩ := bind_eq_ok.mp h
  exact ⟨s, ts, hs, hts, h⟩

end

/-- The checker visits everything below what it accepts. -/
theorem check_child {declared : List String} {room : Nat} {e c : Expr} {t : StaticType}
    (h : check declared (room + 1) e = .ok t) (hc : c ∈ e.children) :
    ∃ s, check declared room c = .ok s := by
  cases e with
  | null | bool | int | double | string | «variable» => simp [Expr.children] at hc
  | list items => exact (check_list h).2 c hc
  | map entries =>
    obtain ⟨e, he, rfl⟩ := List.mem_map.mp hc
    exact (check_map h).2 e he
  | member target field =>
    obtain ⟨_, s, hs, _⟩ := check_member h
    rw [List.mem_singleton.mp hc]
    exact ⟨s, hs⟩
  | has target field =>
    obtain ⟨_, s, hs, _⟩ := check_has h
    rw [List.mem_singleton.mp hc]
    exact ⟨s, hs⟩
  | index target position =>
    obtain ⟨_, s, p, hs, hp, _⟩ := check_index h
    rcases List.mem_cons.mp hc with rfl | hc
    · exact ⟨s, hs⟩
    · rw [List.mem_singleton.mp hc]
      exact ⟨p, hp⟩
  | call function target arguments =>
    obtain ⟨s, ts, hs, hts, _⟩ := check_call h
    rcases List.mem_append.mp hc with hc | hc
    · rcases option_mapM_eq_ok.mp hs with ⟨rfl, _⟩ | ⟨a, r, rfl, _, hr⟩
      · simp at hc
      · rw [show c = a by simpa using hc]
        exact ⟨r, hr⟩
    · exact mapM_ok_of_mem hts hc
  | unary op operand =>
    obtain ⟨s, hs, _⟩ := check_unary h
    rw [List.mem_singleton.mp hc]
    exact ⟨s, hs⟩
  | binary op left right =>
    obtain ⟨l, r, hl, hr, _⟩ := check_binary h
    rcases List.mem_cons.mp hc with rfl | hc
    · exact ⟨l, hl⟩
    · rw [List.mem_singleton.mp hc]
      exact ⟨r, hr⟩
  | conditional condition yes no =>
    obtain ⟨s, y, n, hs, _, hy, hn, _⟩ := check_conditional h
    rcases List.mem_cons.mp hc with rfl | hc
    · exact ⟨s, hs⟩
    · rcases List.mem_cons.mp hc with rfl | hc
      · exact ⟨y, hy⟩
      · rw [List.mem_singleton.mp hc]
        exact ⟨n, hn⟩

theorem check_part {declared : List String} {room rest : Nat} {e part : Expr} {t : StaticType}
    (h : check declared room e = .ok t) (hp : Expr.Part room e rest part) :
    ∃ s, check declared rest part = .ok s := by
  induction hp generalizing t with
  | whole => exact ⟨t, h⟩
  | inside hc _ ih =>
    obtain ⟨s, hs⟩ := check_child h hc
    exact ih hs

end Typing

/-- What a compiled program is made of. -/
theorem Program.compile_eq_ok {source : String} {declared : List String} {p : Program}
    (h : Program.compile source declared = .ok p) :
    ∃ t, p.root.check declared = .ok t ∧ Expr.parse source = .ok p.root ∧ p.source = source ∧
      p.declared = declared := by
  unfold Program.compile at h
  split at h
  next => cases h
  next =>
    obtain ⟨root, hr, h⟩ := bind_eq_ok.mp h
    obtain ⟨t, ht, h⟩ := bind_eq_ok.mp h
    cases h
    exact ⟨t, ht, hr, rfl, rfl⟩

/-- The variables of a compiled program have names that the language can read. -/
theorem Program.isIdentifier_of_compile {source : String} {declared : List String} {p : Program}
    (h : compile source declared = .ok p) : ∀ v ∈ declared, isIdentifier v = true := by
  unfold compile at h
  split at h
  next => cases h
  next hnone => simpa using hnone

theorem Program.compile_of_parse {source : String} {declared : List String} {root : Expr}
    {t : StaticType} (hd : ∀ v ∈ declared, isIdentifier v = true)
    (hr : Expr.parse source = .ok root) (ht : root.check declared = .ok t) :
    compile source declared = .ok ⟨source, declared, root⟩ := by
  have hnone : (declared.find? fun v => !isIdentifier v) = none :=
    List.find?_eq_none.mpr fun v hv => by simp [hd v hv]
  rw [compile, hnone]
  exact bind_eq_ok.mpr ⟨root, hr, bind_eq_ok.mpr ⟨t, ht, rfl⟩⟩

end EventStream
