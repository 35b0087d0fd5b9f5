import EventStream.Proofs.Syntax.Failures
import EventStream.Proofs.Syntax.Tiling

namespace EventStream

/-- A text that is one token, the name that it spells. -/
def Lexer.IsName (name : String) : Prop :=
  tokens name = [⟨.identifier name, 0, name.utf8ByteSize⟩,
    ⟨.ending, name.utf8ByteSize, name.utf8ByteSize⟩]

section
variable {name : String} {source : String} {declared : List String}

theorem isName_of_isIdentifier (h : isIdentifier name = true) : Lexer.IsName name := by
  obtain ⟨c, r, hname, _⟩ := isIdentifier_iff.mp h
  obtain ⟨hgap, hlongest⟩ := Lexer.longest_of_isIdentifier h hname
  have hsize : name.utf8ByteSize = byteSize (c :: r) := by
    rw [← utf8ByteSize_ofList, ← hname, String.ofList_toList]
  rw [Lexer.IsName, tokens, hname, Lexer.lexemes, hsize]
  simp only [hgap, hlongest, List.drop_length, Bool.false_eq_true, if_false, Nat.zero_add]
  rw [Lexer.lexemes]

/-- The lexer has no other names, wherever in a text they stand. -/
theorem isIdentifier_of_mem_tokens {l : Lexeme} (hl : l ∈ tokens source)
    (ht : l.token = .identifier name) : isIdentifier name = true := by
  obtain ⟨text, rest, htakes⟩ :=
    (Lexer.tiles_lexemes 0 source.toList).takes hl (by simp [ht])
  rw [ht] at htakes
  cases htakes with
  | word hword =>
    cases hword with
    | identifier h => exact h

theorem isIdentifier_iff_isName : isIdentifier name = true ↔ Lexer.IsName name := by
  refine ⟨isName_of_isIdentifier, fun h => ?_⟩
  have hmem : (⟨.identifier name, 0, name.utf8ByteSize⟩ : Lexeme) ∈ tokens name := by
    rw [h]
    exact List.mem_cons_self
  exact isIdentifier_of_mem_tokens hmem rfl

theorem parse_of_isIdentifier (h : isIdentifier name = true) :
    Expr.parse name = .ok (.variable name) := by
  have htokens : tokens name = _ := isName_of_isIdentifier h
  unfold Expr.parse
  rw [htokens]
  rfl

namespace Program

/-- No part of compilation but the first speaks of names that cannot be declared. -/
theorem compile_eq_invalidVariable_iff : compile source declared = .error (.invalidVariable name) ↔
    (declared.find? fun v => !isIdentifier v) = some name := by
  constructor
  · intro h
    obtain ⟨v, hv, herr⟩ | ⟨_, hrefused | htyping⟩ := compile_eq_error h
    · cases herr
      exact hv
    · cases hrefused
    · cases htyping
  · intro h
    rw [compile, h]

/-- A name that is declared compiles to the variable that it names. -/
theorem compile_name (h : ∀ v ∈ declared, isIdentifier v = true) (hname : name ∈ declared) :
    compile name declared = .ok ⟨name, declared, .variable name⟩ := by
  have hcheck : (Expr.variable name).check declared = .ok (.known .map) :=
    if_pos (List.contains_iff_mem.mpr hname)
  exact compile_of_parse h (parse_of_isIdentifier (h name hname)) hcheck

theorem evaluate_variable {b : Bindings} {v : Value} (h : b.get? name = some v) :
    (⟨source, declared, .variable name⟩ : Program).evaluate b = .ok v := by
  rw [evaluate, Expr.eval, Eval.eval, h]

end Program

end

/-- A variable is refused exactly when its name is not one token, of several such variables the first;
and if none is, the name of each of them is a source, whose value is the one that is bound to it. -/
theorem declared_names_are_read (source : String) (declared : List String) :
    (∀ name, Program.compile source [name] = .error (.invalidVariable name) ↔
      ¬Lexer.IsName name) ∧
    (∀ name, Program.compile source declared = .error (.invalidVariable name) ↔
      ∃ before after, declared = before ++ name :: after ∧ ¬Lexer.IsName name ∧
        ∀ v ∈ before, Lexer.IsName v) ∧
    ((∀ name, Program.compile source declared ≠ .error (.invalidVariable name)) →
      ∀ name ∈ declared, ∃ p, Program.compile name declared = .ok p ∧
        ∀ b v, b.get? name = some v → p.evaluate b = .ok v) := by
  have hrefused (declared : List String) (name : String) :
      Program.compile source declared = .error (.invalidVariable name) ↔
        ∃ before after, declared = before ++ name :: after ∧ ¬Lexer.IsName name ∧
          ∀ v ∈ before, Lexer.IsName v := by
    rw [Program.compile_eq_invalidVariable_iff, List.find?_eq_some_iff_append]
    simp only [← isIdentifier_iff_isName, Bool.not_eq_true', Bool.not_not, Bool.not_eq_true]
    exact ⟨fun ⟨hname, before, after, hsplit, hbefore⟩ => ⟨before, after, hsplit, hname, hbefore⟩,
      fun ⟨before, after, hsplit, hname, hbefore⟩ => ⟨hname, before, after, hsplit, hbefore⟩⟩
  refine ⟨fun name => ?_, hrefused declared, fun h name hname => ?_⟩
  · rw [hrefused]
    constructor
    · rintro ⟨before, after, hsplit, hname, _⟩
      rw [eq_comm, List.append_eq_singleton_iff] at hsplit
      obtain ⟨rfl, hcons⟩ | ⟨_, hcons⟩ := hsplit
      · exact List.head_eq_of_cons_eq hcons ▸ hname
      · cases hcons
    · exact fun hname => ⟨[], [], rfl, hname, nofun⟩
  · have hnames : ∀ v ∈ declared, isIdentifier v = true := by
      cases hfind : declared.find? fun v => !isIdentifier v with
      | none => simpa using hfind
      | some v => exact absurd (Program.compile_eq_invalidVariable_iff.mpr hfind) (h v)
    exact ⟨_, Program.compile_name hnames hname, fun b v => Program.evaluate_variable⟩

/-- A variable that has the name of a macro, and one that has the name of a function. -/
theorem declared_names_are_read_of_macro :
    (∀ name, Program.compile "1" ["has", "size"] ≠ .error (.invalidVariable name)) ∧
    ∃ p, Program.compile "has" ["has", "size"] = .ok p ∧
      p.evaluate (Bindings.empty.insert "has" (.map [])) = .ok (.map []) := by
  have hcompile : Program.compile "1" ["has", "size"] =
      .ok ⟨"1", ["has", "size"], .int 1⟩ := by
    cbv
  have haccepted (name : String) :
      Program.compile "1" ["has", "size"] ≠ .error (.invalidVariable name) := by
    rw [hcompile]
    intro h
    cases h
  obtain ⟨p, hp, hvalue⟩ :=
    (declared_names_are_read "1" ["has", "size"]).2.2 haccepted "has" List.mem_cons_self
  exact ⟨haccepted, p, hp, hvalue _ _ rfl⟩

end EventStream
