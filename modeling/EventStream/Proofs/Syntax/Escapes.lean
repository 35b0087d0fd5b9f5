import EventStream.Proofs.Syntax.Failures
import EventStream.Proofs.Syntax.Written

namespace EventStream

namespace Lexer

/-- The body of a string token is made of whole units. -/
theorem Tiles.units {start : Nat} {s raw : List Char} {ls : List Lexeme} {l : Lexeme}
    (h : Tiles start s ls) (hl : l ∈ ls) (ht : l.token = .string raw) :
    ∃ quote, IsQuote quote ∧ Units quote raw := by
  obtain ⟨text, rest, htakes⟩ := h.takes hl (by simp [ht])
  rw [ht] at htakes
  cases htakes with
  | word hword =>
    cases hword with
    | string hq hu => exact ⟨_, hq, hu⟩

end Lexer

theorem unescape_error {quote : Char} {raw : List Char} {err : CompileError}
    (hu : Lexer.Units quote raw) (h : Parser.unescape raw = .error err) :
    ∃ c, (∀ d, (c, d) ∉ escapes) ∧ err = .invalidEscape (String.ofList [c]) := by
  induction hu with
  | nil => cases h
  | @plain c body _ hslash _ _ ih =>
    rw [Parser.unescape] at h
    · exact ih (map_eq_error.mp h)
    · exact fun _ _ h _ => hslash h
    · exact fun h _ => hslash h
  | @pair c body _ _ ih =>
    rw [Parser.unescape] at h
    split at h
    next => exact ih (map_eq_error.mp h)
    next hnone =>
      have hnone : escapes.lookup c = none := hnone
      cases h
      refine ⟨c, fun d hd => ?_, rfl⟩
      rw [(lookup_eq_some_of_nodup (by decide)).mpr hd] at hnone
      cases hnone

theorem compile_escape {source text : String} {declared : List String}
    (h : Program.compile source declared = .error (.invalidEscape text)) :
    ∃ c, (∀ d, (c, d) ∉ escapes) ∧ text = String.ofList [c] := by
  obtain ⟨_, _, herr⟩ | ⟨_, hrefused | htyping⟩ := Program.compile_eq_error h
  · cases herr
  · cases hrefused with
    | escape hl hraw hescape =>
      obtain ⟨quote, _, hunits⟩ := (Lexer.tiles_lexemes 0 source.toList).units hl hraw
      obtain ⟨c, hc, herr⟩ := unescape_error hunits hescape
      exact ⟨c, hc, CompileError.invalidEscape.inj herr⟩
  · cases htyping

theorem compile_literal {quote : Char} {declared : List String} (hq : Lexer.IsQuote quote)
    (hd : ∀ name ∈ declared, isIdentifier name = true) (s : String) :
    Program.compile (literal quote s) declared =
      .ok ⟨literal quote s, declared, .string s⟩ := by
  have hderives : Derives (.expression (.string s)) [.string (escapedBody quote s.toList)] := by
    have hprimary := Derives.string (escaped_escapedBody hq s.toList)
    rw [String.ofList_toList] at hprimary
    exact .unconditional (.operand (.operand (.operand (.operand (.operand (.unsigned
      (.primary hprimary)))))))
  have hparse : Expr.parse (literal quote s) = .ok (.string s) :=
    parse_of_derives (lexesAs_literal hq s) hderives (by simp [maxDepth])
  exact Program.compile_of_parse hd hparse rfl

/-- The literal of a string in quotes of either kind is a source of its own, whose value is the
string. A string token holds whole units only, so an escape that is refused has a character, one
that no escape is made of. -/
theorem escapes_round_trip :
    (∀ quote, Lexer.IsQuote quote → ∀ (s : String) (declared : List String),
      (∀ name ∈ declared, isIdentifier name = true) →
      ∃ p, Program.compile (literal quote s) declared = .ok p ∧
        ∀ b, p.evaluate b = .ok (.string s)) ∧
    (∀ source, ∀ l ∈ tokens source, ∀ raw, l.token = .string raw →
      ∃ quote, Lexer.IsQuote quote ∧ Lexer.Units quote raw) ∧
    (∀ source declared text, Program.compile source declared = .error (.invalidEscape text) →
      ∃ c, (∀ d, (c, d) ∉ escapes) ∧ text = String.ofList [c]) ∧
    ∀ source declared, Program.compile source declared ≠ .error (.invalidEscape "") := by
  refine ⟨fun quote hq s declared hd => ⟨_, compile_literal hq hd s, fun _ => rfl⟩,
    fun source l hl raw => (Lexer.tiles_lexemes 0 source.toList).units hl,
    fun _ _ _ => compile_escape, fun source declared h => ?_⟩
  obtain ⟨c, _, hc⟩ := compile_escape h
  have hlength := congrArg String.length hc
  simp at hlength

/-- A string with a quote and a line feed in it that ends in a backslash, and a character that no
escape is made of. -/
theorem escapes_round_trip_final_backslash :
    (∃ p, Program.compile "'it\\'s\\n\\\\'" ["event"] = .ok p ∧
      p.evaluate ⟨[]⟩ = .ok (.string "it's\n\\")) ∧
    ∃ c, (∀ d, (c, d) ∉ escapes) ∧ "q" = String.ofList [c] := by
  obtain ⟨hliteral, _, hescape, _⟩ := escapes_round_trip
  have htext : literal '\'' "it's\n\\" = "'it\\'s\\n\\\\'" := by decide
  have hname : ∀ name ∈ ["event"], isIdentifier name = true :=
    List.forall_mem_singleton.mpr (by cbv)
  obtain ⟨p, hp, hvalue⟩ := hliteral '\'' (.inr rfl) "it's\n\\" ["event"] hname
  have hrefused : Program.compile "'\\q'" [] = .error (.invalidEscape "q") := by cbv
  exact ⟨⟨p, htext ▸ hp, hvalue _⟩, hescape _ _ _ hrefused⟩

end EventStream
