import EventStream.Proofs.Syntax.Literals
import EventStream.Proofs.Syntax.Locality

namespace EventStream

open EventStream.Parser

/-- A text that is these tokens before anything that prolongs none of them. -/
def LexesAs (s : List Char) (us : List Token) : Prop :=
  ∀ start x, Lexer.Apart x →
    Spans us (Lexer.lexemes start (s ++ x)) (Lexer.lexemes (start + byteSize s) x)

section
variable {s t x : List Char} {us vs : List Token} {c : Char}

theorem lexesAs_nil : LexesAs [] [] := fun _ _ _ => rfl

theorem LexesAs.append (h : LexesAs s us) (h' : LexesAs t vs)
    (ht : ∀ x, Lexer.Apart x → Lexer.Apart (t ++ x)) : LexesAs (s ++ t) (us ++ vs) := by
  intro start x hx
  rw [List.append_assoc, byteSize_append, ← Nat.add_assoc]
  exact (h _ _ (ht x hx)).trans (h' _ x hx)

theorem LexesAs.symbol {k : Symbol} (hc : Lexer.isGap c = false)
    (h : ∀ x, Lexer.longest c x = (.symbol k, [])) (ht : LexesAs t us) :
    LexesAs (c :: t) (.symbol k :: us) := by
  intro start x hx
  rw [List.cons_append, byteSize, ← Nat.add_assoc]
  exact (spans_symbol hc (h _)).trans (ht _ x hx)

theorem LexesAs.gap (hc : Lexer.isGap c = true) (ht : LexesAs t us) : LexesAs (c :: t) us := by
  intro start x hx
  rw [List.cons_append, byteSize, ← Nat.add_assoc, lexemes_gap hc]
  exact ht _ x hx

/-- The tokens of a whole text. -/
theorem LexesAs.spans_tokens {source : String} (h : LexesAs source.toList us) :
    ∃ rest, Spans us (tokens source) rest ∧ peek rest = .ending := by
  have hs := h 0 [] (by simp [Lexer.Apart])
  rw [List.append_nil] at hs
  exact ⟨_, hs, by rw [Lexer.lexemes]; rfl⟩

/-- What is read has no token that is none of the language. -/
theorem lexesAs_of_parse {source : String} {e : Expr} (h : Expr.parse source = .ok e) :
    LexesAs source.toList (sentence (tokens source)) ∧
      Derives (.expression e) (sentence (tokens source)) := by
  have hd := derives_of_parse (Expr.parse_eq_ok.mp h)
  exact ⟨fun _ _ hx => spans_lexemes hx hd.invalid_not_mem, hd⟩

theorem apart_of_mem (h : c ∈ [',', ':', '(', ')', ']', '\x7d']) : Lexer.Apart (c :: x) := by
  rintro d hd
  obtain rfl : c = d := by simpa using hd
  simp only [List.mem_cons, List.not_mem_nil, or_false] at h
  rcases h with rfl | rfl | rfl | rfl | rfl | rfl <;> decide

theorem lexesAs_of_isIdentifier {name : String} (h : isIdentifier name = true) :
    LexesAs name.toList [.identifier name] :=
  fun _ _ hx => spans_name h fun c hc => (hx c hc).1

theorem lexesAs_literal {quote : Char} (hq : Lexer.IsQuote quote) (s : String) :
    LexesAs (literal quote s).toList [.string (escapedBody quote s.toList)] :=
  fun _ _ _ => spans_literal hq s

theorem lexesAs_closed (c : Char) {close : Symbol} (h : LexesAs s us)
    (hc : (c, close) ∈ [(')', Symbol.rightParen), (']', .rightBracket), ('\x7d', .rightBrace)]) :
    LexesAs (s ++ [c]) (us ++ [.symbol close]) := by
  simp only [List.mem_cons, List.not_mem_nil, or_false, Prod.mk.injEq] at hc
  rcases hc with ⟨rfl, rfl⟩ | ⟨rfl, rfl⟩ | ⟨rfl, rfl⟩ <;>
    exact h.append (.symbol rfl (fun _ => rfl) lexesAs_nil) fun _ _ => apart_of_mem (by simp)

/-- Texts with commas and spaces between them. -/
theorem lexesAs_joined {ι : Type} {text : ι → List Char} {us : ι → List Token} {parts : List ι}
    (h : ∀ p ∈ parts, LexesAs (text p) (us p)) :
    LexesAs (", ".toList.intercalate (parts.map text))
      (List.intercalate [.symbol .comma] (parts.map us)) := by
  have hcomma : ", ".toList = [',', ' '] := rfl
  rw [hcomma]
  induction parts with
  | nil => exact lexesAs_nil
  | cons p parts ih =>
    have hp := h p List.mem_cons_self
    cases parts with
    | nil => simpa [List.intercalate] using hp
    | cons q parts =>
      have hq := ih fun r hr => h r (List.mem_cons_of_mem p hr)
      simp only [List.map_cons, List.intercalate_cons_cons, List.append_assoc] at hq ⊢
      refine hp.append (.symbol rfl (fun _ => rfl) (.gap rfl hq)) fun x _ => ?_
      exact apart_of_mem (by simp)

end

namespace Parser

section
variable {ι : Type} {room : Nat} {close : Symbol}

theorem headed_intercalate {kind : Token → Prop} {sep us : List Token} {l : List (List Token)}
    (h : Headed kind us) : Headed kind (sep.intercalate (us :: l)) := by
  cases l with
  | nil => rwa [List.intercalate_singleton]
  | cons vs l =>
    rw [List.intercalate_cons_cons, List.append_assoc]
    exact h.append _

section
variable {us : ι → List Token} {e : ι → Expr} {parts : List ι}
  (h : ∀ p ∈ parts, Portable 14 8 (expression · room ·) (us p) (e p) ∧
    Headed Token.startsSigned (us p))
  (hc : close.closes)

include h hc

/-- Parts that can be read with some room each can be read with the same room one after another. -/
theorem portable_elementsFrom (hne : parts ≠ []) {done : List Expr} :
    Portable 15 0 (elementsFrom · close done room ·)
      (List.intercalate [.symbol .comma] (parts.map us) ++ [.symbol close])
      (done.reverse ++ parts.map e) := by
  induction parts generalizing done with
  | nil => exact absurd rfl hne
  | cons p parts ih =>
    obtain ⟨hp, _⟩ := h p List.mem_cons_self
    cases parts with
    | nil =>
      refine .succ fun {fuel ts rest} hs hf _ => ?_
      obtain ⟨mid, hus, hclose⟩ := spans_append.mp hs
      rw [List.map_singleton, List.intercalate_singleton] at hus
      have hend : Closed close mid rest := .inl hclose
      refine bind_eq_ok.mpr ⟨_, hp.reads hus hf (reach_of_closed hend hc), ?_⟩
      dsimp only
      rw [if_neg (not_more_of_closed hend hc)]
      exact bind_eq_ok.mpr ⟨_, expect_of_closed hend hc, by simp⟩
    | cons q parts =>
      have htail := @ih (fun r hr => h r (List.mem_cons_of_mem p hr)) (by simp) (e p :: done)
      have hhead : Headed Token.startsSigned
          (List.intercalate [.symbol .comma] ((q :: parts).map us) ++ [.symbol close]) :=
        (headed_intercalate (h q (by simp)).2).append _
      refine .succ fun {fuel ts rest} hs hf _ => ?_
      simp only [List.map_cons, List.intercalate_cons_cons, List.append_assoc,
        List.singleton_append] at hs
      obtain ⟨mid, hus, hs, _⟩ := hs.split
      obtain ⟨hcomma, hvs, _⟩ := hs.uncons
      have hvs : Spans (List.intercalate [.symbol .comma] ((q :: parts).map us) ++
          [.symbol close]) (mid.drop 1) rest := hvs
      have hgo : elementsFrom fuel close (e p :: done) room (mid.drop 1) = _ :=
        htail.reads hvs (by omega) (Nat.zero_le _)
      refine bind_eq_ok.mpr ⟨_, hp.reads hus hf (by rw [hcomma]; decide), ?_⟩
      dsimp only
      rw [if_pos ⟨hcomma, peek_ne_close hhead hvs hc⟩]
      simpa using hgo

theorem portable_elements :
    Portable 16 0 (elements · close room ·)
      (List.intercalate [.symbol .comma] (parts.map us) ++ [.symbol close]) (parts.map e) := by
  cases parts with
  | nil =>
    refine .succ fun hs _ _ => ?_
    obtain ⟨hclose, _, rfl⟩ := hs
    exact if_pos hclose
  | cons p parts =>
    have hitems := @portable_elementsFrom _ _ _ _ _ _ h hc (by simp) []
    have hhead : Headed Token.startsSigned
        (List.intercalate [.symbol .comma] ((p :: parts).map us) ++ [.symbol close]) :=
      (headed_intercalate (h p List.mem_cons_self).2).append _
    refine .succ fun hs hf hr => ?_
    unfold elements
    rw [if_neg (peek_ne_close hhead hs hc)]
    exact hitems.reads hs hf hr

end

/-- A key and its value. -/
def entryTokens (quote : Char) (key : String) (us : List Token) : List Token :=
  .string (escapedBody quote key.toList) :: .symbol .colon :: us

section
variable {quote : Char} (hq : Lexer.IsQuote quote)

include hq

/-- One entry, and then what the loop makes of the entries so far. -/
theorem entriesFrom_entry {key : String} {us : List Token} {e : Expr}
    {done es : List (String × Expr)} {fuel : Nat} {ts mid rest : Tokens}
    (h : Portable 14 8 (expression · room ·) us e) (hs : Spans (entryTokens quote key us) ts mid)
    (hf : 16 * ts.length + 14 ≤ fuel) (hr : 8 ≤ (peek mid).reach)
    (hgo : (if peek mid = .symbol .comma ∧ peek (mid.drop 1) ≠ .symbol .rightBrace then
        entriesFrom fuel ((key, e) :: done) room (mid.drop 1)
      else
        expect .rightBrace (if peek mid = .symbol .comma then mid.drop 1 else mid) >>= fun rest =>
          .ok (((key, e) :: done).reverse, rest)) = .ok (es, rest)) :
    entriesFrom (fuel + 1) done room ts = .ok (es, rest) := by
  obtain ⟨hkey, hs, _⟩ := hs.uncons
  obtain ⟨hcolon, hus, _⟩ := hs.uncons
  have he := escaped_escapedBody hq key.toList
  refine Or.resolve_right (entriesFrom_round he hkey hcolon (.inl (h.reads hus (by omega) hr)) id
    (.inl ?_)) And.right
  rwa [String.ofList_toList]

section
variable (key : ι → String) {us : ι → List Token} {e : ι → Expr} {parts : List ι}
  (h : ∀ p ∈ parts, Portable 14 8 (expression · room ·) (us p) (e p))

include h

theorem portable_entriesFrom (hne : parts ≠ []) {done : List (String × Expr)} :
    Portable 15 0 (entriesFrom · done room ·)
      (List.intercalate [.symbol .comma] (parts.map fun p => entryTokens quote (key p) (us p)) ++
        [.symbol .rightBrace])
      (done.reverse ++ parts.map fun p => (key p, e p)) := by
  have hc : Symbol.rightBrace.closes := .inr (.inr rfl)
  induction parts generalizing done with
  | nil => exact absurd rfl hne
  | cons p parts ih =>
    have hp := h p List.mem_cons_self
    cases parts with
    | nil =>
      refine .succ fun {fuel ts rest} hs hf _ => ?_
      obtain ⟨mid, hus, hclose⟩ := spans_append.mp hs
      rw [List.map_singleton, List.intercalate_singleton] at hus
      have hend : Closed .rightBrace mid rest := .inl hclose
      refine entriesFrom_entry hq hp hus hf (reach_of_closed hend hc) ?_
      rw [if_neg (not_more_of_closed hend hc)]
      exact bind_eq_ok.mpr ⟨_, expect_of_closed hend hc, by simp⟩
    | cons q parts =>
      have htail := @ih (fun r hr => h r (List.mem_cons_of_mem p hr)) (by simp)
        ((key p, e p) :: done)
      refine .succ fun {fuel ts rest} hs hf _ => ?_
      simp only [List.map_cons, List.intercalate_cons_cons, List.append_assoc,
        List.singleton_append] at hs
      obtain ⟨mid, hus, hs, _⟩ := hs.split
      obtain ⟨hcomma, hvs, _⟩ := hs.uncons
      have hvs : Spans (List.intercalate [.symbol .comma]
          ((q :: parts).map fun p => entryTokens quote (key p) (us p)) ++ [.symbol .rightBrace])
          (mid.drop 1) rest := hvs
      have hhead : Headed Token.startsSigned (List.intercalate [.symbol .comma]
          ((q :: parts).map fun p => entryTokens quote (key p) (us p)) ++ [.symbol .rightBrace]) :=
        (headed_intercalate ⟨_, _, rfl, .inl rfl⟩).append _
      have hgo : entriesFrom fuel ((key p, e p) :: done) room (mid.drop 1) = _ :=
        htail.reads hvs (by omega) (Nat.zero_le _)
      refine entriesFrom_entry hq hp hus hf (by rw [hcomma]; decide) ?_
      rw [if_pos ⟨hcomma, peek_ne_close hhead hvs hc⟩]
      simpa using hgo

theorem portable_entries :
    Portable 16 0 (entries · room ·)
      (List.intercalate [.symbol .comma] (parts.map fun p => entryTokens quote (key p) (us p)) ++
        [.symbol .rightBrace])
      (parts.map fun p => (key p, e p)) := by
  cases parts with
  | nil =>
    refine .succ fun hs _ _ => ?_
    obtain ⟨hclose, _, rfl⟩ := hs
    exact if_pos hclose
  | cons p parts =>
    have hitems := @portable_entriesFrom _ _ _ hq key _ _ _ h (by simp) []
    have hhead : Headed Token.startsSigned (List.intercalate [.symbol .comma]
        ((p :: parts).map fun p => entryTokens quote (key p) (us p)) ++ [.symbol .rightBrace]) :=
      (headed_intercalate ⟨_, _, rfl, .inl rfl⟩).append _
    refine .succ fun hs hf hr => ?_
    unfold entries
    rw [if_neg (peek_ne_close hhead hs (.inr (.inr rfl)))]
    exact hitems.reads hs hf hr

end

end

section
variable {us : List Token} {es : List Expr} {ps : List (String × Expr)}

theorem portable_list
    (h : Portable 16 0 (elements · .rightBracket room ·) us es) :
    Portable 1 1 (primary · room ·) (.symbol .leftBracket :: us) (.list es) := by
  refine .succ fun {fuel ts rest} hs hf _ => ?_
  obtain ⟨hopen, hus, _⟩ := hs.uncons
  unfold primary
  rw [hopen]
  exact bind_eq_ok.mpr ⟨_, h.reads hus (by omega) (Nat.zero_le _), rfl⟩

theorem portable_call {function : String} (hf : function ≠ "has")
    (h : Portable 16 0 (elements · .rightParen room ·) us es) :
    Portable 1 1 (primary · room ·) (.identifier function :: .symbol .leftParen :: us)
      (.call function none es) := by
  refine .succ fun {fuel ts rest} hs hf' _ => ?_
  obtain ⟨hname, hs, _⟩ := hs.uncons
  obtain ⟨hopen, hus, _⟩ := hs.uncons
  rw [List.drop_drop] at *
  have hread : elements fuel .rightParen room (ts.drop (1 + 1)) = .ok (es, rest) :=
    h.reads hus (by omega) (Nat.zero_le _)
  unfold primary
  rw [hname]
  dsimp only
  rw [if_pos hopen]
  refine bind_eq_ok.mpr ⟨_, hread, ?_⟩
  exact bind_eq_ok.mpr ⟨_, if_neg hf, rfl⟩

theorem portable_map
    (h : Portable 16 0 (entries · room ·) us ps) :
    Portable 1 1 (primary · room ·) (.symbol .leftBrace :: us) (.map ps) := by
  refine .succ fun {fuel ts rest} hs hf _ => ?_
  obtain ⟨hopen, hus, _⟩ := hs.uncons
  unfold primary
  rw [hopen]
  exact bind_eq_ok.mpr ⟨_, h.reads hus (by omega) (Nat.zero_le _), rfl⟩

end

end

section
variable {parts : List (String × Expr)} {us : List Token} {source : String} {e d : Expr}

theorem parse_of_portable (hs : LexesAs source.toList us)
    (h : Portable 14 8 (expression · maxDepth ·) us e) : Expr.parse source = .ok e := by
  obtain ⟨rest, hspan, hend⟩ := hs.spans_tokens
  have hread : expression (fuelFor (tokens source)) maxDepth (tokens source) = .ok (e, rest) :=
    h.reads hspan (by unfold fuelFor; omega) (by rw [hend]; decide)
  exact Expr.parse_eq_ok.mpr (bind_eq_ok.mpr ⟨_, hread, if_pos hend⟩)

/-- Parentheses have shown that there is a level of room to spare. -/
theorem portable_of_parens (h : Expr.parse source = .ok e)
    (hparens : Expr.parse ("(" ++ source ++ ")") = .ok d) :
    Portable 14 8 (expression · (maxDepth - 1) ·) (sentence (tokens source)) e := by
  obtain ⟨hsource, hd⟩ := lexesAs_of_parse h
  have htext : LexesAs ("(" ++ source ++ ")").toList
      (.symbol .leftParen :: (sentence (tokens source) ++ [.symbol .rightParen])) := by
    rw [String.toList_append, String.toList_append, List.append_assoc]
    exact .symbol rfl (fun _ => rfl) (lexesAs_closed ')' hsource (by simp))
  obtain ⟨_, hspan, _⟩ := htext.spans_tokens
  obtain ⟨hopen, mid, hs, ⟨hclose, _⟩, _⟩ := hspan.inside
  obtain ⟨r, hr, -⟩ := bind_eq_ok.mp (Expr.parse_eq_ok.mp hparens)
  obtain ⟨fuel, inner, hle, hinner⟩ := inside_of_paren hr hopen
  rw [fuelFor] at hle
  exact portable_of_expression hinner hd hs (by omega) (by rw [hclose]; decide)

end

end Parser

section
variable {parts : List (String × Expr)}
  (hparts : ∀ p ∈ parts, Expr.parse p.1 = .ok p.2 ∧ Expr.parse ("(" ++ p.1 ++ ")") = .ok p.2)

include hparts

theorem lexesAs_sources : LexesAs (", ".intercalate (parts.map Prod.fst)).toList
    (List.intercalate [.symbol .comma] (parts.map fun p => sentence (tokens p.1))) := by
  rw [String.toList_intercalate, List.map_map]
  exact lexesAs_joined fun p hp => (lexesAs_of_parse (hparts p hp).1).1

theorem portable_sources {close : Symbol} (hc : close.closes) :
    Portable 16 0 (elements · close (maxDepth - 1) ·)
      (List.intercalate [.symbol .comma] (parts.map fun p => sentence (tokens p.1)) ++
        [.symbol close]) (parts.map Prod.snd) :=
  portable_elements (fun p hp => ⟨portable_of_parens (hparts p hp).1 (hparts p hp).2,
    (lexesAs_of_parse (hparts p hp).1).2.begins⟩) hc

theorem parse_list : Expr.parse ("[" ++ ", ".intercalate (parts.map Prod.fst) ++ "]") =
    .ok (.list (parts.map Prod.snd)) := by
  have hportable := portable_list (portable_sources hparts (.inr (.inl rfl)))
  refine parse_of_portable ?_ (expression_of_primary ⟨_, _, rfl, rfl⟩ hportable)
  rw [String.toList_append, String.toList_append, List.append_assoc]
  exact .symbol rfl (fun _ => rfl) (lexesAs_closed ']' (lexesAs_sources hparts) (by simp))

theorem parse_call {function : String} (h : isIdentifier function = true)
    (hhas : function ≠ "has") :
    Expr.parse (function ++ "(" ++ ", ".intercalate (parts.map Prod.fst) ++ ")") =
      .ok (.call function none (parts.map Prod.snd)) := by
  have hportable := portable_call hhas (portable_sources hparts (.inl rfl))
  refine parse_of_portable ?_ (expression_of_primary ⟨_, _, rfl, rfl⟩ hportable)
  rw [String.toList_append, String.toList_append, String.toList_append, List.append_assoc,
    List.append_assoc]
  refine (lexesAs_of_isIdentifier h).append ?_ fun x _ => apart_of_mem (c := '(') (by simp)
  exact .symbol rfl (fun _ => rfl) (lexesAs_closed ')' (lexesAs_sources hparts) (by simp))

end

section
variable {quote : Char} (hq : Lexer.IsQuote quote)

include hq

theorem lexesAs_entry (key : String) {source : String} {us : List Token} (h : LexesAs source.toList us) :
    LexesAs (literal quote key ++ ": " ++ source).toList (entryTokens quote key us) := by
  rw [String.toList_append, String.toList_append, List.append_assoc]
  refine (lexesAs_literal hq key).append ?_ fun x _ => apart_of_mem (c := ':') (by simp)
  exact .symbol rfl (fun _ => rfl) (.gap rfl h)

theorem parse_map {keyed : List (String × String × Expr)}
    (h : ∀ p ∈ keyed, Expr.parse p.2.1 = .ok p.2.2 ∧
      Expr.parse ("(" ++ p.2.1 ++ ")") = .ok p.2.2) :
    Expr.parse ("\x7b" ++
        ", ".intercalate (keyed.map fun p => literal quote p.1 ++ ": " ++ p.2.1) ++ "\x7d") =
      .ok (.map (keyed.map fun p => (p.1, p.2.2))) := by
  have hportable := portable_map (portable_entries hq Prod.fst fun p hp =>
    portable_of_parens (h p hp).1 (h p hp).2)
  refine parse_of_portable ?_ (expression_of_primary ⟨_, _, rfl, rfl⟩ hportable)
  rw [String.toList_append, String.toList_append, String.toList_intercalate, List.map_map,
    List.append_assoc]
  have hjoined := lexesAs_joined fun p hp =>
    lexesAs_entry hq p.1 (lexesAs_of_parse (h p hp).1).1
  exact .symbol rfl (fun _ => rfl) (lexesAs_closed '\x7d' hjoined (by simp))

end

/-- Depth is a matter of levels and not of siblings: sources that can stand in parentheses can stand
side by side, in any number. -/
theorem parse_of_siblings (parts : List (String × Expr))
    (hparts : ∀ p ∈ parts, Expr.parse p.1 = .ok p.2 ∧
      Expr.parse ("(" ++ p.1 ++ ")") = .ok p.2) :
    Expr.parse ("[" ++ ", ".intercalate (parts.map Prod.fst) ++ "]") =
      .ok (.list (parts.map Prod.snd)) ∧
    (∀ function, isIdentifier function = true → function ≠ "has" →
      Expr.parse (function ++ "(" ++ ", ".intercalate (parts.map Prod.fst) ++ ")") =
        .ok (.call function none (parts.map Prod.snd))) ∧
    ∀ quote (keyed : List (String × String × Expr)), Lexer.IsQuote quote →
      keyed.map Prod.snd = parts →
      Expr.parse ("\x7b" ++
          ", ".intercalate (keyed.map fun p => literal quote p.1 ++ ": " ++ p.2.1) ++ "\x7d") =
        .ok (.map (keyed.map fun p => (p.1, p.2.2))) := by
  refine ⟨parse_list hparts, fun function hf hhas => parse_call hparts hf hhas, ?_⟩
  rintro quote keyed hq rfl
  exact parse_map hq fun p hp => hparts p.2 (List.mem_map_of_mem hp)

/-- More siblings than there are levels. -/
theorem parse_of_siblings_of_members :
    (∀ p ∈ List.replicate 200 ("a.b", Expr.member (.variable "a") "b"),
      Expr.parse p.1 = .ok p.2 ∧ Expr.parse ("(" ++ p.1 ++ ")") = .ok p.2) ∧
    isIdentifier "size" = true ∧ "size" ≠ "has" ∧ Lexer.IsQuote '"' ∧
    Expr.parse ("[" ++ ", ".intercalate (List.replicate 200 "a.b") ++ "]") =
      .ok (.list (List.replicate 200 (.member (.variable "a") "b"))) ∧
    Expr.parse ("size" ++ "(" ++ ", ".intercalate (List.replicate 200 "a.b") ++ ")") =
      .ok (.call "size" none (List.replicate 200 (.member (.variable "a") "b"))) ∧
    Expr.parse ("\x7b" ++
        ", ".intercalate (List.replicate 200 (literal '"' "k" ++ ": " ++ "a.b")) ++ "\x7d") =
      .ok (.map (List.replicate 200 ("k", .member (.variable "a") "b"))) := by
  have hparts : ∀ p ∈ List.replicate 200 ("a.b", Expr.member (.variable "a") "b"),
      Expr.parse p.1 = .ok p.2 ∧ Expr.parse ("(" ++ p.1 ++ ")") = .ok p.2 := by
    intro p hp
    rw [List.eq_of_mem_replicate hp]
    exact ⟨by cbv, by cbv⟩
  have hname : isIdentifier "size" = true := by decide
  have hhas : "size" ≠ "has" := by decide
  have hquote : Lexer.IsQuote '"' := .inl rfl
  obtain ⟨hlist, hcall, hmap⟩ := parse_of_siblings _ hparts
  have hcall := hcall "size" hname hhas
  have hmap := hmap '"' (List.replicate 200 ("k", "a.b", .member (.variable "a") "b")) hquote
    List.map_replicate
  simp only [List.map_replicate] at hlist hcall hmap
  exact ⟨hparts, hname, hhas, hquote, hlist, hcall, hmap⟩

end EventStream
