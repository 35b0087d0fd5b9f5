import EventStream.Proofs.Syntax.Accepted
import EventStream.Proofs.Syntax.Words
import EventStream.Proofs.Text.Sizes

namespace EventStream

namespace Lexer

/-- A text that starts at a byte of the source, made up of gaps and tokens by turns. -/
inductive Tiles : Nat → List Char → List Lexeme → Prop
  | ending {start gap} : (∀ c ∈ gap, isGap c = true) →
      Tiles start gap [⟨.ending, start + byteSize gap, start + byteSize gap⟩]
  | token {start gap t text rest ls} : (∀ c ∈ gap, isGap c = true) → Takes t text rest →
      Tiles (start + byteSize (gap ++ text)) rest ls →
      Tiles start (gap ++ text ++ rest)
        (⟨t, start + byteSize gap, start + byteSize (gap ++ text)⟩ :: ls)

section
variable {t : Token} {text rest s : List Char} {start : Nat} {ls : List Lexeme} {l : Lexeme}
  {c : Char}

theorem Takes.ne_nil (h : Takes t text rest) : text ≠ [] := by
  cases h with
  | word h => exact h.ne_nil
  | stray | unclosed => simp

theorem Takes.ne_ending (h : Takes t text rest) : t ≠ .ending := by
  cases h with
  | word h => cases h <;> simp
  | stray | unclosed => simp

/-- A character of a gap in front makes the first gap longer. -/
theorem Tiles.cons_gap (hc : isGap c = true) (h : Tiles (start + c.utf8Size) s ls) :
    Tiles start (c :: s) ls := by
  have hgap {gap : List Char} (h : ∀ d ∈ gap, isGap d = true) : ∀ d ∈ c :: gap, isGap d = true := by
    simpa [hc] using h
  cases h with
  | @ending _ gap h =>
    rw [Nat.add_assoc]
    exact .ending (hgap h)
  | @token _ gap t text rest ls h ht htail =>
    have htail : Tiles (start + byteSize (c :: gap ++ text)) rest ls := by
      rwa [List.cons_append, byteSize, ← Nat.add_assoc]
    rw [Nat.add_assoc, Nat.add_assoc]
    exact .token (hgap h) ht htail

theorem tiles_lexemes (start : Nat) (s : List Char) : Tiles start s (lexemes start s) := by
  fun_induction lexemes start s with
  | case1 start => exact .ending (List.forall_mem_nil _)
  | case2 start c r hc ih => exact ih.cons_gap hc
  | case3 start c r hc token tail hm stop ih =>
    have htaken := longest_taken (r := r) (Bool.eq_false_iff.mpr hc)
    rw [hm] at htaken
    obtain ⟨rest, hr, ht⟩ := htaken
    dsimp only at hr ht
    rw [hr, List.drop_left] at ih
    rw [hr, List.drop_left]
    exact .token (List.forall_mem_nil _) ht ih

theorem Tiles.bounds (h : Tiles start s ls) (hl : l ∈ ls) : start ≤ l.start := by
  induction h with
  | ending =>
    rw [List.mem_singleton.mp hl]
    exact Nat.le_add_right _ _
  | token _ _ _ ih =>
    rcases List.mem_cons.mp hl with rfl | hl
    · exact Nat.le_add_right _ _
    · exact Nat.le_of_add_right_le (ih hl)

theorem Tiles.pairwise (h : Tiles start s ls) : ls.Pairwise fun a b => a.stop ≤ b.start := by
  induction h with
  | ending => exact List.pairwise_singleton _ _
  | token _ _ htail ih => exact .cons (fun b hb => htail.bounds hb) ih

theorem Tiles.nonempty (h : Tiles start s ls) (hl : l ∈ ls) (ht : l.token ≠ .ending) :
    l.start < l.stop := by
  induction h with
  | ending =>
    rw [List.mem_singleton.mp hl] at ht
    exact absurd rfl ht
  | token _ htakes _ ih =>
    rcases List.mem_cons.mp hl with rfl | hl
    · have := byteSize_pos htakes.ne_nil
      simp only [byteSize_append]
      omega
    · exact ih hl

theorem Tiles.takes (h : Tiles start s ls) (hl : l ∈ ls) (ht : l.token ≠ .ending) :
    ∃ text rest, Takes l.token text rest := by
  induction h with
  | ending =>
    rw [List.mem_singleton.mp hl] at ht
    exact absurd rfl ht
  | token _ htakes _ ih =>
    rcases List.mem_cons.mp hl with rfl | hl
    · exact ⟨_, _, htakes⟩
    · exact ih hl

/-- Where a token begins and ends, a text can be cut. -/
theorem Tiles.cut (h : Tiles start s ls) (hl : l ∈ ls) :
    ∃ before text after, s = before ++ text ++ after ∧ l.start = start + byteSize before ∧
      l.stop = start + byteSize (before ++ text) := by
  induction h with
  | @ending _ gap =>
    rw [List.mem_singleton.mp hl]
    exact ⟨gap, [], [], by simp, rfl, by simp⟩
  | @token _ gap t text rest ls _ _ _ ih =>
    rcases List.mem_cons.mp hl with rfl | hl
    · exact ⟨gap, text, rest, rfl, rfl, rfl⟩
    · obtain ⟨before, found, after, rfl, hstart, hstop⟩ := ih hl
      refine ⟨gap ++ text ++ before, found, after, by simp, ?_, ?_⟩
      · rw [hstart, byteSize_append _ before, Nat.add_assoc]
      · rw [hstop, List.append_assoc, byteSize_append _ (before ++ found), Nat.add_assoc]

theorem Tiles.last (h : Tiles start s ls) :
    ∃ before, ls = before ++ [⟨.ending, start + byteSize s, start + byteSize s⟩] ∧
      ∀ l ∈ before, l.token ≠ .ending := by
  induction h with
  | ending => exact ⟨[], rfl, by simp⟩
  | @token start gap t text rest ls _ htakes _ ih =>
    obtain ⟨before, rfl, hbefore⟩ := ih
    refine ⟨⟨t, start + byteSize gap, start + byteSize (gap ++ text)⟩ :: before, ?_, ?_⟩
    · rw [List.cons_append, byteSize_append (_ ++ _), Nat.add_assoc]
    · intro l hl
      rcases List.mem_cons.mp hl with rfl | hl
      · exact htakes.ne_ending
      · exact hbefore l hl

end

end Lexer

/-- No phrase has a token that is none of the language. -/
theorem Derives.invalid_not_mem {p : Phrase} {us : List Token} (h : Derives p us)
    (text : List Char) : .invalid text ∉ us := by
  induction h with
  | operator op _ _ ih ih' => cases op <;> simp [BinaryOp.token, ih, ih']
  | sign op _ ih => cases op <;> simp [UnaryOp.token, ih]
  | _ => simp_all

/-- A token that is none of the language makes the source an error. -/
theorem parse_of_invalid {source : String} {text : List Char} {l : Lexeme}
    (hl : l ∈ tokens source) (ht : l.token = .invalid text) : ∃ e, Expr.parse source = .error e := by
  obtain ⟨before, htokens, hbefore⟩ := (Lexer.tiles_lexemes 0 source.toList).last
  change tokens source = _ at htokens
  have hmem : .invalid text ∈ sentence (tokens source) := by
    rw [htokens] at hl ⊢
    rw [sentence_append hbefore rfl]
    rcases List.mem_append.mp hl with hl | hl
    · exact List.mem_map.mpr ⟨l, hl, ht⟩
    · rw [List.mem_singleton.mp hl] at ht
      cases ht
  cases hparse : Expr.parse source with
  | error e => exact ⟨e, rfl⟩
  | ok e =>
    have hderives := Parser.derives_of_parse (Expr.parse_eq_ok.mp hparse)
    exact absurd hmem (hderives.invalid_not_mem text)

/-- Gaps and tokens by turns make up the source, a word taken wherever one begins and the longest one
there; the spans come one after another, at the boundaries of characters, and are empty for the end
only, which stands once, last. What is none of the words is an invalid token, and a source with one
is never read. -/
theorem tokens_tile_source (source : String) :
    Lexer.Tiles 0 source.toList (tokens source) ∧
    (tokens source).Pairwise (fun a b => a.stop ≤ b.start) ∧
    (∀ l ∈ tokens source, l.token ≠ .ending → l.start < l.stop) ∧
    (∀ l ∈ tokens source, (⟨l.start⟩ : String.Pos.Raw).IsValid source ∧
      (⟨l.stop⟩ : String.Pos.Raw).IsValid source) ∧
    (∃ before, tokens source = before ++
        [⟨.ending, source.utf8ByteSize, source.utf8ByteSize⟩] ∧
      ∀ l ∈ before, l.token ≠ .ending) ∧
    (∀ l ∈ tokens source, ∀ text, l.token = .invalid text →
      ∃ e, Expr.parse source = .error e) := by
  have htiles : Lexer.Tiles 0 source.toList (tokens source) := Lexer.tiles_lexemes 0 source.toList
  have hsize : 0 + byteSize source.toList = source.utf8ByteSize := by
    rw [Nat.zero_add, ← utf8ByteSize_ofList, String.ofList_toList]
  refine ⟨htiles, htiles.pairwise, fun l => htiles.nonempty, fun l hl => ?_, hsize ▸ htiles.last,
    fun l hl text => parse_of_invalid hl⟩
  obtain ⟨before, text, after, hs, hstart, hstop⟩ := htiles.cut hl
  rw [hstart, hstop, Nat.zero_add, Nat.zero_add]
  exact ⟨isValid_of_cut (by rw [hs, List.append_assoc]), isValid_of_cut hs⟩

/-- A character of two bytes, and a string that nothing closes. -/
theorem tokens_tile_source_of_strays :
    tokens "é <= 'it" = [⟨.invalid ['é'], 0, 2⟩, ⟨.symbol .lessEqual, 3, 5⟩,
      ⟨.invalid ['\'', 'i', 't'], 6, 9⟩, ⟨.ending, 9, 9⟩] ∧
    ∃ e, Expr.parse "é <= 'it" = .error e := by
  have htokens : tokens "é <= 'it" = [⟨.invalid ['é'], 0, 2⟩, ⟨.symbol .lessEqual, 3, 5⟩,
      ⟨.invalid ['\'', 'i', 't'], 6, 9⟩, ⟨.ending, 9, 9⟩] := by
    cbv
  obtain ⟨_, _, _, _, _, hinvalid⟩ := tokens_tile_source "é <= 'it"
  refine ⟨htokens, hinvalid ⟨.invalid ['é'], 0, 2⟩ ?_ ['é'] rfl⟩
  rw [htokens]
  exact List.mem_cons_self

end EventStream
