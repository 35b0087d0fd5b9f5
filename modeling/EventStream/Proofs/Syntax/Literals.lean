import EventStream.Proofs.Syntax.Adjacent

namespace EventStream

/-- The text of a string between quotes: a backslash before a quote of the same kind and before a
backslash, and the escape of a line feed. -/
def escapedBody (quote : Char) : List Char → List Char
  | [] => []
  | c :: r =>
    if c = '\n' then '\\' :: 'n' :: escapedBody quote r
    else if c = '\\' ∨ c = quote then '\\' :: c :: escapedBody quote r
    else c :: escapedBody quote r

/-- A string between quotes. -/
def literal (quote : Char) (s : String) : String :=
  String.ofList (quote :: (escapedBody quote s.toList ++ [quote]))

section
variable {quote : Char} {start : Nat} {s x : List Char}

theorem units_escapedBody (quote : Char) (s : List Char) :
    Lexer.Units quote (escapedBody quote s) := by
  induction s with
  | nil => exact .nil
  | cons c s ih =>
    unfold escapedBody
    split
    next => exact .pair (by decide) ih
    next hline =>
      split
      next => exact .pair hline ih
      next hplain =>
        rw [not_or] at hplain
        exact .plain hplain.2 hplain.1 hline ih

theorem escaped_escapedBody (hq : Lexer.IsQuote quote) (s : List Char) :
    Escaped (escapedBody quote s) s := by
  have hquote : (quote, quote) ∈ escapes := by rcases hq with rfl | rfl <;> decide
  induction s with
  | nil => exact .nil
  | cons c s ih =>
    unfold escapedBody
    split
    next hline => exact hline ▸ .escape (by decide) ih
    next =>
      split
      next h =>
        rcases h with rfl | rfl
        · exact .escape (by decide) ih
        · exact .escape hquote ih
      next hplain => exact .plain (fun h => hplain (.inl h)) ih

theorem longest_quoted {body : List Char} (hq : Lexer.IsQuote quote)
    (hu : Lexer.Units quote body) :
    Lexer.longest quote (body ++ quote :: x) = (.string body, body ++ [quote]) := by
  have hname : Lexer.isNameStart quote = false := by rcases hq with rfl | rfl <;> rfl
  have hdigit : quote.isDigit = false := by rcases hq with rfl | rfl <;> rfl
  have hbody : Lexer.stringBody quote (body ++ quote :: x) = (body, true) := by
    rw [Lexer.stringBody_append hu, Lexer.stringBody_quote hq, List.append_nil]
  unfold Lexer.longest Lexer.string
  have hq : quote = '"' ∨ quote = '\'' := hq
  simp [hname, hdigit, hq, hbody]

/-- The literal of a string is one token. -/
theorem spans_literal (hq : Lexer.IsQuote quote) (s : String) :
    Spans [.string (escapedBody quote s.toList)] (Lexer.lexemes start ((literal quote s).toList ++ x))
      (Lexer.lexemes (start + byteSize (literal quote s).toList) x) := by
  have hgap : Lexer.isGap quote = false := by rcases hq with rfl | rfl <;> rfl
  have hlongest := longest_quoted (x := x) hq (units_escapedBody quote s.toList)
  rw [literal, String.toList_ofList]
  refine spans_token start hgap ?_ (by simp)
  rw [List.append_assoc]
  exact hlongest

end

end EventStream
