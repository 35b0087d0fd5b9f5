import EventStream.Proofs.Json.Writing
import EventStream.Proofs.Syntax.Derived
import EventStream.Proofs.Syntax.Siblings

namespace EventStream

open EventStream.Json (IsDigits)
open EventStream.Parser

theorem word?_toInt (n : Int64) : word? n.toInt = some n := by
  have low := n.le_toInt
  have high := n.toInt_lt
  unfold word?
  rw [if_pos ⟨by omega, by omega⟩, Int64.ofInt_toInt]

section
variable {c d : Char} {r s t x : List Char} {us : List Token}

theorem LexesAs.name {name : String} (h : isIdentifier name = true)
    (hc : Lexer.isNamePart c = false) (ht : LexesAs (c :: t) us) :
    LexesAs (name.toList ++ c :: t) (.identifier name :: us) := by
  intro start x hx
  rw [List.append_assoc, byteSize_append, ← Nat.add_assoc]
  refine (spans_name h ?_).trans (ht _ x hx)
  rintro d hd
  cases hd
  exact hc

/-- A symbol of two characters. -/
theorem LexesAs.pair {k : Symbol} (hc : Lexer.isGap c = false)
    (h : ∀ x, Lexer.longest c (d :: x) = (.symbol k, [d])) (ht : LexesAs t us) :
    LexesAs (c :: d :: t) (.symbol k :: us) := by
  intro start x hx
  have hpair := spans_token (r := [d]) start hc (h (t ++ x)) (by simp)
  have hsize : byteSize (c :: d :: t) = byteSize [c, d] + byteSize t :=
    byteSize_append [c, d] t
  rw [hsize, ← Nat.add_assoc]
  exact hpair.trans (ht _ x hx)

theorem longest_digits {n : Int64} (hd : IsDigits (c :: r)) (hn : n.toInt = ofDigits (c :: r)) :
    Lexer.longest c r = (.integer n, r) := by
  have hdigit := hd.2 c List.mem_cons_self
  have hname : ¬Lexer.isNameStart c = true := fun h => by
    rw [Lexer.isDigit_eq_false_of_isNameStart h] at hdigit
    cases hdigit
  have hall : r.takeWhile Char.isDigit = r :=
    List.takeWhile_eq_self_iff.mpr fun d hmem => hd.2 d (List.mem_cons_of_mem c hmem)
  unfold Lexer.longest Lexer.number
  rw [if_neg hname, if_pos hdigit]
  simp only [hall, List.drop_length]
  simp [Lexer.fraction, Lexer.exponent, ← hn, word?_toInt]

theorem lexesAs_digits {ds : List Char} {n : Int64} (hd : IsDigits ds)
    (hn : n.toInt = ofDigits ds) : LexesAs ds [.integer n] := by
  obtain ⟨c, r, rfl⟩ := List.exists_cons_of_ne_nil hd.1
  have hdigit := hd.2 c List.mem_cons_self
  have hgap : Lexer.isGap c = false := by
    have hne {d : Char} (h : d.isDigit = false) : (c == d) = false :=
      beq_eq_false_iff_ne.mpr (ne_of_isDigit hdigit h)
    unfold Lexer.isGap
    rw [hne rfl, hne rfl, hne rfl, hne rfl, hne rfl]
    rfl
  have hlongest := longest_digits hd hn
  intro start x hx
  refine spans_token start hgap ?_ (by simp)
  rw [Lexer.longest_append hx (by simp [hlongest]), hlongest]

end

/-- Tokens that are no more than there are levels. -/
theorem parse_of_derives {source : String} {us : List Token} {e : Expr}
    (hs : LexesAs source.toList us) (h : Derives (.expression e) us)
    (hroom : us.length ≤ maxDepth) : Expr.parse source = .ok e := by
  obtain ⟨rest, hspan, hend⟩ := hs.spans_tokens
  have hread := expression_of_derives h hspan hend le_rfl hroom
  exact Expr.parse_eq_ok.mpr (bind_eq_ok.mpr ⟨_, hread, if_pos hend⟩)

end EventStream
