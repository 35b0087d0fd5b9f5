import EventStream.Proofs.Expr.Parts
import EventStream.Proofs.Syntax.Written

namespace EventStream

open EventStream.Json (integerText IsDigits isDigits_digitsOf ofDigits_digitsOf)

/-- What the decimal text of an integer is read as: the sign is an operator. -/
def Expr.written (n : Int64) : Expr :=
  if n.toInt < 0 then .unary .negate (.int (Int64.ofInt (-n.toInt))) else .int n

section
variable {n m : Int64}

/-- Every integer but the least one has an opposite of 64 bits. -/
theorem toInt_opposite (h : n ≠ Int64.minValue) :
    (Int64.ofInt (-n.toInt)).toInt = -n.toInt := by
  have low := n.le_toInt
  have high := n.toInt_lt
  have hne : n.toInt ≠ -9223372036854775808 := by
    intro hmin
    exact h (Int64.toInt_inj.mp hmin)
  exact Int64.toInt_ofInt_of_le (by omega) (by omega)

theorem derives_int (n : Int64) : Derives (.signed (.int n)) [.integer n] :=
  .unsigned (.primary (.int n))

theorem derives_of_signed {e : Expr} {us : List Token} (h : Derives (.signed e) us) :
    Derives (.expression e) us :=
  .unconditional (.operand (.operand (.operand (.operand (.operand h)))))

theorem lexesAs_magnitude (h : m.toInt = n.toInt.natAbs) :
    LexesAs (digitsOf n.toInt.natAbs) [.integer m] :=
  lexesAs_digits (isDigits_digitsOf _) (by rw [h, ofDigits_digitsOf])

theorem parse_integerText (h : n ≠ Int64.minValue) :
    Expr.parse (String.ofList (integerText n.toInt)) = .ok (.written n) := by
  unfold Expr.written integerText
  by_cases hn : n.toInt < 0
  · have hdigits : LexesAs (digitsOf n.toInt.natAbs) [.integer (Int64.ofInt (-n.toInt))] :=
      lexesAs_magnitude (by rw [toInt_opposite h]; omega)
    have htext : LexesAs ('-' :: digitsOf n.toInt.natAbs)
        [.symbol .minus, .integer (Int64.ofInt (-n.toInt))] :=
      .symbol rfl (fun _ => rfl) hdigits
    rw [if_pos hn, if_pos hn]
    refine parse_of_derives ?_ (derives_of_signed (.sign .negate (derives_int _))) (by simp [maxDepth])
    rwa [String.toList_ofList]
  · have hdigits : LexesAs (digitsOf n.toInt.natAbs) [.integer n] :=
      lexesAs_magnitude (by omega)
    rw [if_neg hn, if_neg hn]
    refine parse_of_derives ?_ (derives_of_signed (derives_int n)) (by simp [maxDepth])
    rwa [String.toList_ofList]

theorem check_written (n : Int64) : (Expr.written n).check [] = .ok (.known .int) := by
  unfold Expr.written
  split <;> rfl

/-- The evaluator undoes what the parser did with the sign. -/
theorem eval_written (h : n ≠ Int64.minValue) (b : Bindings) :
    (Expr.written n).eval b = .ok (.int n) := by
  unfold Expr.written
  split
  · have hvalue : (Expr.unary .negate (.int (Int64.ofInt (-n.toInt)))).eval b =
        Eval.checked .negation (-(Int64.ofInt (-n.toInt)).toInt) := rfl
    rw [hvalue, toInt_opposite h, neg_neg, Eval.checked, word?_toInt]
  · rfl

theorem compile_integerText (h : n ≠ Int64.minValue) :
    Program.compile (String.ofList (integerText n.toInt)) [] =
      .ok ⟨String.ofList (integerText n.toInt), [], .written n⟩ :=
  Program.compile_of_parse nofun (parse_integerText h) (check_written n)

end

/-- The magnitude of the least integer is not that of any token. -/
theorem compile_least : Program.compile (String.ofList (integerText Int64.minValue.toInt)) [] =
    .error (.unexpectedToken 1 "expression" (.invalid (digitsOf 9223372036854775808))) := by
  cbv

theorem compile_below_least : Program.compile "-9223372036854775807 - 1" [] =
    .ok ⟨"-9223372036854775807 - 1", [], .binary .subtract
      (.unary .negate (.int 9223372036854775807)) (.int 1)⟩ := by
  cbv

/-- The decimal text of an integer compiles without variables and has the integer as its value,
unless it is the least one, whose text is refused; and every integer is the value of some source. -/
theorem integers_written (n : Int64) :
    (n ≠ Int64.minValue → ∃ p, Program.compile (String.ofList (integerText n.toInt)) [] = .ok p ∧
      ∀ b, p.evaluate b = .ok (.int n)) ∧
    (n = Int64.minValue → Program.compile (String.ofList (integerText n.toInt)) [] =
      .error (.unexpectedToken 1 "expression" (.invalid (digitsOf n.toInt.natAbs)))) ∧
    ∃ source p, Program.compile source [] = .ok p ∧ ∀ b, p.evaluate b = .ok (.int n) := by
  have hwritten (h : n ≠ Int64.minValue) :
      ∃ p, Program.compile (String.ofList (integerText n.toInt)) [] = .ok p ∧
        ∀ b, p.evaluate b = .ok (.int n) :=
    ⟨_, compile_integerText h, eval_written h⟩
  refine ⟨hwritten, fun h => h ▸ compile_least, ?_⟩
  by_cases h : n = Int64.minValue
  · subst h
    exact ⟨_, _, compile_below_least, fun _ => rfl⟩
  · exact ⟨_, hwritten h⟩

/-- The integer next to the least one. -/
theorem integers_written_above_least :
    ∃ p, Program.compile "-9223372036854775807" [] = .ok p ∧
      p.evaluate .empty = .ok (.int (-9223372036854775807)) := by
  obtain ⟨p, hp, hvalue⟩ := (integers_written (-9223372036854775807)).1 (by decide)
  exact ⟨p, hp, hvalue .empty⟩

/-- Not the text of every integer is a source that has it as its value. -/
theorem least_integer_refused :
    ¬∀ n : Int64, ∃ p, Program.compile (String.ofList (integerText n.toInt)) [] = .ok p ∧
      ∀ b, p.evaluate b = .ok (.int n) := by
  intro h
  obtain ⟨p, hp, _⟩ := h Int64.minValue
  rw [compile_least] at hp
  cases hp

end EventStream
