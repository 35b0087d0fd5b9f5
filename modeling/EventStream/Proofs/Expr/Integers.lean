import EventStream.Proofs.Expr.Operations
import EventStream.Proofs.Expr.Parts

namespace EventStream

/-- A number of 64 bits. -/
def IsWord (n : Int) : Prop :=
  -9223372036854775808 ≤ n ∧ n < 9223372036854775808

/-- Quotient and remainder of a division toward zero: the remainder is smaller than the divisor and
is zero or has the sign of the dividend. -/
structure IsDivision (a b q r : Int) : Prop where
  eq : a = q * b + r
  lt : r.natAbs < b.natAbs
  nonneg : 0 ≤ a → 0 ≤ r
  nonpos : a ≤ 0 → r ≤ 0

section
variable {a b q r : Int}

theorem isDivision_tdiv (hb : b ≠ 0) : IsDivision a b (a.tdiv b) (a.tmod b) where
  eq := by rw [Int.mul_comm, Int.mul_tdiv_add_tmod]
  lt := by
    rw [Int.natAbs_tmod]
    exact Nat.mod_lt _ (Int.natAbs_pos.mpr hb)
  nonneg := Int.tmod_nonneg b
  nonpos ha := by
    have := Int.tmod_nonneg b (Int.neg_nonneg_of_nonpos ha)
    rw [Int.neg_tmod] at this
    omega

theorem IsDivision.unique {q' r' : Int} (h : IsDivision a b q r) (h' : IsDivision a b q' r') :
    q = q' ∧ r = r' := by
  have hdvd : b ∣ r' - r := by
    refine ⟨q - q', ?_⟩
    rw [Int.mul_comm, Int.sub_mul]
    linarith [h.eq, h'.eq]
  have hlt : (r' - r).natAbs < b.natAbs := by
    have := h.lt
    have := h'.lt
    rcases Int.le_total 0 a with ha | ha
    · have := h.nonneg ha
      have := h'.nonneg ha
      omega
    · have := h.nonpos ha
      have := h'.nonpos ha
      omega
  have hr : r = r' := by
    have := Int.eq_zero_of_dvd_of_natAbs_lt_natAbs hdvd hlt
    omega
  have hb : b ≠ 0 := by
    have := h.lt
    rintro rfl
    simp at this
  have hmul : q * b = q' * b := by linarith [h.eq, h'.eq]
  exact ⟨mul_right_cancel₀ hb hmul, hr⟩

/-- One quotient of words is no word. -/
theorem isWord_tdiv (ha : IsWord a) (hb : b ≠ 0) :
    IsWord (a.tdiv b) ↔ ¬(a = -9223372036854775808 ∧ b = -1) := by
  obtain ⟨hlow, hhigh⟩ := ha
  unfold IsWord
  constructor
  · rintro h ⟨rfl, rfl⟩
    simp at h
  · intro h
    have hle := Int.natAbs_tdiv_le_natAbs a b
    by_cases hmin : a = -9223372036854775808
    · have hone : b ≠ -1 := fun hb => h ⟨hmin, hb⟩
      rcases (show b = 1 ∨ 2 ≤ b.natAbs by omega) with rfl | htwo
      · rw [Int.tdiv_one]
        omega
      · have : (a.tdiv b).natAbs ≤ a.natAbs / 2 := by
          rw [Int.natAbs_tdiv]
          exact Nat.div_le_div_left htwo (by decide)
        omega
    · omega

theorem isWord_toInt (w : Int64) : IsWord w.toInt :=
  ⟨w.le_toInt, w.toInt_lt⟩

end

/-- The exact result of an operation on integers. -/
inductive BinaryOp.Exact : BinaryOp → Int → Int → Int → Prop
  | add (a b) : Exact .add a b (a + b)
  | subtract (a b) : Exact .subtract a b (a - b)
  | multiply (a b) : Exact .multiply a b (a * b)
  | divide {a b q r} : IsDivision a b q r → Exact .divide a b q
  | modulus {a b q r} : IsDivision a b q r → Exact .modulus a b r

theorem BinaryOp.Exact.unique {op : BinaryOp} {a b m n : Int} (hm : op.Exact a b m)
    (hn : op.Exact a b n) : m = n := by
  cases hm with
  | add | subtract | multiply => cases hn; rfl
  | divide h =>
    cases hn with
    | divide h' => exact (h.unique h').1
  | modulus h =>
    cases hn with
    | modulus h' => exact (h.unique h').2

/-- The exact result of an operation, or the quotient that belongs to a remainder, is no word. -/
def BinaryOp.Leaves (op : BinaryOp) (a b : Int) : Prop :=
  ∃ n, (op.Exact a b n ∨ op = .modulus ∧ BinaryOp.Exact .divide a b n) ∧ ¬IsWord n

theorem leaves_minValue {op : BinaryOp} (hop : op = .divide ∨ op = .modulus) :
    op.Leaves Int64.minValue.toInt (-1 : Int64).toInt := by
  have hno : ¬IsWord (Int64.minValue.toInt.tdiv (-1 : Int64).toInt) := by
    unfold IsWord
    decide
  have hexact := BinaryOp.Exact.divide (isDivision_tdiv (a := Int64.minValue.toInt)
    (show (-1 : Int64).toInt ≠ 0 by decide))
  rcases hop with rfl | rfl
  · exact ⟨_, .inl hexact, hno⟩
  · exact ⟨_, .inr ⟨rfl, hexact⟩, hno⟩

/-- The operators of arithmetic. -/
def BinaryOp.arithmetic? : BinaryOp → Option Arithmetic
  | .add => some .addition
  | .subtract => some .subtraction
  | .multiply => some .multiplication
  | .divide => some .division
  | .modulus => some .modulus
  | _ => none

theorem BinaryOp.not_logical {op : BinaryOp} {operation : Arithmetic}
    (h : op.arithmetic? = some operation) : ¬(op = .and ∨ op = .or) := by
  rintro (rfl | rfl) <;> cases h

namespace Eval

/-- A number is given as it is if it is a word, and refused if not. -/
def ExactOrRefused (operation : Arithmetic) (n : Int) (o : Outcome) : Prop :=
  (IsWord n → ∃ w : Int64, o = .ok (.int w) ∧ w.toInt = n) ∧
    (¬IsWord n → o = .error (.overflow operation))

theorem word?_eq_none {n : Int} : word? n = none ↔ ¬IsWord n := by
  unfold word? IsWord
  split <;> simp [*]

theorem checked_exactOrRefused (operation : Arithmetic) (n : Int) :
    ExactOrRefused operation n (checked operation n) := by
  unfold checked
  constructor
  · intro hn
    obtain ⟨w, hw⟩ : ∃ w, word? n = some w := ⟨_, if_pos hn⟩
    rw [hw]
    exact ⟨w, rfl, toInt_of_word? hw⟩
  · intro hn
    rw [word?_eq_none.mpr hn]

/-- Division has three outcomes: for a zero divisor, for the one quotient that is no word, and for
all others, where the quotient and the remainder are those of one division. -/
theorem division_cases (a b : Int64) :
    (b = 0 ∧ binary .divide (.int a) (.int b) = .error .divisionByZero ∧
      binary .modulus (.int a) (.int b) = .error .divisionByZero) ∨
    (b ≠ 0 ∧ (a = Int64.minValue ∧ b = -1) ∧
      binary .divide (.int a) (.int b) = .error (.overflow .division) ∧
      binary .modulus (.int a) (.int b) = .error (.overflow .modulus)) ∨
    (b ≠ 0 ∧ ¬(a = Int64.minValue ∧ b = -1) ∧ ∃ q r : Int64,
      binary .divide (.int a) (.int b) = .ok (.int q) ∧
      binary .modulus (.int a) (.int b) = .ok (.int r) ∧
      IsDivision a.toInt b.toInt q.toInt r.toInt) := by
  by_cases hb : b = 0
  · subst hb
    exact .inl ⟨rfl, rfl, rfl⟩
  have hb' : b.toInt ≠ 0 := fun h => hb (Int64.toInt_inj.mp h)
  have hdivide : binary .divide (.int a) (.int b) = checked .division (a.toInt.tdiv b.toInt) :=
    if_neg hb
  have hmodulus : binary .modulus (.int a) (.int b) =
      if (word? (a.toInt.tdiv b.toInt)).isNone then .error (.overflow .modulus)
      else checked .modulus (a.toInt.tmod b.toInt) := if_neg hb
  have hmin : (a.toInt = -9223372036854775808 ∧ b.toInt = -1) ↔ a = Int64.minValue ∧ b = -1 := by
    rw [← Int64.toInt_inj, ← Int64.toInt_inj]
    rfl
  have hword := isWord_tdiv (isWord_toInt a) hb'
  rw [hmin] at hword
  have hquotient := checked_exactOrRefused .division (a.toInt.tdiv b.toInt)
  right
  by_cases hm : a = Int64.minValue ∧ b = -1
  · have hno : ¬IsWord (a.toInt.tdiv b.toInt) := fun h => hword.mp h hm
    refine .inl ⟨hb, hm, hdivide.trans (hquotient.2 hno), ?_⟩
    rw [hmodulus, word?_eq_none.mpr hno]
    rfl
  · have hyes := hword.mpr hm
    have hdivision := isDivision_tdiv (a := a.toInt) hb'
    obtain ⟨q, hq, hqe⟩ := hquotient.1 hyes
    have hrword : IsWord (a.toInt.tmod b.toInt) := by
      have := isWord_toInt b
      have := hdivision.lt
      unfold IsWord at *
      omega
    obtain ⟨r, hr, hre⟩ := (checked_exactOrRefused .modulus _).1 hrword
    refine .inr ⟨hb, hm, q, r, hdivide.trans hq, ?_, ?_⟩
    · have hsome : ¬(word? (a.toInt.tdiv b.toInt)).isNone = true :=
        fun h => word?_eq_none.mp (Option.isNone_iff_eq_none.mp h) hyes
      rw [hmodulus, if_neg hsome, hr]
    · rw [hqe, hre]
      exact hdivision

/-- An operation on two words gives a word that is its exact result, or fails for a zero divisor or
because it leaves the words. -/
theorem binary_words {op : BinaryOp} {operation : Arithmetic}
    (hop : op.arithmetic? = some operation) (a b : Int64) :
    (∃ w : Int64, binary op (.int a) (.int b) = .ok (.int w) ∧ op.Exact a.toInt b.toInt w.toInt) ∨
    (binary op (.int a) (.int b) = .error .divisionByZero ∧ (op = .divide ∨ op = .modulus) ∧
      b = 0) ∨
    (binary op (.int a) (.int b) = .error (.overflow operation) ∧ op.Leaves a.toInt b.toInt) := by
  have hchecked {n : Int} (he : op.Exact a.toInt b.toInt n)
      (ho : binary op (.int a) (.int b) = checked operation n) :
      (∃ w : Int64, binary op (.int a) (.int b) = .ok (.int w) ∧ op.Exact a.toInt b.toInt w.toInt) ∨
      (binary op (.int a) (.int b) = .error (.overflow operation) ∧ op.Leaves a.toInt b.toInt) := by
    obtain ⟨hword, hno⟩ := checked_exactOrRefused operation n
    rw [ho]
    by_cases hn : IsWord n
    · obtain ⟨w, hw, rfl⟩ := hword hn
      exact .inl ⟨w, hw, he⟩
    · exact .inr ⟨hno hn, n, .inl he, hn⟩
  cases op with
  | add =>
    cases hop
    exact (hchecked (.add _ _) rfl).imp_right .inr
  | subtract =>
    cases hop
    exact (hchecked (.subtract _ _) rfl).imp_right .inr
  | multiply =>
    cases hop
    exact (hchecked (.multiply _ _) rfl).imp_right .inr
  | divide =>
    cases hop
    rcases division_cases a b with ⟨hb, h, _⟩ | ⟨_, ⟨rfl, rfl⟩, h, _⟩ | ⟨_, _, q, r, h, _, hd⟩
    · exact .inr (.inl ⟨h, .inl rfl, hb⟩)
    · exact .inr (.inr ⟨h, leaves_minValue (.inl rfl)⟩)
    · exact .inl ⟨q, h, .divide hd⟩
  | modulus =>
    cases hop
    rcases division_cases a b with ⟨hb, _, h⟩ | ⟨_, ⟨rfl, rfl⟩, _, h⟩ | ⟨_, _, q, r, _, h, hd⟩
    · exact .inr (.inl ⟨h, .inr rfl, hb⟩)
    · exact .inr (.inr ⟨h, leaves_minValue (.inr rfl)⟩)
    · exact .inl ⟨r, h, .modulus hd⟩
  | or | and | equal | notEqual | less | lessEqual | greater | greaterEqual | isIn => cases hop

end Eval

namespace Expr

/-- Integers, signs, and operators of arithmetic between them. -/
inductive IsArithmetic : Expr → Prop
  | int (n) : IsArithmetic (.int n)
  | negate {e} : IsArithmetic e → IsArithmetic (.unary .negate e)
  | binary {op operation l r} : op.arithmetic? = some operation → IsArithmetic l → IsArithmetic r →
      IsArithmetic (.binary op l r)

/-- The exact value of an expression. -/
inductive Denotes : Expr → Int → Prop
  | int (n) : Denotes (.int n) n.toInt
  | negate {e n} : Denotes e n → Denotes (.unary .negate e) (-n)
  | binary {op l r a b n} : Denotes l a → Denotes r b → op.Exact a b n →
      Denotes (.binary op l r) n

/-- The value of an expression, or the quotient that belongs to it, is no word. -/
inductive Leaves : Expr → Prop
  | negate {e n} : Denotes e n → ¬IsWord (-n) → Leaves (.unary .negate e)
  | binary {op l r a b} : Denotes l a → Denotes r b → op.Leaves a b → Leaves (.binary op l r)

/-- An outcome has its reason in an expression that has these levels: it is the exact value, or a
part divides by zero or leaves the words. -/
inductive Settles (room : Nat) (e : Expr) : Eval.Outcome → Prop
  | value {w : Int64} : e.Denotes w.toInt → Settles room e (.ok (.int w))
  | zero {rest op l r} : Part room e rest (.binary op l r) → op = .divide ∨ op = .modulus →
      r.Denotes 0 → Settles room e (.error .divisionByZero)
  | leaves {rest part operation} : Part room e rest part → part.Leaves →
      Settles room e (.error (.overflow operation))

variable {e c : Expr} {m n : Int} {room : Nat}

theorem Denotes.unique (hm : e.Denotes m) (hn : e.Denotes n) : m = n := by
  induction hm generalizing n with
  | int => cases hn; rfl
  | negate _ ih =>
    cases hn with
    | negate hn => rw [ih hn]
  | binary _ _ hop ihl ihr =>
    cases hn with
    | binary hl hr hop' =>
      cases ihl hl
      cases ihr hr
      exact hop.unique hop'

theorem Settles.value_or_error {o : Eval.Outcome} (h : Settles room e o) :
    (∃ w : Int64, o = .ok (.int w) ∧ e.Denotes w.toInt) ∨
      ∃ err, o = .error err ∧ Settles room e (.error err) := by
  cases h with
  | value hw => exact .inl ⟨_, rfl, hw⟩
  | zero hp hop hr => exact .inr ⟨_, rfl, .zero hp hop hr⟩
  | leaves hp hl => exact .inr ⟨_, rfl, .leaves hp hl⟩

/-- The reason of an error lies in a part. -/
theorem Settles.of_child {err : EvalError} (hc : c ∈ e.children) (h : Settles room c (.error err)) :
    Settles (room + 1) e (.error err) := by
  cases h with
  | zero hp hop hr => exact .zero (.inside hc hp) hop hr
  | leaves hp hl => exact .leaves (.inside hc hp) hl

end Expr

section
variable {declared : List String} {b : Bindings} {room : Nat} {e : Expr} {t : StaticType}

theorem eval_settles (he : e.IsArithmetic) (hc : Typing.check declared room e = .ok t) :
    e.Settles room (Eval.eval b room e) := by
  induction he generalizing room t with
  | int n =>
    cases room with
    | zero => cases hc
    | succ room => exact .value (.int n)
  | @negate e _ ih =>
    cases room with
    | zero => cases hc
    | succ room =>
      obtain ⟨s, hs, _⟩ := Typing.check_unary hc
      rw [Eval.eval]
      rcases (ih hs).value_or_error with ⟨w, hw, hd⟩ | ⟨err, he, hsettles⟩
      · rw [hw]
        change Expr.Settles _ _ (Eval.checked .negation (-w.toInt))
        obtain ⟨hword, hno⟩ := Eval.checked_exactOrRefused .negation (-w.toInt)
        by_cases hn : IsWord (-w.toInt)
        · obtain ⟨v, hv, hvn⟩ := hword hn
          rw [hv]
          exact .value (hvn ▸ .negate hd)
        · rw [hno hn]
          exact .leaves .whole (.negate hd hn)
      · rw [he]
        exact hsettles.of_child (by simp [Expr.children])
  | @binary op operation l r hop _ _ ihl ihr =>
    cases room with
    | zero => cases hc
    | succ room =>
      obtain ⟨s, u, hs, hu, _⟩ := Typing.check_binary hc
      rw [Eval.eval, if_neg (BinaryOp.not_logical hop)]
      -- the left operand is computed first: where it fails, the right one is not looked at
      rcases (ihl hs).value_or_error with ⟨v, hv, hdv⟩ | ⟨err, he, hsettles⟩
      · rcases (ihr hu).value_or_error with ⟨w, hw, hdw⟩ | ⟨err, he, hsettles⟩
        · rw [hv, hw]
          change Expr.Settles _ _ (Eval.binary op (.int v) (.int w))
          rcases Eval.binary_words hop v w with ⟨n, hn, he⟩ | ⟨hn, hdiv, rfl⟩ | ⟨hn, hleaves⟩
          · rw [hn]
            exact .value (.binary hdv hdw he)
          · rw [hn]
            exact .zero .whole hdiv hdw
          · rw [hn]
            exact .leaves .whole (.binary hdv hdw hleaves)
        · rw [hv, he]
          exact hsettles.of_child (by simp [Expr.children])
      · rw [he]
        exact hsettles.of_child (by simp [Expr.children])

/-- Where an expression has a value, no number on the way to it has left the words. -/
theorem parts_have_values {v : Value} {rest : Nat} {part : Expr} (he : e.IsArithmetic)
    (hc : Typing.check declared room e = .ok t) (hv : Eval.eval b room e = .ok v)
    (hp : Expr.Part room e rest part) :
    ∃ w : Int64, Eval.eval b rest part = .ok (.int w) ∧ part.Denotes w.toInt := by
  induction hp generalizing t v with
  | whole =>
    have h := eval_settles (b := b) he hc
    rw [hv] at h ⊢
    cases h with
    | value hw => exact ⟨_, rfl, hw⟩
  | inside hmem _ ih =>
    obtain ⟨s, hs⟩ := Typing.check_child hc hmem
    cases he with
    | int => simp [Expr.children] at hmem
    | negate he =>
      obtain ⟨w, hw, _⟩ := bind_eq_ok.mp hv
      cases List.mem_singleton.mp hmem
      exact ih he hs hw
    | binary hop hl hr =>
      rw [Eval.eval, if_neg (BinaryOp.not_logical hop)] at hv
      obtain ⟨x, hx, hv⟩ := bind_eq_ok.mp hv
      obtain ⟨y, hy, _⟩ := bind_eq_ok.mp hv
      rcases List.mem_cons.mp hmem with rfl | hmem
      · exact ih hl hs hx
      · cases List.mem_singleton.mp hmem
        exact ih hr hs hy

end

namespace Eval

/-- Operations on words have their exact result or are refused; and a compiled expression of
integers has its one exact value, as all its parts have, or an error with its reason in a part. -/
theorem integer_arithmetic_exact :
    (∀ a : Int64, ExactOrRefused .negation (-a.toInt) (unary .negate (.int a))) ∧
    (∀ a b : Int64,
      ExactOrRefused .addition (a.toInt + b.toInt) (binary .add (.int a) (.int b)) ∧
      ExactOrRefused .subtraction (a.toInt - b.toInt) (binary .subtract (.int a) (.int b)) ∧
      ExactOrRefused .multiplication (a.toInt * b.toInt) (binary .multiply (.int a) (.int b))) ∧
    (∀ a b : Int64,
      (binary .divide (.int a) (.int b) = .error .divisionByZero ↔ b = 0) ∧
      (binary .modulus (.int a) (.int b) = .error .divisionByZero ↔ b = 0) ∧
      (binary .divide (.int a) (.int b) = .error (.overflow .division) ↔
        a = Int64.minValue ∧ b = -1) ∧
      (binary .modulus (.int a) (.int b) = .error (.overflow .modulus) ↔
        a = Int64.minValue ∧ b = -1) ∧
      (b ≠ 0 → ¬(a = Int64.minValue ∧ b = -1) → ∃ q r : Int64,
        binary .divide (.int a) (.int b) = .ok (.int q) ∧
        binary .modulus (.int a) (.int b) = .ok (.int r) ∧
        IsDivision a.toInt b.toInt q.toInt r.toInt)) ∧
    ∀ source declared p b, Program.compile source declared = .ok p → p.root.IsArithmetic →
      p.root.Settles (maxDepth + 1) (p.evaluate b) ∧
      (∀ m n, p.root.Denotes m → p.root.Denotes n → m = n) ∧
      ∀ v, p.evaluate b = .ok v → ∀ room e, Expr.Part (maxDepth + 1) p.root room e →
        ∃ w : Int64, eval b room e = .ok (.int w) ∧ e.Denotes w.toInt := by
  refine ⟨fun a => checked_exactOrRefused _ _, fun a b => ?_, fun a b => ?_, ?_⟩
  · exact ⟨checked_exactOrRefused _ _, checked_exactOrRefused _ _, checked_exactOrRefused _ _⟩
  · rcases division_cases a b with ⟨rfl, hd, hm⟩ | ⟨hb, hmin, hd, hm⟩ | ⟨hb, hmin, q, r, hd, hm, h⟩
    · simp [hd, hm]
    · rw [hd, hm]
      simp [hmin]
    · rw [hd, hm]
      simp only [hb, hmin, reduceCtorEq, true_and]
      exact fun _ _ => ⟨q, r, rfl, rfl, h⟩
  · intro source declared p b hp he
    obtain ⟨t, ht, _⟩ := Program.compile_eq_ok hp
    exact ⟨eval_settles he ht, fun _ _ => Expr.Denotes.unique,
      fun v hv room e hpart => parts_have_values he ht hv hpart⟩

theorem integer_arithmetic_exact_of_negative :
    (∃ q r : Int64, binary .divide (.int (-7)) (.int 2) = .ok (.int q) ∧
      binary .modulus (.int (-7)) (.int 2) = .ok (.int r) ∧ IsDivision (-7) 2 q.toInt r.toInt) ∧
    ∃ p, Program.compile "-7 / 2 * 2 + -7 % 2" [] = .ok p ∧ p.root.IsArithmetic ∧
      p.evaluate .empty = .ok (.int (-7)) ∧
      p.root.Settles (maxDepth + 1) (.ok (.int (-7))) := by
  obtain ⟨_, _, hdivision, hexpression⟩ := integer_arithmetic_exact
  have hp : Program.compile "-7 / 2 * 2 + -7 % 2" [] =
      .ok ⟨"-7 / 2 * 2 + -7 % 2", [], .binary .add
        (.binary .multiply (.binary .divide (.unary .negate (.int 7)) (.int 2)) (.int 2))
        (.binary .modulus (.unary .negate (.int 7)) (.int 2))⟩ := by
    cbv
  have he : Expr.IsArithmetic (.binary .add
      (.binary .multiply (.binary .divide (.unary .negate (.int 7)) (.int 2)) (.int 2))
      (.binary .modulus (.unary .negate (.int 7)) (.int 2))) :=
    .binary rfl (.binary rfl (.binary rfl (.negate (.int 7)) (.int 2)) (.int 2))
      (.binary rfl (.negate (.int 7)) (.int 2))
  refine ⟨(hdivision (-7) 2).2.2.2.2 (by decide) (by decide), _, hp, he, rfl, ?_⟩
  exact (hexpression _ _ _ .empty hp he).1

end Eval

end EventStream
