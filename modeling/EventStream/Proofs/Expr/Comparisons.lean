import EventStream.Proofs.Expr.Connectives
import EventStream.Proofs.Expr.Equality

namespace EventStream

/-- A number of either kind, other than nan. -/
def Value.IsNumber (v : Value) : Prop :=
  ∃ d, v.double? = some d ∧ d ≠ .nan

/-- Values that lie on one line. -/
inductive Comparable : Value → Value → Prop
  | numbers {l r} : l.IsNumber → r.IsNumber → Comparable l r
  | strings (s t) : Comparable (.string s) (.string t)
  | bools (s t) : Comparable (.bool s) (.bool t)

/-- The place of a number on the line of doubles. -/
def Value.place? (v : Value) : Option Int :=
  v.double?.bind Double.place?

theorem Value.place?_int (n : Int64) : (Value.int n).place? = (Double.ofInt n.toInt).place? := by
  rw [Value.place?, Value.double?, Option.bind_some]

theorem Value.place?_double (d : Double) : (Value.double d).place? = d.place? := by
  rw [Value.place?, Value.double?, Option.bind_some]

theorem Value.IsNumber.ne_nan {v : Value} (h : v.IsNumber) : v ≠ .double .nan := by
  obtain ⟨d, hd, hnan⟩ := h
  rintro rfl
  exact hnan (Option.some.inj hd).symm

namespace Eval

section
variable {l r m : Value} {x y z : Int} {op : BinaryOp}

theorem exists_place? (h : l.IsNumber) : ∃ x, l.place? = some x := by
  obtain ⟨d, hd, hnan⟩ := h
  obtain ⟨x, hx⟩ := Double.exists_place? hnan
  exact ⟨x, by rw [Value.place?, hd]; exact hx⟩

theorem place?_cases (h : l.place? = some x) :
    (∃ n, l = .int n ∧ (Double.ofInt n.toInt).place? = some x) ∨
      ∃ d, l = .double d ∧ d.place? = some x := by
  cases l with
  | int n => exact .inl ⟨n, rfl, Value.place?_int n ▸ h⟩
  | double d => exact .inr ⟨d, rfl, Value.place?_double d ▸ h⟩
  | _ => cases h

theorem compare?_places {a b : Double} (hmixed : ∀ a b, ¬(l = .int a ∧ r = .int b))
    (hl : l.double? = some a) (hr : r.double? = some b) (ha : a.place? = some x)
    (hb : b.place? = some y) : compare? l r = some (some (compare x y)) := by
  unfold compare?
  split
  next => exact absurd ⟨rfl, rfl⟩ (hmixed _ _)
  next => cases hl
  next => cases hl
  next =>
    rw [hl, hr]
    dsimp only
    rw [ha, hb]

/-- Two ints are compared as they are, and other numbers by their places. -/
theorem compare?_numbers (hl : l.place? = some x) (hr : r.place? = some y) :
    (∃ a b : Int64, l = .int a ∧ r = .int b ∧
      compare? l r = some (some (compare a.toInt b.toInt)) ∧
      (l.equal r = true ↔ a.toInt = b.toInt)) ∨
    ((∀ a b, ¬(l = .int a ∧ r = .int b)) ∧ compare? l r = some (some (compare x y)) ∧
      (l.equal r = true ↔ x = y)) := by
  rcases place?_cases hl with ⟨a, rfl, ha⟩ | ⟨a, rfl, ha⟩ <;>
    rcases place?_cases hr with ⟨b, rfl, hb⟩ | ⟨b, rfl, hb⟩
  · refine .inl ⟨a, b, rfl, rfl, rfl, ?_⟩
    rw [Value.equal, beq_iff_eq, Int64.toInt_inj]
  · refine .inr ⟨by simp, compare?_places (by simp) rfl rfl ha hb, ?_⟩
    rw [Value.equal, Double.eq_iff ha hb]
  · refine .inr ⟨by simp, compare?_places (by simp) rfl rfl ha hb, ?_⟩
    rw [Value.equal, Double.eq_iff hb ha, eq_comm]
  · refine .inr ⟨by simp, compare?_places (by simp) rfl rfl ha hb, ?_⟩
    rw [Value.equal, Double.eq_iff ha hb]

/-- How two values lie is told from either side, and is equality where neither is before the
other. -/
theorem compare?_of_comparable (h : Comparable l r) :
    ∃ o, compare? l r = some (some o) ∧ compare? r l = some (some o.swap) ∧
      (l.equal r = true ↔ o = .eq) := by
  cases h with
  | strings s t =>
    refine ⟨compare s t, rfl, ?_, ?_⟩
    · rw [← Std.OrientedCmp.eq_swap]
      rfl
    · rw [Value.equal, beq_iff_eq, compare_eq_iff_eq]
  | bools s t =>
    refine ⟨compare s.toNat t.toNat, rfl, ?_, ?_⟩
    · rw [← Std.OrientedCmp.eq_swap]
      rfl
    · rw [Value.equal, beq_iff_eq, compare_eq_iff_eq]
      cases s <;> cases t <;> decide
  | numbers hl hr =>
    obtain ⟨x, hx⟩ := exists_place? hl
    obtain ⟨y, hy⟩ := exists_place? hr
    rcases compare?_numbers hx hy with ⟨a, b, rfl, rfl, hc, he⟩ | ⟨hmixed, hc, he⟩
    · refine ⟨_, hc, ?_, by rw [he, compare_eq_iff_eq]⟩
      rw [← Std.OrientedCmp.eq_swap]
      rfl
    · refine ⟨_, hc, ?_, by rw [he, compare_eq_iff_eq]⟩
      rw [← Std.OrientedCmp.eq_swap]
      rcases compare?_numbers hy hx with ⟨b, a, hb, ha, _⟩ | ⟨_, hc', _⟩
      · exact absurd ⟨ha, hb⟩ (hmixed a b)
      · exact hc'

/-- A number before another one has the lesser place, or both are ints, of which the greater has no
lesser place. -/
theorem compare?_lt_numbers (hl : l.place? = some x) (hr : r.place? = some y) :
    compare? l r = some (some .lt) ↔
      x < y ∨ x ≤ y ∧ ∃ a b : Int64, l = .int a ∧ r = .int b ∧ a.toInt < b.toInt := by
  rcases compare?_numbers hl hr with ⟨a, b, rfl, rfl, hc, _⟩ | ⟨hmixed, hc, _⟩
  · rw [Value.place?_int] at hl hr
    rw [hc, Option.some.injEq, Option.some.injEq, compare_lt_iff_lt]
    constructor
    · exact fun h => .inr ⟨Double.place?_ofInt_mono h.le hl hr, a, b, rfl, rfl, h⟩
    · rintro (h | ⟨_, _, _, ⟨⟩, ⟨⟩, h⟩)
      · by_contra hle
        have := Double.place?_ofInt_mono (not_lt.mp hle) hr hl
        omega
      · exact h
  · rw [hc, Option.some.injEq, Option.some.injEq, compare_lt_iff_lt]
    refine ⟨.inl, ?_⟩
    rintro (h | ⟨_, a, b, ha, hb, _⟩)
    · exact h
    · exact absurd ⟨ha, hb⟩ (hmixed a b)

theorem comparable_of_compare? {o : Ordering} (h : compare? l r = some (some o)) :
    Comparable l r := by
  have hint (n : Int64) : (Value.int n).IsNumber := ⟨_, rfl, Double.ofInt_ne_nan _⟩
  unfold compare? at h
  split at h
  next a b => exact .numbers (hint a) (hint b)
  next => exact .strings _ _
  next => exact .bools _ _
  next =>
    split at h
    next a b hl hr =>
      split at h
      next x y hx hy =>
        refine .numbers ⟨a, hl, ?_⟩ ⟨b, hr, ?_⟩
        · rintro rfl
          cases hx
        · rintro rfl
          cases hy
      next => cases h
    next => cases h

/-- Two numbers are not ordered only where one of them is nan. -/
theorem nan_of_unordered (h : compare? l r = some none) : l = .double .nan ∨ r = .double .nan := by
  have hnumber {v : Value} {d : Double} (hd : v.double? = some d) (hnan : v ≠ .double .nan) :
      v.IsNumber := by
    refine ⟨d, hd, ?_⟩
    rintro rfl
    cases v with
    | int n => exact Double.ofInt_ne_nan _ (Option.some.inj hd)
    | double d => exact hnan (congrArg _ (Option.some.inj hd))
    | _ => cases hd
  by_contra hnans
  obtain ⟨hl, hr⟩ := not_or.mp hnans
  have hcomparable : Comparable l r := by
    unfold compare? at h
    split at h
    next => cases h
    next => cases h
    next => cases h
    next =>
      split at h
      next hd hd' => exact .numbers (hnumber hd hl) (hnumber hd' hr)
      next => cases h
  obtain ⟨o, ho, _⟩ := compare?_of_comparable hcomparable
  cases h.symm.trans ho

theorem binary_order (hop : op = .less ∨ op = .lessEqual ∨ op = .greater ∨ op = .greaterEqual) :
    binary op l r = order op l r := by
  rcases hop with rfl | rfl | rfl | rfl <;> rfl

/-- Where two values are not ordered, or one of them is nan, none is before the other. -/
theorem less_eq_true :
    binary .less l r = .ok (.bool true) ↔ compare? l r = some (some .lt) := by
  rw [binary_order (.inl rfl)]
  unfold order
  rcases compare? l r with _ | _ | o
  · simp [overload]
  · simp
  · simp [holds]

/-- `<` has a result on values that lie on one line, and besides only where one is nan. -/
theorem comparable_iff :
    Comparable l r ↔ (∃ v, binary .less l r = .ok v) ∧ l ≠ .double .nan ∧ r ≠ .double .nan := by
  rw [binary_order (.inl rfl)]
  constructor
  · intro h
    obtain ⟨o, ho, _⟩ := compare?_of_comparable h
    refine ⟨⟨_, by rw [order, ho]⟩, ?_⟩
    cases h with
    | numbers hl hr => exact ⟨hl.ne_nan, hr.ne_nan⟩
    | strings | bools => simp
  · rintro ⟨⟨v, hv⟩, hl, hr⟩
    rcases hc : compare? l r with _ | _ | o
    · rw [order, hc] at hv
      cases hv
    · rcases nan_of_unordered hc with rfl | rfl
      · exact absurd rfl hl
      · exact absurd rfl hr
    · exact comparable_of_compare? hc

theorem string_lt {s : String} (h : compare? (.string s) r = some (some .lt)) :
    ∃ t, r = .string t ∧ s < t := by
  cases comparable_of_compare? h with
  | numbers hl =>
    obtain ⟨_, hd, _⟩ := hl
    cases hd
  | strings _ t =>
    have hst : compare s t = .lt := Option.some.inj (Option.some.inj h)
    exact ⟨t, rfl, compare_lt_iff_lt.mp hst⟩

theorem bool_lt {s : Bool} (h : compare? (.bool s) r = some (some .lt)) :
    ∃ t, r = .bool t ∧ s.toNat < t.toNat := by
  cases comparable_of_compare? h with
  | numbers hl =>
    obtain ⟨_, hd, _⟩ := hl
    cases hd
  | bools _ t =>
    have hst : compare s.toNat t.toNat = .lt := Option.some.inj (Option.some.inj h)
    exact ⟨t, rfl, compare_lt_iff_lt.mp hst⟩

theorem compare?_lt_trans (h : compare? l m = some (some .lt))
    (h' : compare? m r = some (some .lt)) : compare? l r = some (some .lt) := by
  cases comparable_of_compare? h with
  | strings s t =>
    obtain ⟨_, ⟨⟩, hst⟩ := string_lt h
    obtain ⟨u, rfl, htu⟩ := string_lt h'
    exact congrArg (some ∘ some) (compare_lt_iff_lt.mpr (hst.trans htu))
  | bools s t =>
    obtain ⟨_, ⟨⟩, hst⟩ := bool_lt h
    obtain ⟨u, rfl, htu⟩ := bool_lt h'
    exact congrArg (some ∘ some) (compare_lt_iff_lt.mpr (hst.trans htu))
  | numbers hl hm =>
    obtain ⟨x, hx⟩ := exists_place? hl
    obtain ⟨y, hy⟩ := exists_place? hm
    obtain ⟨z, hz⟩ : ∃ z, r.place? = some z := by
      cases comparable_of_compare? h' with
      | numbers _ hr => exact exists_place? hr
      | strings | bools => cases hy
    rw [compare?_lt_numbers hx hy] at h
    rw [compare?_lt_numbers hy hz] at h'
    rw [compare?_lt_numbers hx hz]
    -- a strict step between places decides, and without one all three are ints
    rcases h with h | ⟨hle, a, b, rfl, hb, h⟩
    · rcases h' with h' | ⟨hle', _⟩ <;> exact .inl (by omega)
    · rcases h' with h' | ⟨hle', b', c, hb', rfl, h'⟩
      · exact .inl (by omega)
      · cases hb.symm.trans hb'
        exact .inr ⟨hle.trans hle', a, c, rfl, rfl, h.trans h'⟩

end

section
variable {x : Value} {o : Outcome}

/-- An item after another is asked for as long as none was equal. -/
theorem foldl_logical (vs : List Value) (found : Bool) :
    vs.foldl (fun o w => logical .or o fun _ => binary .equal x w) (.ok (.bool found)) =
      .ok (.bool (found || vs.any x.equal)) := by
  induction vs generalizing found with
  | nil => simp
  | cons v vs ih =>
    have hstep : logical .or (.ok (.bool found)) (fun _ => binary .equal x v) =
        .ok (.bool (found || x.equal v)) := by
      cases found with
      | true => rfl
      | false => cases h : x.equal v <;> simp [logical, truth, binary, h]
    rw [List.foldl_cons, hstep, ih, List.any_cons, Bool.or_assoc]

theorem isIn_list (v : Value) (vs : List Value) :
    binary .isIn x (.list (v :: vs)) =
      vs.foldl (fun o w => logical .or o fun _ => binary .equal x w) (binary .equal x v) := by
  have hfirst : binary .equal x v = .ok (.bool (x.equal v)) := rfl
  rw [hfirst, foldl_logical]
  rfl

theorem foldl_logical_error (vs : List Value) (err : EvalError) :
    vs.foldl (fun o w => logical .or o fun _ => .error err >>= fun u => binary .equal u w)
      (.error err) = .error err := by
  induction vs with
  | nil => rfl
  | cons v vs ih => exact ih

end

end Eval

/-- `x == e || x == d || ...`, the operators grouped to the left. -/
def Expr.anyEqual (x e : Expr) (es : List Expr) : Expr :=
  es.foldl (fun c d => .binary .or c (.binary .equal x d)) (.binary .equal x e)

namespace Eval

section
variable {b : Bindings} {base room : Nat} {x e : Expr} {es : List Expr} {v : Value}
  {vs : List Value}

theorem eval_equal (h : eval b room e = .ok v) :
    eval b (room + 1) (.binary .equal x e) = eval b room x >>= fun u => binary .equal u v := by
  rw [eval, if_neg (by simp), h]
  rfl

/-- Each further operator puts the ones before it one level deeper. -/
theorem eval_foldl_or {c : Expr} (hroom : base ≤ room)
    (hx : ∀ rest, base ≤ rest → eval b rest x = eval b base x)
    (hes : List.Forall₂ (fun e v => ∀ rest, base ≤ rest → eval b rest e = .ok v) es vs) :
    eval b (room + 1 + es.length) (es.foldl (fun c d => .binary .or c (.binary .equal x d)) c) =
      vs.foldl (fun o w => logical .or o fun _ => eval b base x >>= fun u => binary .equal u w)
        (eval b (room + 1) c) := by
  induction hes generalizing c room with
  | nil => rfl
  | @cons e v es vs he hes ih =>
    have hstep : eval b (room + 1 + 1) (.binary .or c (.binary .equal x e)) =
        logical .or (eval b (room + 1) c) fun _ =>
          eval b base x >>= fun u => binary .equal u v := by
      rw [eval, if_pos (.inr rfl), eval_equal (he room hroom), hx room hroom]
    have hlevels : room + 1 + (e :: es).length = room.succ + 1 + es.length := by
      rw [List.length_cons]
      omega
    rw [List.foldl_cons, List.foldl_cons, ← hstep, ← ih (Nat.le_succ_of_le hroom), hlevels]

/-- Where the items have values, whether the first operand is one of them is whether it is equal to
one of them, or the error of the first operand. -/
theorem eval_isIn {rest : Nat} (hx : x.Fits room)
    (hes : ∀ d ∈ e :: es, d.Fits room ∧ ∃ v, eval b room d = .ok v)
    (hrest : room + es.length + 2 ≤ rest) :
    eval b rest (.binary .isIn x (.list (e :: es))) = eval b rest (.anyEqual x e es) := by
  have hfits {d : Expr} (h : d.Fits room) (rest : Nat) (hle : room ≤ rest) :
      eval b rest d = eval b room d := eval_of_fits h hle
  obtain ⟨⟨he, v, hv⟩, hes⟩ := List.forall_mem_cons.mp hes
  obtain ⟨vs, hvs⟩ : ∃ vs, es.mapM (eval b room) = .ok vs := by
    cases h : es.mapM (eval b room) with
    | ok vs => exact ⟨vs, rfl⟩
    | error err => exact absurd h (mapM_ne_error fun d hd => (hes d hd).2)
  have hvalues : List.Forall₂ (fun d w => ∀ rest, room ≤ rest → eval b rest d = .ok w) es vs := by
    have hall := mapM_eq_ok.mp hvs
    refine List.forall₂_iff_get.mpr ⟨hall.length_eq, fun i hi hj rest hle => ?_⟩
    exact (hfits (hes _ (List.getElem_mem hi)).1 rest hle).trans (hall.get hi hj)
  have hlist {n : Nat} (hn : room ≤ n) :
      eval b (n + 1) (.list (e :: es)) = .ok (.list (v :: vs)) := by
    have hitems : es.mapM (eval b n) = .ok vs :=
      mapM_eq_ok.mpr (hvalues.imp fun _ _ h => h n hn)
    rw [eval, List.mapM_cons, hfits he n hn, hv, hitems]
    rfl
  have hin : eval b rest (.binary .isIn x (.list (e :: es))) =
      eval b room x >>= fun u => binary .isIn u (.list (v :: vs)) := by
    obtain ⟨n, rfl⟩ : ∃ n, rest = n + 2 := ⟨rest - 2, by omega⟩
    rw [eval, if_neg (by simp), hlist (by omega), hfits hx _ (by omega)]
    rfl
  have hany : eval b rest (.anyEqual x e es) =
      vs.foldl (fun o w => logical .or o fun _ => eval b room x >>= fun u => binary .equal u w)
        (eval b room x >>= fun u => binary .equal u v) := by
    obtain ⟨n, hn, rfl⟩ : ∃ n, room ≤ n ∧ rest = n + 1 + es.length :=
      ⟨rest - (es.length + 1), by omega, by omega⟩
    rw [Expr.anyEqual, eval_foldl_or hn (hfits hx) hvalues, eval_equal ((hfits he n hn).trans hv),
      hfits hx n hn]
  rw [hin, hany]
  cases eval b room x with
  | ok u => exact isIn_list v vs
  | error err => exact (foldl_logical_error vs err).symm

end

end Eval

/-- Where one value can be before another, and neither is nan, it is before it, equal to it or
after it, and `<=` and `>=` are told from these; being before is transitive, between ints and
doubles too. Equality holds both ways at once, `!=` is the opposite, and a value is equal to itself
unless it holds a nan. Whether a value is in a list is whether it is equal to an item, as one
expression and as the other. -/
theorem comparisons_coherent :
    (∀ l r, Comparable l r ↔ (∃ v, Eval.binary .less l r = .ok v) ∧
      l ≠ .double .nan ∧ r ≠ .double .nan) ∧
    (∀ l r, Comparable l r → ∃ before same after : Bool,
      Eval.binary .less l r = .ok (.bool before) ∧ Eval.binary .equal l r = .ok (.bool same) ∧
      Eval.binary .greater l r = .ok (.bool after) ∧ [before, same, after].count true = 1 ∧
      Eval.binary .lessEqual l r = .ok (.bool (before || same)) ∧
      Eval.binary .greaterEqual l r = Eval.binary .lessEqual r l) ∧
    (∀ l m r, Eval.binary .less l m = .ok (.bool true) → Eval.binary .less m r = .ok (.bool true) →
      Eval.binary .less l r = .ok (.bool true)) ∧
    (∀ v w, v.Keyed → w.Keyed → Eval.binary .equal v w = Eval.binary .equal w v) ∧
    (∀ v w, ∃ same : Bool, Eval.binary .equal v w = .ok (.bool same) ∧
      Eval.binary .notEqual v w = .ok (.bool !same)) ∧
    (∀ v, v.Keyed →
      (Eval.binary .equal v v = .ok (.bool true) ↔ ∀ d, v.Holds d → d ≠ .nan)) ∧
    (∀ x, Eval.binary .isIn x (.list []) = .ok (.bool false)) ∧
    (∀ x v vs, Eval.binary .isIn x (.list (v :: vs)) =
      vs.foldl (fun o w => Eval.logical .or o fun _ => Eval.binary .equal x w)
        (Eval.binary .equal x v)) ∧
    ∀ b room rest x e es, x.Fits room →
      (∀ d ∈ e :: es, d.Fits room ∧ ∃ v, Eval.eval b room d = .ok v) →
      room + es.length + 2 ≤ rest →
      Eval.eval b rest (.binary .isIn x (.list (e :: es))) =
        Eval.eval b rest (.anyEqual x e es) := by
  have hsame (v w : Value) : Eval.binary .equal v w = .ok (.bool (v.equal w)) := rfl
  refine ⟨fun l r => ?_, fun l r h => ?_, fun l m r h h' => ?_, fun v w hv hw => ?_,
    fun v w => ⟨v.equal w, rfl, rfl⟩, fun v hv => ?_, fun _ => rfl, fun _ => Eval.isIn_list,
    fun _ _ _ _ _ _ hx hes hrest => Eval.eval_isIn hx hes hrest⟩
  · exact Eval.comparable_iff
  · obtain ⟨o, ho, hswap, hequal⟩ := Eval.compare?_of_comparable h
    have heq : l.equal r = decide (o = .eq) := by
      rw [Bool.eq_iff_iff, hequal, decide_eq_true_iff]
    have horder {op : BinaryOp}
        (hop : op = .less ∨ op = .lessEqual ∨ op = .greater ∨ op = .greaterEqual) :
        Eval.binary op l r = .ok (.bool (Eval.holds op o)) := by
      rw [Eval.binary_order hop, Eval.order, ho]
    have hback : Eval.binary .lessEqual r l = .ok (.bool (Eval.holds .lessEqual o.swap)) := by
      rw [Eval.binary_order (.inr (.inl rfl)), Eval.order, hswap]
    refine ⟨_, _, _, horder (.inl rfl), hsame l r, horder (.inr (.inr (.inl rfl))), ?_, ?_, ?_⟩
    · rw [heq]
      cases o <;> rfl
    · rw [horder (.inr (.inl rfl)), heq]
      cases o <;> rfl
    · rw [horder (.inr (.inr (.inr rfl))), hback]
      cases o <;> rfl
  · exact Eval.less_eq_true.mpr
      (Eval.compare?_lt_trans (Eval.less_eq_true.mp h) (Eval.less_eq_true.mp h'))
  · rw [hsame, hsame, Value.equal_comm hv hw]
  · rw [hsame, ← Value.equal_self_iff hv]
    simp

/-- Minus one, the double zero and one, and maps that name two of them in either order. -/
theorem comparisons_coherent_zero_between_ints :
    (∃ before same after : Bool,
      Eval.binary .less (.int (-1)) (.double .zero) = .ok (.bool before) ∧
      Eval.binary .equal (.int (-1)) (.double .zero) = .ok (.bool same) ∧
      Eval.binary .greater (.int (-1)) (.double .zero) = .ok (.bool after) ∧
      [before, same, after].count true = 1 ∧
      Eval.binary .lessEqual (.int (-1)) (.double .zero) = .ok (.bool (before || same)) ∧
      Eval.binary .greaterEqual (.int (-1)) (.double .zero) =
        Eval.binary .lessEqual (.double .zero) (.int (-1))) ∧
    Eval.binary .less (.int (-1)) (.int 1) = .ok (.bool true) ∧
    Eval.binary .equal (.map [("a", .int 1), ("b", .double .zero)])
        (.map [("b", .int 0), ("a", .int 1)]) =
      Eval.binary .equal (.map [("b", .int 0), ("a", .int 1)])
        (.map [("a", .int 1), ("b", .double .zero)]) ∧
    Eval.eval ⟨[]⟩ 4 (.binary .isIn (.int 1) (.list [.int 2, .int 1])) =
      Eval.eval ⟨[]⟩ 4 (.binary .or (.binary .equal (.int 1) (.int 2))
        (.binary .equal (.int 1) (.int 1))) := by
  obtain ⟨_, hthree, htrans, hsymm, _, _, _, _, hin⟩ := comparisons_coherent
  have hzero : Double.zero ≠ .nan := by simp [Double.zero]
  have hless : Eval.compare? (.int (-1)) (.double .zero) = some (some .lt) := by decide +kernel
  have hless' : Eval.compare? (.double .zero) (.int 1) = some (some .lt) := by decide +kernel
  have hkeyed {a b : String} {v w : Value} (hab : [a, b].Nodup) (hv : v.Keyed) (hw : w.Keyed) :
      (Value.map [(a, v), (b, w)]).Keyed :=
    .map hab (List.forall_mem_cons.mpr ⟨hv, List.forall_mem_singleton.mpr hw⟩)
  have hleaf (n : Int64) : (Expr.int n).Fits 1 := Expr.fits_of_children_eq_nil rfl
  refine ⟨hthree _ _ (.numbers ⟨_, rfl, Double.ofInt_ne_nan _⟩ ⟨_, rfl, hzero⟩),
    htrans _ _ _ (Eval.less_eq_true.mpr hless) (Eval.less_eq_true.mpr hless'),
    hsymm _ _ (hkeyed (by decide) .int .double) (hkeyed (by decide) .int .int),
    hin _ 1 4 _ _ [.int 1] (hleaf 1) (fun d hd => ?_) (by decide)⟩
  rcases List.mem_pair.mp hd with rfl | rfl
  · exact ⟨hleaf 2, .int 2, rfl⟩
  · exact ⟨hleaf 1, .int 1, rfl⟩

end EventStream
