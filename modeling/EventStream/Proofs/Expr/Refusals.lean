import EventStream.Proofs.Expr.TypeSoundness

namespace EventStream

/-- A list with a double for its position. -/
structure DoublePosition (declared : List String) (room : Nat) (target position : Expr) : Prop where
  target_type : Typing.check declared room target = .ok (.known .list)
  position_type : Typing.check declared room position = .ok (.known .double)

namespace Eval

theorem member_fails {target : Value} {field : String} (h : target.type ≠ .map) :
    ∃ e, member target field = .error e := by
  cases target with
  | map entries => exact absurd rfl h
  | null | bool | int | double | string | list => exact ⟨_, rfl⟩

theorem has_fails {target : Value} {field : String} (h : target.type ≠ .map) :
    ∃ e, has target field = .error e := by
  cases target with
  | map entries => exact absurd rfl h
  | null | bool | int | double | string | list => exact ⟨_, rfl⟩

theorem element_eq_ok {items : List Value} {position : Int64} {v : Value} :
    element items position = .ok v ↔
      0 ≤ position.toInt ∧ items[position.toInt.toNat]? = some v := by
  unfold element
  split
  next h =>
    constructor
    · intro he
      cases he
    · rintro ⟨hp, _⟩
      omega
  next h =>
    split
    next w hw =>
      rw [hw]
      constructor
      · intro he
        cases he
        exact ⟨by omega, rfl⟩
      · rintro ⟨_, he⟩
        cases he
        rfl
    next hn =>
      rw [hn]
      constructor
      · intro he
        cases he
      · rintro ⟨_, he⟩
        cases he

theorem eval_index {b : Bindings} {room : Nat} {target position : Expr} {t p : Value}
    (ht : eval b room target = .ok t) (hp : eval b room position = .ok p) :
    eval b (room + 1) (.index target position) = index t p := by
  rw [eval, ht, hp]
  rfl

/-- A double is a place in a list when it is whole, within the integers and in range. -/
theorem index_double {items : List Value} {d : Double} {v : Value} :
    index (.list items) (.double d) = .ok v ↔
      ∃ n : Nat, d.whole? = some (n : Int) ∧ n < 9223372036854775808 ∧ items[n]? = some v := by
  rcases asPosition_cases (.double d) with h | ⟨d', n, he, hn, hb, h⟩
  · have hov : index (.list items) (.double d) = overload "_[_]" [.list, .double] := by
      unfold index
      rw [h]
      rfl
    rw [hov]
    constructor
    · intro ho
      cases ho
    · rintro ⟨n, hn, hb, _⟩
      simp [asPosition, hn, hb] at h
  · cases he
    have hel : index (.list items) (.double d) = element items (Int64.ofInt n) := by
      unfold index
      rw [h]
    have hint : (Int64.ofInt n).toInt = n :=
      Int64.toInt_ofInt_of_le (by omega) (by omega)
    rw [hel, element_eq_ok, hint]
    constructor
    · rintro ⟨hpos, hv⟩
      exact ⟨n.toNat, by rw [hn, Int.toNat_of_nonneg hpos], by omega, hv⟩
    · rintro ⟨m, hm, _, hv⟩
      cases hn.symm.trans hm
      exact ⟨by omega, by simpa using hv⟩

end Eval

section
variable {declared : List String} {b : Bindings} {room : Nat} {e : Expr} {err : TypeError}

/-- An operand that is known not to have a type has no value of it. -/
theorem type_ne_of_check {s : StaticType} {t : ValueType} {v : Value} (hb : b.BindMaps declared)
    (hs : Typing.check declared room e = .ok s) (hn : ¬s.admits t = true)
    (hv : Eval.eval b room e = .ok v) : v.type ≠ t := by
  rintro rfl
  exact hn (check_covers hb hs hv)

theorem refused_index {target position : Expr} (hb : b.BindMaps declared)
    (hr : Typing.check declared (room + 1) (.index target position) = .error (.type err))
    (ht : ∃ s, Typing.check declared room target = .ok s)
    (hp : ∃ s, Typing.check declared room position = .ok s)
    (hn : ¬DoublePosition declared room target position) :
    ∃ e, Eval.eval b (room + 1) (.index target position) = .error e := by
  obtain ⟨s, hs⟩ := ht
  obtain ⟨p, hp⟩ := hp
  have hi : ¬Typing.index? s p = true := by
    intro hi
    rw [Typing.check, hs, hp] at hr
    change (if Typing.index? s p = true then _ else _) = _ at hr
    rw [if_pos hi] at hr
    cases hr
  rw [Eval.eval]
  refine bind_fails fun v hv => bind_fails fun w hw => Eval.index_fails ?_ ?_
  · intro hlist
    have hsv := check_covers hb hs hv
    have hpw := check_covers hb hp hw
    rw [hlist] at hsv
    rcases StaticType.admits_iff.mp hsv with rfl | rfl
    · exact absurd rfl hi
    · have hint : ¬p.admits .int = true := hi
      constructor
      · intro hwt
        exact hint (hwt ▸ hpw)
      · intro hwt
        rw [hwt] at hpw
        rcases StaticType.admits_iff.mp hpw with rfl | rfl
        · exact hint (StaticType.admits_dyn _)
        · exact hn ⟨hs, hp⟩
  · intro hmap hwt
    have hsv := check_covers hb hs hv
    have hpw := check_covers hb hp hw
    rw [hmap] at hsv
    rw [hwt] at hpw
    rcases StaticType.admits_iff.mp hsv with rfl | rfl
    · exact absurd rfl hi
    · exact hi hpw

theorem refused_call {function : String} {target : Option Expr} {arguments : List Expr}
    (hb : b.BindMaps declared)
    (hr : Typing.check declared (room + 1) (.call function target arguments) = .error (.type err))
    (ho : ∀ c ∈ (Expr.call function target arguments).children,
      ∃ s, Typing.check declared room c = .ok s) :
    ∃ e, Eval.eval b (room + 1) (.call function target arguments) = .error e := by
  have covers : ∀ c ∈ (Expr.call function target arguments).children, ∀ s v,
      Typing.check declared room c = .ok s → Eval.eval b room c = .ok v →
      s.admits v.type = true :=
    fun _ _ _ _ hs hv => check_covers hb hs hv
  rw [Typing.check] at hr
  rcases bind_eq_error.mp hr with hr | ⟨s, hs, hr⟩
  · obtain ⟨a, ha, herr⟩ := option_mapM_error hr
    obtain ⟨s, hs⟩ := ho a (by simp [Expr.children, ha])
    cases hs.symm.trans herr
  rcases bind_eq_error.mp hr with hr | ⟨ts, hts, hr⟩
  · exact absurd hr (mapM_ne_error fun a ha => ho a (by simp [Expr.children, ha]))
  obtain ⟨f, subject, hf, hsubject, hacc⟩ := Typing.call_type_error hr
  rw [Eval.eval]
  refine bind_fails fun x hx => bind_fails fun vs hvs => ?_
  have htarget : Option.Rel (fun s v => StaticType.admits s v.type = true) s x :=
    option_mapM_rel hs hx fun a ha => covers a (by simp [Expr.children, ha])
  have harguments : List.Forall₂ (fun s v => StaticType.admits s v.type = true) ts vs :=
    mapM_forall₂ hts hvs fun a ha => covers a (by simp [Expr.children, ha])
  cases hcall : Eval.call function x vs with
  | error e => exact ⟨e, rfl⟩
  | ok v =>
    obtain ⟨g, w, hg, hw⟩ := Eval.call_subject hcall
    cases Option.some.inj (hf.symm.trans hg)
    have hrel := rel_or_head? htarget harguments
    rw [hsubject, hw] at hrel
    have hcovers : subject.admits w.type = true := by
      cases hrel with
      | some h => exact h
    have hneedle : ∀ t, vs.head?.map Value.type = some t →
        ts.head?.any (·.admits t) = true := by
      intro t ht
      cases harguments with
      | nil => cases ht
      | cons h _ =>
        cases ht
        exact h
    have haccepted := Typing.accepts_of_result hcovers hneedle
      ((Eval.call_follows hg hw).listed_eq hcall)
    rw [hacc] at haccepted
    cases haccepted

/-- A case for each node; the types of its operands, which the checker knows, leave evaluation no
overload. -/
theorem refused_fails (hb : b.BindMaps declared)
    (hop : ∀ op l r, e = .binary op l r → Typing.strict op = true)
    (hr : Typing.check declared (room + 1) e = .error (.type err))
    (ho : ∀ c ∈ e.children, ∃ s, Typing.check declared room c = .ok s)
    (hn : ∀ target position, e = .index target position →
      ¬DoublePosition declared room target position) :
    ∃ e', Eval.eval b (room + 1) e = .error e' := by
  cases e with
  | null | bool | int | double | string => cases hr
  | list items =>
    rw [Typing.check] at hr
    rcases bind_eq_error.mp hr with hr | ⟨_, _, hr⟩
    · exact absurd hr (mapM_ne_error ho)
    · cases hr
  | map entries =>
    rw [Typing.check] at hr
    rcases bind_eq_error.mp hr with hr | ⟨_, _, hr⟩
    · exact absurd hr (mapM_ne_error fun x hx => ho x.2 (List.mem_map.mpr ⟨x, hx, rfl⟩))
    · cases hr
  | «variable» name =>
    rw [Typing.check] at hr
    split at hr <;> cases hr
  | member target field =>
    obtain ⟨s, hs⟩ := ho target (by simp [Expr.children])
    rw [Typing.check, hs] at hr
    change (if s.admits .map = true then _ else _) = _ at hr
    split at hr
    next => cases hr
    next ha =>
      rw [Eval.eval]
      exact bind_fails fun v hv => Eval.member_fails (type_ne_of_check hb hs ha hv)
  | has target field =>
    obtain ⟨s, hs⟩ := ho target (by simp [Expr.children])
    rw [Typing.check, hs] at hr
    change (if s.admits .map = true then _ else _) = _ at hr
    split at hr
    next => cases hr
    next ha =>
      rw [Eval.eval]
      exact bind_fails fun v hv => Eval.has_fails (type_ne_of_check hb hs ha hv)
  | index target position =>
    exact refused_index hb hr (ho target (by simp [Expr.children]))
      (ho position (by simp [Expr.children])) (hn target position rfl)
  | call function target arguments => exact refused_call hb hr ho
  | unary op operand =>
    obtain ⟨s, hs⟩ := ho operand (by simp [Expr.children])
    rw [Typing.check, hs] at hr
    cases hu : Typing.unary? op s with
    | some t =>
      simp only [bind, Except.bind, hu] at hr
      cases hr
    | none =>
      rw [Eval.eval]
      refine bind_fails fun v hv => ?_
      have hf := Eval.unary_follows op v
      rw [Typing.unary?_refuses (check_covers hb hs hv) hu] at hf
      exact hf.fails
  | binary op left right =>
    obtain ⟨l, hl⟩ := ho left (by simp [Expr.children])
    obtain ⟨r, hr'⟩ := ho right (by simp [Expr.children])
    have hstrict := hop op left right rfl
    rw [Typing.check, hl, hr'] at hr
    cases hbin : Typing.binary? op l r with
    | some t =>
      simp only [bind, Except.bind, hbin] at hr
      cases hr
    | none =>
      rw [Eval.eval, if_neg (by rintro (rfl | rfl) <;> cases hstrict)]
      refine bind_fails fun v hv => bind_fails fun w hw => ?_
      have hf := Eval.binary_follows op v w
      rw [Typing.binary?_refuses hstrict (check_covers hb hl hv) (check_covers hb hr' hw) hbin] at hf
      exact hf.fails
  | conditional condition yes no =>
    obtain ⟨c, hc⟩ := ho condition (by simp [Expr.children])
    obtain ⟨y, hy⟩ := ho yes (by simp [Expr.children])
    obtain ⟨n, hn⟩ := ho no (by simp [Expr.children])
    rw [Typing.check, hc, hy, hn] at hr
    change (if (!c.admits .bool) = true then _ else _) = _ at hr
    split at hr
    next ha =>
      rw [Eval.eval]
      refine bind_fails fun v hv => ?_
      have hv := type_ne_of_check hb hc (by simpa using ha) hv
      cases v with
      | bool x => exact absurd rfl hv
      | null | int | double | string | list | map => exact ⟨_, rfl⟩
    next => cases hr

/-- What a refused node is worth: nothing, or the element of a list at a whole double. -/
theorem refused_value_iff (hb : b.BindMaps declared)
    (hop : ∀ op l r, e = .binary op l r →
      op ≠ .equal ∧ op ≠ .notEqual ∧ op ≠ .and ∧ op ≠ .or)
    (hr : Typing.check declared (room + 1) e = .error (.type err))
    (ho : ∀ c ∈ e.children, ∃ s, Typing.check declared room c = .ok s) :
    ((∀ target position, e = .index target position →
        ¬DoublePosition declared room target position) →
      ∃ e', Eval.eval b (room + 1) e = .error e') ∧
    ∀ v, Eval.eval b (room + 1) e = .ok v ↔
      ∃ (target position : Expr) (items : List Value) (d : Double) (n : Nat),
        e = .index target position ∧ DoublePosition declared room target position ∧
          Eval.eval b room target = .ok (.list items) ∧
          Eval.eval b room position = .ok (.double d) ∧ d.whole? = some (n : Int) ∧
          n < 9223372036854775808 ∧ items[n]? = some v := by
  have hstrict : ∀ op l r, e = .binary op l r → Typing.strict op = true := by
    intro op l r he
    obtain ⟨heq, hne, hand, hor⟩ := hop op l r he
    cases op <;> first | rfl | contradiction
  have fails := refused_fails hb hstrict hr ho
  refine ⟨fails, fun v => ⟨fun hv => ?_, ?_⟩⟩
  · by_cases hd : ∃ target position, e = .index target position ∧
        DoublePosition declared room target position
    · obtain ⟨target, position, rfl, hd⟩ := hd
      rw [Eval.eval] at hv
      obtain ⟨w, hw, hv⟩ := bind_eq_ok.mp hv
      obtain ⟨x, hx, hv⟩ := bind_eq_ok.mp hv
      obtain ⟨items, rfl⟩ :=
        Value.eq_list ((StaticType.admits_known _ _).mp (check_covers hb hd.target_type hw)).symm
      obtain ⟨d, rfl⟩ :=
        Value.eq_double ((StaticType.admits_known _ _).mp (check_covers hb hd.position_type hx)).symm
      obtain ⟨n, hn, hbound, hitem⟩ := Eval.index_double.mp hv
      exact ⟨target, position, items, d, n, rfl, hd, hw, hx, hn, hbound, hitem⟩
    · obtain ⟨e', he'⟩ := fails fun target position he hp => hd ⟨target, position, he, hp⟩
      cases he'.symm.trans hv
  · rintro ⟨target, position, items, d, n, rfl, _, ht, hp, hn, hbound, hitem⟩
    exact (Eval.eval_index ht hp).trans (Eval.index_double.mpr ⟨n, hn, hbound, hitem⟩)

/-- A variable is no number. -/
theorem refused_sum_fails :
    Expr.parse "A + 1" = .ok (.binary .add (.variable "A") (.int 1)) ∧
      Typing.check ["A"] (maxDepth + 1) (.binary .add (.variable "A") (.int 1)) =
        .error (.type (.binary .add (.known .map) (.known .int))) ∧
      ∃ e, Eval.eval ⟨[("A", .map [])]⟩ (maxDepth + 1) (.binary .add (.variable "A") (.int 1)) =
        .error e := by
  have hb : Bindings.BindMaps ⟨[("A", .map [])]⟩ ["A"] := by
    intro name hname
    rw [List.mem_singleton.mp hname]
    exact ⟨[], rfl⟩
  have hr : Typing.check ["A"] (maxDepth + 1) (.binary .add (.variable "A") (.int 1)) =
      .error (.type (.binary .add (.known .map) (.known .int))) := rfl
  have ho : ∀ c ∈ (Expr.binary .add (.variable "A") (.int 1)).children,
      ∃ s, Typing.check ["A"] maxDepth c = .ok s :=
    List.forall_mem_cons.mpr ⟨⟨.known .map, rfl⟩, List.forall_mem_singleton.mpr ⟨.known .int, rfl⟩⟩
  refine ⟨by cbv, hr, (refused_value_iff hb ?_ hr ho).1 ?_⟩
  · intro op l r he
    cases he
    decide
  · intro target position he
    cases he

/-- A list is not indexed by a double, although the double is whole and the place there. -/
theorem whole_position_refused :
    ∃ e, Expr.parse "[1, 2, 3][double(1)]" = .ok e ∧
      e.check [] = .error (.type (.index (.known .list) (.known .double))) ∧
      (∀ c ∈ e.children, ∃ s, Typing.check [] maxDepth c = .ok s) ∧
      e.eval ⟨[]⟩ = .ok (.int 2) := by
  have hl : Eval.eval ⟨[]⟩ maxDepth (.list [.int 1, .int 2, .int 3]) =
      .ok (.list [.int 1, .int 2, .int 3]) := rfl
  have hd : Eval.eval ⟨[]⟩ maxDepth (.call "double" none [.int 1]) =
      .ok (.double (Double.ofInt 1)) := rfl
  have hwhole : (Double.ofInt 1).whole? = some ((1 : Nat) : Int) := by decide +kernel
  refine ⟨.index (.list [.int 1, .int 2, .int 3]) (.call "double" none [.int 1]), by cbv, rfl,
    ?_, ?_⟩
  · exact List.forall_mem_cons.mpr ⟨⟨.known .list, rfl⟩,
      List.forall_mem_singleton.mpr ⟨.known .double, rfl⟩⟩
  · exact (Eval.eval_index hl hd).trans (Eval.index_double.mpr ⟨1, hwhole, by decide, rfl⟩)

end

end EventStream
