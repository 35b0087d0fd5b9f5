import EventStream.Proofs.Expr.Tables

namespace EventStream

section
variable {declared : List String} {b : Bindings}

/-- The types of a call depend on its function alone, those of the other operations on what is known
of their operands. -/
theorem check_covers (hb : b.BindMaps declared) {room : Nat} {e : Expr} {t : StaticType}
    {v : Value} (hc : Typing.check declared room e = .ok t) (hv : Eval.eval b room e = .ok v) :
    t.admits v.type = true := by
  induction room generalizing e t v with
  | zero => cases hc
  | succ room ih =>
    cases e with
    | null | bool | int | double | string =>
      cases hc
      cases hv
      rfl
    | list items =>
      rw [(Typing.check_list hc).1]
      obtain ⟨vs, _, hv⟩ := bind_eq_ok.mp hv
      cases hv
      rfl
    | map entries =>
      rw [(Typing.check_map hc).1]
      obtain ⟨vs, _, hv⟩ := bind_eq_ok.mp hv
      cases hv
      rfl
    | «variable» name =>
      obtain ⟨hd, rfl⟩ := Typing.check_variable hc
      obtain ⟨entries, he⟩ := hb name hd
      rw [Eval.eval, he] at hv
      cases hv
      rfl
    | member target field =>
      rw [(Typing.check_member hc).1]
      exact StaticType.admits_dyn _
    | has target field =>
      rw [(Typing.check_has hc).1]
      obtain ⟨w, _, hv⟩ := bind_eq_ok.mp hv
      unfold Eval.has at hv
      split at hv <;> cases hv
      rfl
    | index target position =>
      rw [(Typing.check_index hc).1]
      exact StaticType.admits_dyn _
    | call function target arguments =>
      obtain ⟨s, ts, _, _, hcall⟩ := Typing.check_call hc
      obtain ⟨f, _, hf, _, _, rfl⟩ := Typing.call_ok hcall
      obtain ⟨x, _, hv⟩ := bind_eq_ok.mp hv
      obtain ⟨vs, _, hv⟩ := bind_eq_ok.mp hv
      obtain ⟨g, subject, hg, hs⟩ := Eval.call_subject hv
      have hr := (Eval.call_follows hg hs).listed_eq hv
      rw [Option.some.inj (hf.symm.trans hg)]
      exact (StaticType.admits_known _ _).mpr (Typing.result?_type hr).symm
    | unary op operand =>
      obtain ⟨s, hs, ht⟩ := Typing.check_unary hc
      obtain ⟨w, hw, hv⟩ := bind_eq_ok.mp hv
      exact Typing.unary?_sound (ih hs hw) ht ((Eval.unary_follows op w).listed_eq hv)
    | binary op left right =>
      obtain ⟨l, r, hl, hr, ht⟩ := Typing.check_binary hc
      rw [Eval.eval] at hv
      split at hv
      next hop =>
        rw [Eval.logical_type hv]
        rcases hop with rfl | rfl <;> rw [(Typing.boolIf_eq_some.mp ht).2] <;> rfl
      next =>
        obtain ⟨x, hx, hv⟩ := bind_eq_ok.mp hv
        obtain ⟨y, hy, hv⟩ := bind_eq_ok.mp hv
        exact Typing.binary?_sound (ih hl hx) (ih hr hy) ht ((Eval.binary_follows op x y).listed_eq hv)
    | conditional condition yes no =>
      obtain ⟨c, y, n, _, _, hy, hn, rfl⟩ := Typing.check_conditional hc
      obtain ⟨w, _, hv⟩ := bind_eq_ok.mp hv
      split
      next h =>
        subst h
        split at hv
        · exact ih hy hv
        · exact ih hn hv
        · cases hv
      next => exact StaticType.admits_dyn _

/-- A part counts whether evaluation reaches it or not, each with the levels left where it lies. -/
theorem value_type_of_compile {source : String} {p : Program}
    (hp : Program.compile source declared = .ok p) (hb : b.BindMaps declared) :
    (∃ t, p.root.check declared = .ok t ∧
      ∀ v, p.evaluate b = .ok v → t = .dyn ∨ t = .known v.type) ∧
    ∀ room e, Expr.Part (maxDepth + 1) p.root room e →
      ∃ t, Typing.check declared room e = .ok t ∧
        ∀ v, Eval.eval b room e = .ok v → t = .dyn ∨ t = .known v.type := by
  obtain ⟨t, ht, _⟩ := Program.compile_eq_ok hp
  constructor
  · exact ⟨t, ht, fun v hv => StaticType.admits_iff.mp (check_covers hb ht hv)⟩
  · intro room e hpart
    obtain ⟨s, hs⟩ := Typing.check_part ht hpart
    exact ⟨s, hs, fun v hv => StaticType.admits_iff.mp (check_covers hb hs hv)⟩

/-- The size of a variable is known to be an integer. -/
theorem value_type_of_compiled_size :
    ∃ p, Program.compile "size(A) + 1" ["A"] = .ok p ∧
      p.evaluate ⟨[("A", .map [])]⟩ = .ok (.int 1) ∧
      ∃ t, p.root.check ["A"] = .ok t ∧ (t = .dyn ∨ t = .known .int) := by
  have hp : Program.compile "size(A) + 1" ["A"] =
      .ok ⟨"size(A) + 1", ["A"], .binary .add (.call "size" none [.variable "A"]) (.int 1)⟩ := by
    cbv
  have hb : Bindings.BindMaps ⟨[("A", .map [])]⟩ ["A"] := by
    intro name hname
    rw [List.mem_singleton.mp hname]
    exact ⟨[], rfl⟩
  obtain ⟨⟨t, ht, hcovers⟩, _⟩ := value_type_of_compile hp hb
  exact ⟨_, hp, rfl, t, ht, hcovers (.int 1) rfl⟩

end

end EventStream
