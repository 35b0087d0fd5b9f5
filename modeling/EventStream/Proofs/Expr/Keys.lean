import EventStream.Channel.Basic
import EventStream.Proofs.Expr.Insertions
import EventStream.Proofs.Expr.JsonValues
import EventStream.Proofs.Expr.Tables
import EventStream.Proofs.Json.Parsed
import EventStream.Proofs.Window.CrossJoin

namespace EventStream

namespace Value

variable {v : Value} {entries : List (String × Value)}

theorem keyed_of_type (hl : v.type ≠ .list) (hm : v.type ≠ .map) : v.Keyed := by
  cases v with
  | list => exact absurd rfl hl
  | map => exact absurd rfl hm
  | _ => constructor

theorem Keyed.of_item {items : List Value} (h : (Value.list items).Keyed) (hv : v ∈ items) :
    v.Keyed := by
  cases h with
  | list h => exact h v hv

theorem Keyed.of_lookup? {key : String} (h : (Value.map entries).Keyed)
    (hv : lookup? entries key = some v) : v.Keyed := by
  cases h with
  | map _ h => exact h (key, v) (mem_of_lookup? hv)

/-- JSON that was read has no key twice in an object. -/
theorem keyed_ofJson {n : Nat} {j : Json} (hw : Json.Writable n j) : (ofJson j).Keyed := by
  induction hw with
  | null | bool | integer | double | string =>
    rw [ofJson]
    constructor
  | array _ ih =>
    rw [ofJson, ofItems_eq]
    refine .list fun v hv => ?_
    obtain ⟨j, hj, rfl⟩ := List.mem_map.mp hv
    exact ih j hj
  | @object n entries hsorted _ ih =>
    rw [ofJson, ofEntries_eq]
    refine .map ?_ fun e he => ?_
    · have hkeys : keys (entries.map fun e => (e.1, ofJson e.2)) = keys entries := by
        simp [keys, Function.comp_def]
      exact hkeys ▸ hsorted.imp ne_of_lt
    · obtain ⟨d, hd, rfl⟩ := List.mem_map.mp he
      exact ih d hd

theorem mem_setEntry {key : String} {e : String × Value} (h : e ∈ setEntry key v entries) :
    e = (key, v) ∨ e ∈ entries := by
  induction entries with
  | nil => exact .inl (List.mem_singleton.mp h)
  | cons d r ih =>
    obtain ⟨k, w⟩ := d
    unfold setEntry at h
    split at h
    next hk =>
      rcases List.mem_cons.mp h with rfl | h
      · exact .inl (by rw [hk])
      · exact .inr (List.mem_cons_of_mem _ h)
    next =>
      rcases List.mem_cons.mp h with rfl | h
      · exact .inr List.mem_cons_self
      · exact (ih h).imp_right (List.mem_cons_of_mem _)

theorem Keyed.setEntry {key : String} (h : (Value.map entries).Keyed) (hv : v.Keyed) :
    (Value.map (setEntry key v entries)).Keyed := by
  cases h with
  | map hnodup hentries =>
    refine .map (nodup_setEntry hnodup) fun e he => ?_
    rcases mem_setEntry he with rfl | he
    · exact hv
    · exact hentries e he

end Value

theorem Event.keyed_of_value {e : Event} {v : Value} (h : e.value = .ok v) : v.Keyed := by
  obtain ⟨entries, hentries, rfl⟩ := map_eq_ok.mp h
  unfold Event.entries at hentries
  split at hentries <;> cases hentries
  next hread => exact Value.keyed_ofJson (Json.writable_of_parse? hread)

/-- The values that variables have are keyed. -/
def Bindings.Keyed (b : Bindings) : Prop :=
  ∀ name v, b.get? name = some v → v.Keyed

theorem Bindings.keyed_empty : Bindings.empty.Keyed :=
  nofun

theorem Bindings.Keyed.insert {b : Bindings} {name : String} {v : Value} (h : b.Keyed)
    (hv : v.Keyed) : (b.insert name v).Keyed := by
  intro other w hw
  rw [get?_insert] at hw
  split at hw
  · cases hw
    exact hv
  · exact h other w hw

namespace Eval

variable {v w x : Value} {b : Bindings}

theorem keyed_select {field operation : String} {operands : List ValueType} (hv : v.Keyed)
    (h : select v field operation operands = .ok w) : w.Keyed := by
  unfold select at h
  split at h
  · split at h <;> cases h
    next hfound => exact hv.of_lookup? hfound
  · cases h

theorem keyed_has {field : String} (h : has v field = .ok w) : w.Keyed := by
  unfold has at h
  split at h <;> cases h
  exact .bool

theorem keyed_index (hv : v.Keyed) (h : index v w = .ok x) : x.Keyed := by
  unfold index at h
  split at h
  · unfold element at h
    obtain ⟨_, h⟩ := refused_unless_eq_ok h
    split at h <;> cases h
    next hfound => exact hv.of_item (List.mem_of_getElem? hfound)
  · exact keyed_select hv h
  · cases h

theorem keyed_unary {op : UnaryOp} (h : unary op v = .ok w) : w.Keyed := by
  have hlisted := (unary_follows op v).listed_eq h
  unfold UnaryOp.result? at hlisted
  refine Value.keyed_of_type ?_ ?_ <;> intro ht <;> rw [ht] at hlisted <;> split at hlisted <;>
    cases hlisted

/-- Of the operators on two operands only the sum of two lists gives anything but a scalar. -/
theorem result?_cases {op : BinaryOp} {s t u : ValueType} (h : op.result? s t = some u) :
    (op = .add ∧ s = .list ∧ t = .list) ∨ (u ≠ .list ∧ u ≠ .map) := by
  have hbool {p : Bool} (h : boolType p = some u) : u ≠ .list ∧ u ≠ .map := by
    unfold boolType at h
    split at h <;> cases h
    decide
  have hnumber (h : s.arithmetic? t = some u) : u ≠ .list ∧ u ≠ .map := by
    unfold ValueType.arithmetic? at h
    split at h
    · cases h
      decide
    · split at h <;> cases h
      decide
  cases op with
  | or | and => cases h
  | equal | notEqual =>
    cases h
    exact .inr (by decide)
  | less | lessEqual | greater | greaterEqual | isIn => exact .inr (hbool h)
  | subtract | multiply | divide | modulus => exact .inr (hnumber h)
  | add =>
    change s.sum? t = some u at h
    unfold ValueType.sum? at h
    split at h
    · cases h
      exact .inr (by decide)
    · exact .inl ⟨rfl, rfl, rfl⟩
    · exact .inr (hnumber h)

theorem keyed_binary {op : BinaryOp} (hv : v.Keyed) (hw : w.Keyed) (h : binary op v w = .ok x) :
    x.Keyed := by
  rcases result?_cases ((binary_follows op v w).listed_eq h) with ⟨rfl, hs, ht⟩ | ⟨hlist, hmap⟩
  · obtain ⟨xs, rfl⟩ := Value.eq_list hs
    obtain ⟨ys, rfl⟩ := Value.eq_list ht
    cases h
    exact .list fun u hu => (List.mem_append.mp hu).elim hv.of_item hw.of_item
  · exact Value.keyed_of_type hlist hmap

theorem keyed_call {function : String} {target : Option Value} {arguments : List Value}
    (h : call function target arguments = .ok x) : x.Keyed := by
  obtain ⟨f, subject, hf, hs⟩ := call_subject h
  have htype := Typing.result?_type ((call_follows hf hs).listed_eq h)
  apply Value.keyed_of_type <;> rw [htype] <;> cases f <;> decide

/-- An entry replaces one with its key, so that no key comes twice. -/
theorem keyed_mapOf {entries : List (String × Value)} (h : ∀ e ∈ entries, e.2.Keyed) :
    (mapOf entries).Keyed :=
  List.foldlRecOn (motive := fun m => (Value.map m).Keyed) entries _
    (.map List.nodup_nil nofun) fun _ hm e he => hm.setEntry (h e he)

theorem keyed_eval (hb : b.Keyed) {room : Nat} {e : Expr} (h : eval b room e = .ok v) :
    v.Keyed := by
  induction room generalizing e v with
  | zero => cases h
  | succ room ih =>
    cases e with
    | null | bool | int | double | string =>
      cases h
      constructor
    | list items =>
      obtain ⟨vs, hvs, h⟩ := bind_eq_ok.mp h
      cases h
      refine .list fun v hv => ?_
      obtain ⟨e, _, he⟩ := exists_mem_of_forall₂ (mapM_eq_ok.mp hvs) hv
      exact ih he
    | map entries =>
      obtain ⟨vs, hvs, h⟩ := bind_eq_ok.mp h
      cases h
      refine keyed_mapOf fun e he => ?_
      obtain ⟨d, _, hd⟩ := exists_mem_of_forall₂ (mapM_eq_ok.mp hvs) he
      obtain ⟨w, hw, hd⟩ := bind_eq_ok.mp hd
      cases hd
      exact ih hw
    | «variable» name =>
      rw [eval] at h
      split at h <;> cases h
      next hv => exact hb name v hv
    | member target field =>
      obtain ⟨t, ht, h⟩ := bind_eq_ok.mp h
      exact keyed_select (ih ht) h
    | has target field =>
      obtain ⟨t, _, h⟩ := bind_eq_ok.mp h
      exact keyed_has h
    | index target position =>
      obtain ⟨t, ht, h⟩ := bind_eq_ok.mp h
      obtain ⟨p, _, h⟩ := bind_eq_ok.mp h
      exact keyed_index (ih ht) h
    | unary op operand =>
      obtain ⟨w, _, h⟩ := bind_eq_ok.mp h
      exact keyed_unary h
    | binary op left right =>
      rw [eval] at h
      split at h
      next =>
        have htype := logical_type h
        exact Value.keyed_of_type (by rw [htype]; decide) (by rw [htype]; decide)
      next =>
        obtain ⟨l, hl, h⟩ := bind_eq_ok.mp h
        obtain ⟨r, hr, h⟩ := bind_eq_ok.mp h
        exact keyed_binary (ih hl) (ih hr) h
    | conditional condition yes no =>
      obtain ⟨c, _, h⟩ := bind_eq_ok.mp h
      split at h
      · exact ih h
      · exact ih h
      · cases h
    | call function target arguments =>
      obtain ⟨t, _, h⟩ := bind_eq_ok.mp h
      obtain ⟨vs, _, h⟩ := bind_eq_ok.mp h
      exact keyed_call h

end Eval

/-- What a program writes is the JSON of a keyed value, which is equal to what that JSON is. -/
theorem Program.keyed_of_selected {p : Program} {b : Bindings} {body : Bytes} (hb : b.Keyed)
    (h : p.selected b = .ok body) :
    ∃ v j, p.evaluate b = .ok v ∧ v.Keyed ∧ v.toJson = .ok j ∧ body = j.write ∧
      v.equal (.ofJson j) = true := by
  obtain ⟨v, hv, hbytes⟩ := selected_eq_ok.mp h
  have hkeyed : v.Keyed := Eval.keyed_eval hb hv
  unfold Value.jsonBytes at hbytes
  split at hbytes <;> cases hbytes
  next j hj => exact ⟨v, j, hv, hkeyed, hj, rfl, Value.equal_of_toJson hkeyed hj⟩

theorem Channel.keyed_bindings (c : Channel) {e : Event} {v : Value} (h : e.value = .ok v) :
    (c.bindings v).Keyed :=
  Bindings.keyed_empty.insert (Event.keyed_of_value h)

theorem JoinEngine.keyed_bindings (j : JoinEngine) {d e : Event} {v w : Value}
    (hv : d.value = .ok v) (hw : e.value = .ok w) : (j.bindings v w).Keyed :=
  (Bindings.keyed_empty.insert (Event.keyed_of_value hv)).insert (Event.keyed_of_value hw)

theorem Gate.keyed_bindings (count : Nat) (since now : Instant) :
    (Bindings.empty.insert "trigger" (state count since now)).Keyed := by
  refine Bindings.keyed_empty.insert ?_
  have hkeys : ["count", "duration"].Nodup := by decide
  refine .map hkeys fun e he => ?_
  rcases List.mem_pair.mp he with rfl | rfl <;> exact .int

/-- What a channel collects is the payload as it came, or else written from a keyed value. -/
theorem Channel.keyed_of_collect {c : Channel} {e : Event} {body : Bytes}
    (h : c.collect e = .ok body) :
    body = e.payload ∨ ∃ (v : Value) (j : Json), v.Keyed ∧ v.toJson = .ok j ∧ body = j.write ∧
      v.equal (.ofJson j) = true := by
  obtain ⟨w, hw, h⟩ := bind_eq_ok.mp h
  cases hselect : c.select with
  | none =>
    rw [hselect] at h
    cases h
    exact .inl rfl
  | some p =>
    rw [hselect] at h
    have hvalue : e.value = .ok w := by
      cases he : e.value <;> rw [he] at hw <;> cases hw
      rfl
    obtain ⟨v, j, _, hv⟩ := Program.keyed_of_selected (c.keyed_bindings hvalue) h
    exact .inr ⟨v, j, hv⟩

end EventStream
