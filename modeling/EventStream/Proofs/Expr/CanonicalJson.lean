import EventStream.Proofs.Expr.Comparisons

namespace EventStream

section
variable {α γ : Type} {R : α → γ → Prop} {S : α → α → Prop}

/-- Items are related one by one exactly when what stands for them is the same. -/
theorem forall₂_iff_eq {xs ys : List α} {is js : List γ} (hi : List.Forall₂ R xs is)
    (hj : List.Forall₂ R ys js)
    (h : ∀ x ∈ xs, ∀ y ∈ ys, ∀ i j, R x i → R y j → (S x y ↔ i = j)) :
    List.Forall₂ S xs ys ↔ is = js := by
  induction hi generalizing ys js with
  | nil => cases hj <;> simp
  | cons hx _ ih =>
    cases hj with
    | nil => simp
    | cons hy hj =>
      have hhead := h _ List.mem_cons_self _ List.mem_cons_self _ _ hx hy
      have htail := ih hj fun x hx y hy =>
        h x (List.mem_cons_of_mem _ hx) y (List.mem_cons_of_mem _ hy)
      rw [List.forall₂_cons, List.cons.injEq, hhead, htail]

theorem rel_iff_eq {x y : Option α} {i j : Option γ} (hi : Option.Rel R x i)
    (hj : Option.Rel R y j)
    (h : ∀ a, x = some a → ∀ b, y = some b → ∀ c d, R a c → R b d → (S a b ↔ c = d)) :
    Option.Rel S x y ↔ i = j := by
  cases hi with
  | none =>
    cases hj with
    | none => exact iff_of_true .none rfl
    | some => exact iff_of_false nofun nofun
  | some hx =>
    cases hj with
    | none => exact iff_of_false nofun nofun
    | some hy =>
      rw [Option.some.injEq, ← h _ rfl _ rfl _ _ hx hy, rel_some_left]
      simp

theorem lookup?_rel {xs : List (String × α)} {es : List (String × γ)} (k : String)
    (h : List.Forall₂ (fun e f => R e.2 f.2 ∧ e.1 = f.1) xs es) :
    Option.Rel R (lookup? xs k) (lookup? es k) := by
  induction h with
  | nil => exact .none
  | cons he _ ih =>
    rw [lookup?, lookup?, he.2]
    split
    · exact .some he.1
    · exact ih

end

namespace Value

/-- The integer that a number of either kind is. -/
def integer? : Value → Option Int
  | .int n => some n.toInt
  | .double d => d.whole?
  | _ => none

/-- All numbers in a value are whole and at most `2 ^ 53` from zero. -/
inductive Whole : Value → Prop
  | null : Whole .null
  | bool {b} : Whole (.bool b)
  | number {v n} : v.integer? = some n → n.natAbs ≤ 2 ^ 53 → Whole v
  | string {s} : Whole (.string s)
  | list {items} : (∀ v ∈ items, Whole v) → Whole (.list items)
  | map {entries} : (∀ e ∈ entries, Whole e.2) → Whole (.map entries)

/-- The type of a value, both kinds of numbers being one. -/
def kind (v : Value) : ValueType :=
  if v.type = .double then .int else v.type

section
variable {v w : Value} {m n : Int} {i j : Json}

theorem integer?_cases (h : v.integer? = some n) :
    (∃ m, v = .int m ∧ m.toInt = n) ∨ ∃ d, v = .double d ∧ d.whole? = some n := by
  cases v with
  | int m => exact .inl ⟨m, rfl, Option.some.inj h⟩
  | double d => exact .inr ⟨d, rfl, h⟩
  | _ => cases h

theorem place?_of_integer? (h : v.integer? = some n) (hn : n.natAbs ≤ 2 ^ 53) :
    v.place? = some (n * Double.one) := by
  rcases integer?_cases h with ⟨m, rfl, rfl⟩ | ⟨d, rfl, hd⟩
  · rw [place?_int, Double.place?_ofInt_of_natAbs_le hn]
  · rw [place?_double, Double.place?_of_whole? hd]

theorem toJson_of_integer? (h : v.integer? = some n) (hn : n.natAbs ≤ 2 ^ 53) :
    v.toJson = .ok (.integer n) := by
  rcases integer?_cases h with ⟨m, rfl, rfl⟩ | ⟨d, rfl, hd⟩
  · rfl
  · have hle : n.natAbs ≤ exactLimit := hn
    rw [toJson, doubleJson, hd]
    exact if_pos hle

theorem equal_iff_of_integer? (hv : v.integer? = some m) (hm : m.natAbs ≤ 2 ^ 53)
    (hw : w.integer? = some n) (hn : n.natAbs ≤ 2 ^ 53) : v.equal w = true ↔ m = n := by
  have hx := place?_of_integer? hv hm
  have hy := place?_of_integer? hw hn
  have hone : (Double.one : Int) ≠ 0 := by
    have := Double.one_pos
    omega
  rcases Eval.compare?_numbers hx hy with ⟨a, b, rfl, rfl, _, h⟩ | ⟨_, _, h⟩
  · rw [h, Option.some.inj hv, Option.some.inj hw]
  · rw [h]
    exact mul_left_inj' hone

theorem Whole.item {items : List Value} (h : Whole (.list items)) (hv : v ∈ items) : v.Whole := by
  cases h with
  | number hn => cases hn
  | list hitems => exact hitems v hv

theorem Whole.entry {entries : List (String × Value)} {e : String × Value}
    (h : Whole (.map entries)) (he : e ∈ entries) : e.2.Whole := by
  cases h with
  | number hn => cases hn
  | map hentries => exact hentries e he

theorem integer?_of_kind (hv : v.Whole) (h : v.kind = .int) :
    ∃ n, v.integer? = some n ∧ n.natAbs ≤ 2 ^ 53 := by
  cases hv with
  | number hn hle => exact ⟨_, hn, hle⟩
  | _ => cases h

theorem whole?_of_holds {d : Double} (hd : Holds d v) (hv : v.Whole) : ∃ n, d.whole? = some n := by
  induction hd with
  | double =>
    cases hv with
    | number hn => exact ⟨_, hn⟩
  | item hmem _ ih => exact ih (hv.item hmem)
  | entry hmem _ ih => exact ih (hv.entry hmem)

theorem exists_toJson (hv : v.Whole) : ∃ j, v.toJson = .ok j := by
  cases h : v.toJson with
  | ok j => exact ⟨j, rfl⟩
  | error d =>
    obtain ⟨hd, hfinite⟩ := holds_of_toJson_error h
    obtain ⟨n, hn⟩ := whole?_of_holds hd hv
    cases d with
    | finite => cases hfinite
    | _ => cases hn

theorem kind_of_equal (h : v.equal w = true) : v.kind = w.kind := by
  cases v <;> cases w <;> first | rfl | cases h

theorem kind_of_toJson (hv : v.Keyed) (h : v.toJson = .ok j) : v.kind = (ofJson j).kind :=
  kind_of_equal (equal_of_toJson hv h)

theorem iff_of_kind_ne (hv : v.Keyed) (hw : w.Keyed) (hi : v.toJson = .ok i)
    (hj : w.toJson = .ok j) (h : v.kind ≠ w.kind) : v.equal w = true ↔ i = j := by
  refine iff_of_false (fun hequal => h (kind_of_equal hequal)) ?_
  rintro rfl
  exact h ((kind_of_toJson hv hi).trans (kind_of_toJson hw hj).symm)

theorem iff_of_numbers (hv : v.Whole) (hw : w.Whole) (hi : v.toJson = .ok i)
    (hj : w.toJson = .ok j) (hv' : v.kind = .int) (hw' : w.kind = .int) :
    v.equal w = true ↔ i = j := by
  obtain ⟨m, hm, hmle⟩ := integer?_of_kind hv hv'
  obtain ⟨n, hn, hnle⟩ := integer?_of_kind hw hw'
  cases hi.symm.trans (toJson_of_integer? hm hmle)
  cases hj.symm.trans (toJson_of_integer? hn hnle)
  rw [equal_iff_of_integer? hm hmle hn hnle, Json.integer.injEq]

/-- Equality shows in the JSON, by induction on one value with the other one of the same kind. -/
theorem equal_iff_toJson (hv : v.Keyed) (hw : w.Keyed) (hv' : v.Whole) (hw' : w.Whole)
    (hi : v.toJson = .ok i) (hj : w.toJson = .ok j) : v.equal w = true ↔ i = j := by
  induction hv generalizing w i j with
  | null =>
    have hother := iff_of_kind_ne .null hw hi hj
    cases hw with
    | null => simp_all [equal, toJson]
    | _ => exact hother (by rintro ⟨⟩)
  | bool =>
    have hother := iff_of_kind_ne .bool hw hi hj
    cases hw with
    | bool =>
      cases hi
      cases hj
      simp [equal]
    | _ => exact hother (by rintro ⟨⟩)
  | string =>
    have hother := iff_of_kind_ne .string hw hi hj
    cases hw with
    | string =>
      cases hi
      cases hj
      simp [equal]
    | _ => exact hother (by rintro ⟨⟩)
  | int =>
    have hother := iff_of_kind_ne .int hw hi hj
    cases hw with
    | int | double => exact iff_of_numbers hv' hw' hi hj rfl rfl
    | _ => exact hother (by rintro ⟨⟩)
  | double =>
    have hother := iff_of_kind_ne .double hw hi hj
    cases hw with
    | int | double => exact iff_of_numbers hv' hw' hi hj rfl rfl
    | _ => exact hother (by rintro ⟨⟩)
  | @list xs hxs ih =>
    have hother := iff_of_kind_ne (.list hxs) hw hi hj
    cases hw with
    | @list ys hys =>
      obtain ⟨is, his, rfl⟩ := toJson_list.mp hi
      obtain ⟨js, hjs, rfl⟩ := toJson_list.mp hj
      rw [equal_list, Json.array.injEq]
      refine forall₂_iff_eq his hjs fun v hv w hw i j => ?_
      exact ih v hv (hys w hw) (hv'.item hv) (hw'.item hw)
    | _ => exact hother (by rintro ⟨⟩)
  | @map xs hx hxs ih =>
    have hother := iff_of_kind_ne (.map hx hxs) hw hi hj
    cases hw with
    | @map ys hy hys =>
      obtain ⟨is, his, rfl⟩ := toJson_map.mp hi
      obtain ⟨js, hjs, rfl⟩ := toJson_map.mp hj
      have hikeys : (keys is).Nodup := keys_eq_of_forall₂ (his.imp fun _ _ h => h.2) ▸ hx
      have hjkeys : (keys js).Nodup := keys_eq_of_forall₂ (hjs.imp fun _ _ h => h.2) ▸ hy
      rw [equal_map hx hy, Json.ofEntries, Json.ofEntries, Json.object.injEq,
        sortedEntries_eq_iff hikeys hjkeys]
      refine forall_congr' fun k => ?_
      have hfound : Option.Rel (fun v j => toJson v = .ok j) (lookup? xs k) (lookup? is k) :=
        lookup?_rel k his
      have hfound' : Option.Rel (fun v j => toJson v = .ok j) (lookup? ys k) (lookup? js k) :=
        lookup?_rel k hjs
      refine rel_iff_eq hfound hfound' fun v hv w hw i j => ?_
      have hv := mem_of_lookup? hv
      have hw := mem_of_lookup? hw
      exact ih (k, v) hv (hys _ hw) (hv'.entry hv) (hw'.entry hw)
    | _ => exact hother (by rintro ⟨⟩)

end

end Value

/-- Values whose numbers are whole and at most `2 ^ 53` from zero are equal exactly when their bytes
are, in whichever order the entries of their maps came and of whichever kind their numbers are. -/
theorem jsonBytes_canonical {v w : Value} (hv : v.Keyed) (hw : w.Keyed) (hv' : v.Whole)
    (hw' : w.Whole) :
    ∃ b c, v.jsonBytes = .ok b ∧ w.jsonBytes = .ok c ∧
      (Eval.binary .equal v w = .ok (.bool true) ↔ b = c) := by
  obtain ⟨i, hi⟩ := Value.exists_toJson hv'
  obtain ⟨j, hj⟩ := Value.exists_toJson hw'
  have hbytes {v : Value} {j : Json} (h : v.toJson = .ok j) : v.jsonBytes = .ok j.write := by
    rw [Value.jsonBytes, h]
  have hequal : Eval.binary .equal v w = .ok (.bool true) ↔ v.equal w = true := by
    simp [Eval.binary]
  refine ⟨i.write, j.write, hbytes hi, hbytes hj, ?_⟩
  rw [hequal, Value.equal_iff_toJson hv hw hv' hw' hi hj]
  constructor
  · rintro rfl
    rfl
  · exact Json.write_injective (Value.writable_of_toJson hi le_rfl)
      (Value.writable_of_toJson hj le_rfl)

/-- An int and, in a list, minus zero. -/
def minusZeroListed : Value :=
  .map [("b", .int 0), ("a", .list [.double (.finite true 0 Double.fits_zero)])]

/-- The same numbers of the other kinds, under the same keys. -/
def zeroListed : Value :=
  .map [("a", .list [.int 0]), ("b", .double .zero)]

theorem jsonBytes_canonical_minus_zero :
    ∃ b, minusZeroListed.jsonBytes = .ok b ∧ zeroListed.jsonBytes = .ok b := by
  have hpair {k l : String} {v w : Value} (hkl : [k, l].Nodup) (hv : v.Keyed ∧ v.Whole)
      (hw : w.Keyed ∧ w.Whole) :
      (Value.map [(k, v), (l, w)]).Keyed ∧ (Value.map [(k, v), (l, w)]).Whole :=
    ⟨.map hkl (List.forall_mem_cons.mpr ⟨hv.1, List.forall_mem_singleton.mpr hw.1⟩),
      .map (List.forall_mem_cons.mpr ⟨hv.2, List.forall_mem_singleton.mpr hw.2⟩)⟩
  have hlist {v : Value} (hv : v.Keyed ∧ v.Whole) :
      (Value.list [v]).Keyed ∧ (Value.list [v]).Whole :=
    ⟨.list (List.forall_mem_singleton.mpr hv.1), .list (List.forall_mem_singleton.mpr hv.2)⟩
  have hint : (Value.int 0).Keyed ∧ (Value.int 0).Whole :=
    ⟨.int, .number (n := 0) rfl (by decide)⟩
  have hdouble (s : Bool) :
      (Value.double (.finite s 0 Double.fits_zero)).Keyed ∧
        (Value.double (.finite s 0 Double.fits_zero)).Whole := by
    refine ⟨.double, .number (n := 0) ?_ (by decide)⟩
    have h : (Double.finite s 0 Double.fits_zero).whole? = some 0 := by
      rw [Double.whole?_finite, if_pos (Nat.dvd_zero _), Nat.zero_div]
      cases s <;> rfl
    exact h
  have hminus := hpair (k := "b") (l := "a") (by decide) hint (hlist (hdouble true))
  have hzero := hpair (k := "a") (l := "b") (by decide) (hlist hint) (hdouble false)
  obtain ⟨b, c, hb, hc, h⟩ := jsonBytes_canonical hminus.1 hzero.1 hminus.2 hzero.2
  have hequal : Eval.binary .equal minusZeroListed zeroListed = .ok (.bool true) := by
    have h : minusZeroListed.equal zeroListed = true := by decide +kernel
    exact congrArg (Except.ok ∘ Value.bool) h
  cases h.mp hequal
  exact ⟨b, hb, hc⟩

end EventStream
