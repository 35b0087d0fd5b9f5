import EventStream.Proofs.Json.Strings
import EventStream.Text.Base64
import EventStream.Text.Blank

namespace EventStream.Base64

theorem valueOf?_symbolOf : ∀ v < 64, valueOf? (symbolOf v) = some v := by
  decide

theorem symbolOf_ne_pad : ∀ v < 64, symbolOf v ≠ pad := by
  decide

section
variable {v : Nat} {offset : Nat}

theorem value_symbolOf (h : v < 64) : value offset (symbolOf v) = .ok v := by
  rw [value, valueOf?_symbolOf v h]

theorem step_symbolOf (h : v < 64) (symbols : List (UInt8 × Nat)) :
    Group.step ⟨symbols, []⟩ offset (symbolOf v) = .ok ⟨symbols ++ [(symbolOf v, v)], []⟩ := by
  rw [Group.step, if_neg (symbolOf_ne_pad v h)]
  simp only [value_symbolOf h]
  rfl

theorem step_pad {symbols : List (UInt8 × Nat)} {padding : List Nat}
    (h : 2 ≤ symbols.length) :
    Group.step ⟨symbols, padding⟩ offset pad = .ok ⟨symbols, padding ++ [offset]⟩ := by
  rw [Group.step, if_pos rfl, if_neg (by simp only; omega)]

variable {a b c d : Nat}

theorem decodeLast_four (ha : a < 64) (hb : b < 64) (hc : c < 64) (hd : d < 64) :
    decodeLast offset [symbolOf a, symbolOf b, symbolOf c, symbolOf d] =
      .ok [UInt8.ofNat (a * 4 + b / 16), UInt8.ofNat (b % 16 * 16 + c / 4),
        UInt8.ofNat (c % 4 * 64 + d)] := by
  have hread : Group.read ⟨[], []⟩ offset [symbolOf a, symbolOf b, symbolOf c, symbolOf d] =
      .ok ⟨[(symbolOf a, a), (symbolOf b, b), (symbolOf c, c), (symbolOf d, d)], []⟩ := by
    simp only [Group.read, step_symbolOf ha, step_symbolOf hb, step_symbolOf hc, step_symbolOf hd,
      List.nil_append, List.cons_append]
  simp [decodeLast, hread, bind, Except.bind]

theorem decodeLast_three (ha : a < 64) (hb : b < 64) (hc : c < 64) (hz : c % 4 = 0) :
    decodeLast offset [symbolOf a, symbolOf b, symbolOf c, pad] =
      .ok [UInt8.ofNat (a * 4 + b / 16), UInt8.ofNat (b % 16 * 16 + c / 4)] := by
  have hread : Group.read ⟨[], []⟩ offset [symbolOf a, symbolOf b, symbolOf c, pad] =
      .ok ⟨[(symbolOf a, a), (symbolOf b, b), (symbolOf c, c)], [offset + 3]⟩ := by
    simp [Group.read, step_symbolOf ha, step_symbolOf hb, step_symbolOf hc, step_pad]
  simp [decodeLast, hread, bind, Except.bind, hz]

theorem decodeLast_two (ha : a < 64) (hb : b < 64) (hz : b % 16 = 0) :
    decodeLast offset [symbolOf a, symbolOf b, pad, pad] =
      .ok [UInt8.ofNat (a * 4 + b / 16)] := by
  have hread : Group.read ⟨[], []⟩ offset [symbolOf a, symbolOf b, pad, pad] =
      .ok ⟨[(symbolOf a, a), (symbolOf b, b)], [offset + 2, offset + 3]⟩ := by
    simp [Group.read, step_symbolOf ha, step_symbolOf hb, step_pad]
  simp [decodeLast, hread, bind, Except.bind, hz]

end

theorem ofNat_of_eq {n : Nat} {b : UInt8} (h : n = b.toNat) : UInt8.ofNat n = b := by
  rw [h, UInt8.ofNat_toNat]

theorem encode_ne_nil {b : Bytes} (h : b ≠ []) : encode b ≠ [] := by
  unfold encode
  split
  · exact absurd rfl h
  all_goals exact List.cons_ne_nil _ _

/-- A full group before others. -/
theorem decodeGroups_four {a b c d : Nat} (ha : a < 64) (hb : b < 64) (hc : c < 64) (hd : d < 64)
    {s : Bytes} (hs : s ≠ []) (done : Bytes) (offset : Nat) :
    decodeGroups done offset (symbolOf a :: symbolOf b :: symbolOf c :: symbolOf d :: s) =
      decodeGroups ([UInt8.ofNat (a * 4 + b / 16), UInt8.ofNat (b % 16 * 16 + c / 4),
        UInt8.ofNat (c % 4 * 64 + d)].reverse ++ done) (offset + 4) s := by
  obtain ⟨e, r, rfl⟩ := List.exists_cons_of_ne_nil hs
  rw [decodeGroups, value_symbolOf ha, value_symbolOf hb, value_symbolOf hc, value_symbolOf hd]
  rfl

theorem decodeGroups_encode {b : Bytes} (hb : b ≠ []) (done : Bytes) (offset : Nat) :
    decodeGroups done offset (encode b) = .ok (done.reverse ++ b) := by
  induction b using encode.induct generalizing done offset with
  | case1 => exact absurd rfl hb
  | case2 x =>
    have hx := x.toNat_lt
    simp only [encode]
    rw [decodeGroups.eq_2 _ _ _ (by simp), decodeLast_two (by omega) (by omega) (by omega)]
    rw [ofNat_of_eq (b := x) (by omega)]
    rfl
  | case3 x y =>
    have hx := x.toNat_lt
    have hy := y.toNat_lt
    simp only [encode]
    rw [decodeGroups.eq_2 _ _ _ (by simp), decodeLast_three (by omega) (by omega) (by omega)
      (by omega), ofNat_of_eq (b := x) (by omega), ofNat_of_eq (b := y) (by omega)]
    rfl
  | case4 x y z r ih =>
    have hx := x.toNat_lt
    have hy := y.toNat_lt
    have hz := z.toNat_lt
    simp only [encode]
    by_cases hr : r = []
    · subst hr
      rw [encode, decodeGroups.eq_2 _ _ _ (by simp), decodeLast_four (by omega) (by omega)
        (by omega) (by omega), ofNat_of_eq (b := x) (by omega), ofNat_of_eq (b := y) (by omega),
        ofNat_of_eq (b := z) (by omega)]
      rfl
    · rw [decodeGroups_four (by omega) (by omega) (by omega) (by omega) (encode_ne_nil hr),
        ofNat_of_eq (b := x) (by omega), ofNat_of_eq (b := y) (by omega),
        ofNat_of_eq (b := z) (by omega), ih hr]
      simp

theorem length_encode (b : Bytes) : (encode b).length % 4 = 0 := by
  induction b using encode.induct with
  | case1 | case2 | case3 => simp [encode]
  | case4 x y z r ih =>
    simp only [encode, List.length_cons]
    omega

/-- What is encoded is decoded to what it was. -/
theorem decode_encode (b : Bytes) : decode (encode b) = .ok b := by
  by_cases hb : b = []
  · subst hb
    rfl
  · have hlength := length_encode b
    obtain ⟨e, s, hs⟩ := List.exists_cons_of_ne_nil (encode_ne_nil hb)
    have hgroups := decodeGroups_encode hb [] 0
    obtain ⟨last, hlast⟩ : ∃ last, (e :: s).getLast? = some last :=
      ⟨_, List.getLast?_eq_some_getLast (List.cons_ne_nil e s)⟩
    rw [hs] at hlength hgroups ⊢
    unfold decode
    simp only [hlast]
    rw [if_neg (by omega), hgroups]
    rfl

/-- The signs that bytes are encoded with, as text. -/
def text (b : Bytes) : String :=
  String.ofList ((encode b).map Json.charOf)

theorem mem_encode {P : UInt8 → Prop} (hsymbol : ∀ v < 64, P (symbolOf v)) (hpad : P pad)
    (b : Bytes) : ∀ s ∈ encode b, P s := by
  induction b using encode.induct with
  | case1 => exact fun _ h => nomatch h
  | case2 x =>
    have hx := x.toNat_lt
    simp only [encode, List.forall_mem_cons]
    exact ⟨hsymbol _ (by omega), hsymbol _ (by omega), hpad, hpad, fun _ h => nomatch h⟩
  | case3 x y =>
    have hx := x.toNat_lt
    have hy := y.toNat_lt
    simp only [encode, List.forall_mem_cons]
    exact ⟨hsymbol _ (by omega), hsymbol _ (by omega), hsymbol _ (by omega), hpad,
      fun _ h => nomatch h⟩
  | case4 x y z r ih =>
    have hx := x.toNat_lt
    have hy := y.toNat_lt
    have hz := z.toNat_lt
    simp only [encode, List.forall_mem_cons]
    exact ⟨hsymbol _ (by omega), hsymbol _ (by omega), hsymbol _ (by omega), hsymbol _ (by omega),
      ih⟩

theorem ofString_text (b : Bytes) : Bytes.ofString (text b) = encode b := by
  have hbyte := mem_encode (P := fun s => Json.charBytes (Json.charOf s) = [s]) (by decide)
    (by decide) b
  rw [text, Json.ofString_eq, String.toList_ofList, List.flatMap_map]
  generalize encode b = signs at hbyte
  induction signs with
  | nil => rfl
  | cons s signs ih =>
    obtain ⟨hs, hrest⟩ := List.forall_mem_cons.mp hbyte
    rw [List.flatMap_cons, hs, ih hrest, List.singleton_append]

theorem trimmed_text (b : Bytes) : trimmed (text b) = text b := by
  have hblank := mem_encode (P := fun s => isBlank (Json.charOf s) = false) (by decide)
    (by decide) b
  have hmem : ∀ c ∈ (encode b).map Json.charOf, isBlank c = false := by
    simpa using hblank
  have htrim := trim_append (w := []) (v := []) (s := (encode b).map Json.charOf) (by simp)
    (by simp) (fun c hc => hmem c (List.mem_of_mem_head? hc))
    (fun c hc => hmem c (List.mem_of_getLast? hc))
  rw [List.nil_append, List.append_nil] at htrim
  rw [trimmed, text, String.toList_ofList, htrim]

theorem decode_text (b : Bytes) : decode (Bytes.ofString (trimmed (text b))) = .ok b := by
  rw [trimmed_text, ofString_text, decode_encode]

end EventStream.Base64
