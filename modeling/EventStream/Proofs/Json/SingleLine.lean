import EventStream.Expr.Program
import EventStream.Payload
import EventStream.Proofs.Json.Writing

namespace EventStream

/-- No byte is a control character. -/
abbrev Bytes.Graphic (b : Bytes) : Prop :=
  ∀ x ∈ b, 0x20 ≤ x.toNat

/-- Between the controls and what takes more than a byte. -/
abbrev IsAsciiGraphic (c : Char) : Prop :=
  0x20 ≤ c.toNat ∧ c.toNat < 0x80

section
variable {a b : Bytes} {s t : List Char} {ds : List Char} {c : Char}

theorem Bytes.Graphic.append (ha : a.Graphic) (hb : b.Graphic) : Bytes.Graphic (a ++ b) :=
  fun x hx => (List.mem_append.mp hx).elim (ha x) (hb x)

theorem Bytes.Graphic.cons {x : UInt8} (hx : 0x20 ≤ x.toNat) (hb : b.Graphic) :
    Bytes.Graphic (x :: b) :=
  List.forall_mem_cons.mpr ⟨hx, hb⟩

theorem Bytes.Graphic.enclosed {first last : UInt8} (hf : 0x20 ≤ first.toNat)
    (hb : b.Graphic) (hl : 0x20 ≤ last.toNat) : Bytes.Graphic (first :: b ++ [last]) :=
  (hb.cons hf).append (.cons hl (List.forall_mem_nil _))

theorem Bytes.Graphic.lineFeed_not_mem (hb : b.Graphic) : Bytes.lineFeed ∉ b :=
  fun h => absurd (hb _ h) (by decide)

theorem isAsciiGraphic_of_isDigit (h : c.isDigit = true) : IsAsciiGraphic c := by
  have := Json.char_isDigit_iff.mp h
  exact ⟨by omega, by omega⟩

theorem graphic_append (hs : ∀ c ∈ s, IsAsciiGraphic c) (ht : ∀ c ∈ t, IsAsciiGraphic c) :
    ∀ c ∈ s ++ t, IsAsciiGraphic c :=
  fun c hc => (List.mem_append.mp hc).elim (hs c) (ht c)

theorem graphic_digitsOf (n : Nat) : ∀ c ∈ digitsOf n, IsAsciiGraphic c :=
  fun c hc => isAsciiGraphic_of_isDigit ((Json.isDigits_digitsOf n).2 c hc)

theorem graphic_zeros (n : Nat) : ∀ c ∈ List.replicate n '0', IsAsciiGraphic c :=
  fun _ hc => isAsciiGraphic_of_isDigit (Json.isDigit_of_mem_zeros hc)

namespace NumberFormat

theorem graphic_positional (pointed : Bool) (hd : ∀ c ∈ ds, IsAsciiGraphic c) (e : Int) :
    ∀ c ∈ positional pointed ds e, IsAsciiGraphic c := by
  have hpoint : ∀ c ∈ (if pointed then ['.', '0'] else []), IsAsciiGraphic c := by
    cases pointed <;> simp [IsAsciiGraphic]
  unfold positional
  simp only
  split
  next => exact graphic_append (graphic_append hd (graphic_zeros _)) hpoint
  next =>
    split
    next =>
      refine graphic_append (fun c hc => hd c (List.mem_of_mem_take hc)) ?_
      exact List.forall_mem_cons.mpr ⟨by decide, fun c hc => hd c (List.mem_of_mem_drop hc)⟩
    next =>
      refine List.forall_mem_cons.mpr ⟨by decide, List.forall_mem_cons.mpr ⟨by decide, ?_⟩⟩
      exact graphic_append (graphic_zeros _) hd

theorem graphic_scientific (hd : ∀ c ∈ ds, IsAsciiGraphic c) (e : Int) :
    ∀ c ∈ scientific ds e, IsAsciiGraphic c := by
  have htail : ∀ c ∈ ds.drop 1, IsAsciiGraphic c := fun c hc => hd c (List.mem_of_mem_drop hc)
  unfold scientific
  simp only
  refine graphic_append (graphic_append (fun c hc => hd c (List.mem_of_mem_take hc)) ?_) ?_
  · split
    next => exact List.forall_mem_nil _
    next => exact List.forall_mem_cons.mpr ⟨by decide, htail⟩
  · refine List.forall_mem_cons.mpr ⟨by decide, List.forall_mem_cons.mpr ⟨?_, graphic_digitsOf _⟩⟩
    split <;> decide

theorem graphic_decimal (f : NumberFormat) (d : Decimal) :
    ∀ c ∈ f.decimal d, IsAsciiGraphic c := by
  unfold decimal
  simp only
  cases f.places with
  | none => exact graphic_positional _ (graphic_digitsOf _) _
  | some bounds =>
    simp only
    split
    next => exact graphic_positional _ (graphic_digitsOf _) _
    next => exact graphic_scientific (graphic_digitsOf _) _

theorem graphic_write (f : NumberFormat) (d : Double) : ∀ c ∈ f.write d, IsAsciiGraphic c := by
  have hsign (s : Bool) : ∀ c ∈ (if s then ['-'] else []), IsAsciiGraphic c := by
    cases s <;> simp [IsAsciiGraphic]
  cases d with
  | nan => simp [write, IsAsciiGraphic]
  | infinity s => exact graphic_append (hsign s) (by simp [IsAsciiGraphic])
  | finite s u h => exact graphic_append (hsign s) (f.graphic_decimal _)

end NumberFormat

namespace Json

theorem graphic_ascii (h : ∀ c ∈ s, IsAsciiGraphic c) : (ascii s).Graphic := by
  intro x hx
  obtain ⟨c, hc, rfl⟩ := List.mem_map.mp hx
  obtain ⟨hlow, hhigh⟩ := h c hc
  rwa [toNat_toUInt8 (by omega)]

theorem graphic_charBytes (h : 0x20 ≤ c.toNat) : (charBytes c).Graphic := by
  intro x hx
  by_cases hslash : c = '\\'
  · subst hslash
    obtain rfl : x = 0x5C := by simpa [charBytes, String.utf8EncodeChar] using hx
    decide
  · by_cases hquote : c = '"'
    · subst hquote
      obtain rfl : x = 0x22 := by simpa [charBytes, String.utf8EncodeChar] using hx
      decide
    · have hplain := isPlain_of_mem_charBytes h hslash hquote hx
      simp only [isPlain, Bool.and_eq_true, decide_eq_true_eq] at hplain
      exact UInt8.le_iff_toNat_le.mp hplain.1.1

theorem graphic_escapeChar (c : Char) : ∀ d ∈ escapeChar c, 0x20 ≤ d.toNat := by
  have hhex : ∀ n < 16, 0x20 ≤ (hexDigit n).toNat := by decide
  unfold escapeChar
  split_ifs with hquote hslash hn hr ht hb hf hlt
  all_goals simp
  · exact ⟨hhex _ (by omega), hhex _ (by omega)⟩
  · exact Nat.not_lt.mp hlt

theorem graphic_quoted (s : String) : (quoted s).Graphic := by
  refine .enclosed (by decide) (fun x hx => ?_) (by decide)
  obtain ⟨c, _, hx⟩ := List.mem_flatMap.mp hx
  obtain ⟨d, hd, hx⟩ := List.mem_flatMap.mp hx
  exact graphic_charBytes (graphic_escapeChar c d hd) x hx

theorem mem_commaSeparated {bs : List Bytes} {x : UInt8} (h : x ∈ commaSeparated bs) :
    x = 0x2C ∨ ∃ b ∈ bs, x ∈ b := by
  induction bs with
  | nil => cases h
  | cons b r ih =>
    cases r with
    | nil => exact .inr ⟨b, List.mem_singleton_self b, h⟩
    | cons c r =>
      change x ∈ b ++ 0x2C :: commaSeparated (c :: r) at h
      rcases List.mem_append.mp h with h | h
      · exact .inr ⟨b, List.mem_cons_self, h⟩
      · rcases List.mem_cons.mp h with h | h
        · exact .inl h
        · exact (ih h).imp_right fun ⟨b, hb, hx⟩ => ⟨b, List.mem_cons_of_mem _ hb, hx⟩

theorem graphic_commaSeparated {bs : List Bytes} (h : ∀ b ∈ bs, b.Graphic) :
    (commaSeparated bs).Graphic := by
  intro x hx
  rcases mem_commaSeparated hx with rfl | ⟨b, hb, hx⟩
  · decide
  · exact h b hb x hx

theorem graphic_integerText (n : Int) : ∀ c ∈ integerText n, IsAsciiGraphic c := by
  unfold integerText
  split
  next => exact List.forall_mem_cons.mpr ⟨by decide, graphic_digitsOf _⟩
  next => exact graphic_digitsOf _

mutual

theorem graphic_write : ∀ j : Json, j.write.Graphic
  | .null => graphic_ascii (by simp [IsAsciiGraphic])
  | .bool true => graphic_ascii (by simp [IsAsciiGraphic])
  | .bool false => graphic_ascii (by simp [IsAsciiGraphic])
  | .integer n => graphic_ascii (graphic_integerText n)
  | .double d => graphic_ascii (numberFormat.graphic_write d)
  | .string s => graphic_quoted s
  | .array items =>
    .enclosed (by decide) (graphic_commaSeparated (graphic_writeItems items)) (by decide)
  | .object entries =>
    .enclosed (by decide) (graphic_commaSeparated (graphic_writeEntries entries)) (by decide)

theorem graphic_writeItems : ∀ items : List Json, ∀ b ∈ writeItems items, b.Graphic
  | [] => List.forall_mem_nil _
  | j :: r => List.forall_mem_cons.mpr ⟨graphic_write j, graphic_writeItems r⟩

theorem graphic_writeEntries : ∀ entries : List (String × Json),
    ∀ b ∈ writeEntries entries, b.Graphic
  | [] => List.forall_mem_nil _
  | (k, j) :: r => List.forall_mem_cons.mpr
    ⟨(graphic_quoted k).append (.cons (by decide) (graphic_write j)), graphic_writeEntries r⟩

end

end Json

/-- A line feed between brackets is in one of the items. -/
theorem lineFeed_mem_enclosed {items : List Bytes} {first last : UInt8}
    (h : Bytes.lineFeed ∈ first :: Json.commaSeparated items ++ [last])
    (hf : Bytes.lineFeed ≠ first) (hl : Bytes.lineFeed ≠ last) :
    ∃ b ∈ items, Bytes.lineFeed ∈ b := by
  rcases List.mem_append.mp h with h | h
  · exact (Json.mem_commaSeparated ((List.mem_cons.mp h).resolve_left hf)).resolve_left nofun
  · exact absurd (List.mem_singleton.mp h) hl

theorem lineFeed_mem_jsonArray {items : List Bytes} (h : Bytes.lineFeed ∈ jsonArray items) :
    ∃ b ∈ items, Bytes.lineFeed ∈ b :=
  lineFeed_mem_enclosed h (by decide) (by decide)

theorem lineFeed_mem_pairObject {first second : String}
    (h : Bytes.lineFeed ∈ pairObject first a second b) :
    Bytes.lineFeed ∈ a ∨ Bytes.lineFeed ∈ b := by
  have hentry {key : String} {b : Bytes} (h : Bytes.lineFeed ∈ Json.quoted key ++ 0x3A :: b) :
      Bytes.lineFeed ∈ b := by
    rcases List.mem_append.mp h with h | h
    · exact absurd h (Json.graphic_quoted key).lineFeed_not_mem
    · exact (List.mem_cons.mp h).resolve_left nofun
  obtain ⟨entry, hentries, h⟩ := lineFeed_mem_enclosed h (by decide) (by decide)
  rcases List.mem_cons.mp hentries with rfl | hentries
  · exact .inl (hentry h)
  · rw [List.mem_singleton.mp hentries] at h
    exact .inr (hentry h)

theorem lineFeed_not_mem_jsonBytes {v : Value} (h : v.jsonBytes = .ok b) :
    Bytes.lineFeed ∉ b := by
  unfold Value.jsonBytes at h
  split at h
  next j _ => exact Except.ok.inj h ▸ (Json.graphic_write j).lineFeed_not_mem
  next => cases h

end

end EventStream
