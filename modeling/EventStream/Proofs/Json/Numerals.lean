import EventStream.Proofs.Json.Strings

namespace EventStream.Json

def IsDigits (cs : List Char) : Prop :=
  cs ≠ [] ∧ ∀ c ∈ cs, c.isDigit = true

inductive FractionText : Option (List Char) → List Char → Prop
  | absent : FractionText none []
  | present {ds} : IsDigits ds → FractionText (some ds) ('.' :: ds)

inductive SignText : Bool → List Char → Prop
  | absent : SignText false []
  | plus : SignText false ['+']
  | minus : SignText true ['-']

def withSign (negative : Bool) (ds : List Char) : Int :=
  if negative then -(ofDigits ds : Int) else ofDigits ds

inductive ExponentText : Option Int → List Char → Prop
  | absent : ExponentText none []
  | present {mark negative sign ds} : mark = 'e' ∨ mark = 'E' → SignText negative sign →
      IsDigits ds →
      ExponentText (some (withSign negative ds)) (mark :: (sign ++ ds))

inductive NumeralText : Numeral → List Char → Prop
  | intro {negative whole fraction f exponent e} : IsDigits whole →
      ¬(whole.head? = some '0' ∧ 1 < whole.length) → FractionText fraction f →
      ExponentText exponent e →
      NumeralText ⟨negative, whole, fraction, exponent⟩
        ((if negative then ['-'] else []) ++ (whole ++ (f ++ e)))

section
variable {ds s : List Char} {t b rest : Bytes}

theorem ascii_append (s t : List Char) : ascii (s ++ t) = ascii s ++ ascii t :=
  List.map_append

theorem takeWhile_ascii (hd : ∀ c ∈ ds, c.isDigit = true) (ht : ∀ b ∈ t.head?, isDigit b = false) :
    (ascii ds ++ t).takeWhile isDigit = ascii ds ∧ (ascii ds ++ t).dropWhile isDigit = t := by
  have hall : ∀ b ∈ ascii ds, isDigit b = true := by
    intro b hb
    obtain ⟨c, hc, rfl⟩ := List.mem_map.mp hb
    exact isDigit_toUInt8 (hd c hc)
  rw [List.takeWhile_append_of_pos hall, List.dropWhile_append_of_pos hall]
  cases t with
  | nil => simp
  | cons b t => simp [ht b rfl]

theorem digits_ascii (hd : ∀ c ∈ ds, c.isDigit = true) (ht : ∀ b ∈ t.head?, isDigit b = false) :
    digits (ascii ds ++ t) = ds := by
  rw [digits, (takeWhile_ascii hd ht).1, ascii, List.map_map]
  exact (List.map_congr_left fun c hc => charOf_toUInt8_of_isDigit (hd c hc)).trans (List.map_id ds)

/-- The digits at the front of a text, and what follows them. -/
theorem digits_split (b : Bytes) :
    b = ascii (digits b) ++ b.dropWhile isDigit ∧ (∀ c ∈ digits b, c.isDigit = true) := by
  constructor
  · have h : ascii (digits b) = b.takeWhile isDigit := by
      rw [ascii, digits, List.map_map]
      exact (List.map_congr_left fun x _ => toUInt8_charOf x).trans (List.map_id _)
    rw [h, List.takeWhile_append_dropWhile]
  · intro c hc
    obtain ⟨x, hx, rfl⟩ := List.mem_map.mp hc
    rw [isDigit_charOf]
    exact List.mem_takeWhile_imp hx

theorem fractionPart_reads {f : Option (List Char)} (h : FractionText f s)
    (ht : ∀ b ∈ t.head?, isDigit b = false ∧ b ≠ 0x2E) :
    fractionPart (ascii s ++ t) = some (f, t) := by
  cases h with
  | absent =>
    apply fractionPart.eq_2
    intro r h
    exact (ht 0x2E (by rw [show t = 0x2E :: r from h]; rfl)).2 rfl
  | @present ds hd =>
    have ht' : ∀ b ∈ t.head?, isDigit b = false := fun b hb => (ht b hb).1
    change fractionPart (0x2E :: (ascii ds ++ t)) = _
    rw [fractionPart, digits_ascii hd.2 ht', if_neg hd.1, (takeWhile_ascii hd.2 ht').2]

theorem fractionPart_text {f : Option (List Char)} (h : fractionPart b = some (f, rest)) :
    ∃ s, b = ascii s ++ rest ∧ FractionText f s := by
  unfold fractionPart at h
  split at h
  next r =>
    split at h
    next => cases h
    next hne =>
      cases h
      obtain ⟨hr, hd⟩ := digits_split r
      refine ⟨'.' :: digits r, ?_, .present ⟨hne, hd⟩⟩
      conv_lhs => rw [hr]
      rfl
  next =>
    cases h
    exact ⟨[], rfl, .absent⟩

theorem exponentDigits_reads {negative : Bool} (hd : IsDigits ds)
    (ht : ∀ b ∈ t.head?, isDigit b = false) :
    exponentDigits negative (ascii ds ++ t) =
      some (some (withSign negative ds), t) := by
  rw [exponentDigits, digits_ascii hd.2 ht, if_neg hd.1, (takeWhile_ascii hd.2 ht).2, withSign]

theorem exponentDigits_text {negative : Bool} {e : Option Int}
    (h : exponentDigits negative b = some (e, rest)) :
    ∃ ds, b = ascii ds ++ rest ∧ IsDigits ds ∧
      e = some (withSign negative ds) := by
  unfold exponentDigits at h
  split at h
  next => cases h
  next hne =>
    cases h
    obtain ⟨hb, hd⟩ := digits_split b
    exact ⟨digits b, hb, ⟨hne, hd⟩, rfl⟩

theorem exponentSign_reads {negative : Bool} (hs : SignText negative s) (hd : IsDigits ds)
    (ht : ∀ b ∈ t.head?, isDigit b = false) :
    exponentSign (ascii (s ++ ds) ++ t) =
      some (some (withSign negative ds), t) := by
  cases hs with
  | absent =>
    obtain ⟨c, cs, rfl⟩ := List.exists_cons_of_ne_nil hd.1
    have hc : isDigit c.toUInt8 = true := isDigit_toUInt8 (hd.2 c List.mem_cons_self)
    rw [← exponentDigits_reads hd ht]
    apply exponentSign.eq_3
    all_goals
      intro r h
      injection h with h _
      rw [h] at hc
      exact absurd hc (by decide)
  | plus => exact exponentDigits_reads hd ht
  | minus => exact exponentDigits_reads hd ht

theorem exponentSign_text {e : Option Int} (h : exponentSign b = some (e, rest)) :
    ∃ negative s ds, b = ascii (s ++ ds) ++ rest ∧ SignText negative s ∧ IsDigits ds ∧
      e = some (withSign negative ds) := by
  unfold exponentSign at h
  split at h
  next r =>
    obtain ⟨ds, rfl, hd, he⟩ := exponentDigits_text h
    exact ⟨true, ['-'], ds, rfl, .minus, hd, he⟩
  next r =>
    obtain ⟨ds, rfl, hd, he⟩ := exponentDigits_text h
    exact ⟨false, ['+'], ds, rfl, .plus, hd, he⟩
  next =>
    obtain ⟨ds, rfl, hd, he⟩ := exponentDigits_text h
    exact ⟨false, [], ds, rfl, .absent, hd, he⟩

theorem exponentMark_reads {e : Option Int} (h : ExponentText e s) (ht : Ends t) :
    exponentMark (ascii s ++ t) = some (e, t) := by
  have hdigit : ∀ b ∈ t.head?, isDigit b = false := fun b hb => by
    have := ht b hb
    simp only [goesOn, Bool.or_eq_false_iff] at this
    exact this.1.1.1
  cases h with
  | absent =>
    apply exponentMark.eq_3
    all_goals
      intro r h
      exact absurd (ht _ (by rw [show t = _ :: r from h]; rfl)) (by decide)
  | present hm hs hd =>
    rcases hm with rfl | rfl
    all_goals exact exponentSign_reads hs hd hdigit

theorem exponentMark_text {e : Option Int} (h : exponentMark b = some (e, rest)) :
    ∃ s, b = ascii s ++ rest ∧ ExponentText e s := by
  unfold exponentMark at h
  split at h
  next r =>
    obtain ⟨_, s, ds, rfl, hs, hd, rfl⟩ := exponentSign_text h
    exact ⟨'e' :: (s ++ ds), rfl, .present (.inl rfl) hs hd⟩
  next r =>
    obtain ⟨_, s, ds, rfl, hs, hd, rfl⟩ := exponentSign_text h
    exact ⟨'E' :: (s ++ ds), rfl, .present (.inr rfl) hs hd⟩
  next =>
    cases h
    exact ⟨[], rfl, .absent⟩

end
end EventStream.Json
namespace EventStream.Json
section
variable {ds s : List Char} {t b rest : Bytes}

theorem unsignedNumeral_reads {negative : Bool} {whole f e : List Char}
    {fraction : Option (List Char)} {exponent : Option Int} (hw : IsDigits whole)
    (hz : ¬(whole.head? = some '0' ∧ 1 < whole.length)) (hf : FractionText fraction f)
    (he : ExponentText exponent e) (ht : Ends t) :
    unsignedNumeral negative (ascii (whole ++ (f ++ e)) ++ t) =
      some (⟨negative, whole, fraction, exponent⟩, t) := by
  have hend : ∀ b ∈ (ascii e ++ t).head?, isDigit b = false ∧ b ≠ 0x2E := by
    cases he with
    | absent =>
      intro b hb
      have := ht b hb
      simp only [goesOn, Bool.or_eq_false_iff, beq_eq_false_iff_ne] at this
      exact ⟨this.1.1.1, this.1.1.2⟩
    | present hm => rcases hm with rfl | rfl <;> simp [ascii] <;> decide
  have hdigit : ∀ b ∈ (ascii f ++ (ascii e ++ t)).head?, isDigit b = false := by
    cases hf with
    | absent => exact fun b hb => (hend b hb).1
    | present => simp [ascii]; decide
  rw [ascii_append, ascii_append, List.append_assoc, List.append_assoc]
  unfold unsignedNumeral
  simp only [digits_ascii hw.2 hdigit, (takeWhile_ascii hw.2 hdigit).2, hw.1, hz, false_or,
    if_false]
  rw [fractionPart_reads hf hend]
  simp only [Option.bind_eq_bind, Option.bind_some]
  rw [exponentMark_reads he ht]
  rfl

theorem numeral_reads {n : Numeral} (h : NumeralText n s) (ht : Ends t) :
    numeral (ascii s ++ t) = some (n, t) := by
  cases h with
  | @intro negative whole fraction f exponent e hw hz hf he =>
    cases negative with
    | true => exact unsignedNumeral_reads hw hz hf he ht
    | false =>
      rw [← unsignedNumeral_reads hw hz hf he ht]
      apply numeral.eq_2
      intro r h
      obtain ⟨c, cs, rfl⟩ := List.exists_cons_of_ne_nil hw.1
      injection h with h _
      have hc : isDigit c.toUInt8 = true := isDigit_toUInt8 (hw.2 c List.mem_cons_self)
      rw [h] at hc
      exact absurd hc (by decide)

theorem unsignedNumeral_text {negative : Bool} {n : Numeral}
    (h : unsignedNumeral negative b = some (n, rest)) :
    ∃ s, b = ascii s ++ rest ∧ NumeralText n ((if negative then ['-'] else []) ++ s) := by
  unfold unsignedNumeral at h
  simp only at h
  split at h
  next => cases h
  next hz =>
    rw [not_or] at hz
    obtain ⟨⟨fraction, r⟩, hfraction, h⟩ := Option.bind_eq_some_iff.mp h
    obtain ⟨⟨exponent, r'⟩, hexponent, h⟩ := Option.bind_eq_some_iff.mp h
    cases h
    obtain ⟨hb, hd⟩ := digits_split b
    obtain ⟨f, hfb, hf⟩ := fractionPart_text hfraction
    obtain ⟨e, rfl, he⟩ := exponentMark_text hexponent
    refine ⟨digits b ++ (f ++ e), ?_, .intro ⟨hz.1, hd⟩ hz.2 hf he⟩
    conv_lhs => rw [hb, hfb]
    simp [ascii_append]

theorem numeral_text {n : Numeral} (h : numeral b = some (n, rest)) :
    ∃ s, b = ascii s ++ rest ∧ NumeralText n s := by
  unfold numeral at h
  split at h
  next r =>
    obtain ⟨s, rfl, hs⟩ := unsignedNumeral_text h
    exact ⟨'-' :: s, rfl, hs⟩
  next => exact unsignedNumeral_text h

theorem IsDigits.mem {c : Char} (h : IsDigits ds) (hc : c ∈ ds) :
    c.isDigit = true ∨ c ∈ ['-', '+', '.', 'e', 'E'] :=
  .inl (h.2 c hc)

theorem NumeralText.mem {n : Numeral} {c : Char} (h : NumeralText n s) (hc : c ∈ s) :
    c.isDigit = true ∨ c ∈ ['-', '+', '.', 'e', 'E'] := by
  cases h with
  | @intro negative whole fraction f exponent e hw _ hf he =>
    simp only [List.mem_append] at hc
    rcases hc with hc | hc | hc | hc
    · cases negative <;> simp_all
    · exact hw.mem hc
    · cases hf with
      | absent => cases hc
      | present hd =>
        rcases List.mem_cons.mp hc with rfl | hc
        · exact .inr (by decide)
        · exact hd.mem hc
    · cases he with
      | absent => cases hc
      | present hm hs hd =>
        rcases List.mem_cons.mp hc with rfl | hc
        · rcases hm with rfl | rfl <;> exact .inr (by decide)
        · rcases List.mem_append.mp hc with hc | hc
          · cases hs <;> simp_all
          · exact hd.mem hc

theorem NumeralText.head {n : Numeral} (h : NumeralText n s) :
    ∃ c cs, s = c :: cs ∧ (c.isDigit = true ∨ c = '-') := by
  cases h with
  | @intro negative whole fraction f exponent e hw _ hf he =>
    obtain ⟨c, cs, rfl⟩ := List.exists_cons_of_ne_nil hw.1
    cases negative with
    | true => exact ⟨_, _, rfl, .inr rfl⟩
    | false => exact ⟨_, _, rfl, .inl (hw.2 c List.mem_cons_self)⟩

theorem isDigit_apart {b : UInt8} (h : isDigit b = true) :
    isSpace b = false ∧ isBracket b = false ∧ b ≠ 0x22 ∧ b ≠ 0x6E ∧ b ≠ 0x74 ∧ b ≠ 0x66 := by
  rw [isDigit_iff] at h
  simp only [isSpace, isBracket, Bool.or_eq_false_iff, beq_eq_false_iff_ne]
  refine ⟨⟨⟨⟨?_, ?_⟩, ?_⟩, ?_⟩, ⟨⟨⟨?_, ?_⟩, ?_⟩, ?_⟩, ?_, ?_, ?_, ?_⟩
  all_goals
    rintro rfl
    revert h
    decide

theorem NumeralText.nests {n : Numeral} (h : NumeralText n s) : Nests 0 (ascii s) := by
  apply nests_of_isCalm
  intro b hb
  obtain ⟨c, hc, rfl⟩ := List.mem_map.mp hb
  rcases h.mem hc with hd | hc
  · obtain ⟨_, hb, hq, _⟩ := isDigit_apart (isDigit_toUInt8 hd)
    simp [isCalm, hb, hq]
  · simp only [List.mem_cons, List.not_mem_nil, or_false] at hc
    rcases hc with rfl | rfl | rfl | rfl | rfl <;> rfl

theorem NumeralText.begins {n : Numeral} (h : NumeralText n s) :
    ∃ b t, ascii s = b :: t ∧ isSpace b = false ∧ isBracket b = false ∧
      b ≠ 0x22 ∧ b ≠ 0x6E ∧ b ≠ 0x74 ∧ b ≠ 0x66 := by
  obtain ⟨c, cs, rfl, hc⟩ := h.head
  refine ⟨c.toUInt8, ascii cs, rfl, ?_⟩
  rcases hc with hd | rfl
  · exact isDigit_apart (isDigit_toUInt8 hd)
  · decide

theorem scalar_of_numeralText {n : Numeral} {j : Json} (h : NumeralText n s)
    (hj : n.json? = some j) : IsAtom scalar (ascii s) j := by
  obtain ⟨b, r, hs, hspace, hbracket, hq, hn, ht, hf⟩ := h.begins
  refine ⟨⟨b, r, hs, hspace, hbracket⟩, h.nests, fun t hends => ?_⟩
  have hnum := numeral_reads h hends
  rw [hs] at hnum ⊢
  rw [List.cons_append] at hnum ⊢
  rw [scalar, hnum]
  · simp [hj]
  all_goals
    intro _ h
    injection h with h _
    contradiction

theorem named_eq_some {w : Bytes} {j x : Json} (h : named w j b = some (x, rest)) :
    b = w ++ rest ∧ x = j := by
  unfold named word at h
  split at h
  next hp =>
    obtain ⟨r, rfl⟩ := List.isPrefixOf_iff_prefix.mp hp
    rw [List.drop_left] at h
    cases h
    exact ⟨rfl, rfl⟩
  next => cases h

theorem scalar_of_word {w : Bytes} {j : Json}
    (hw : ∃ b t, w = b :: t ∧ isSpace b = false ∧ isBracket b = false)
    (hc : w.all isCalm = true) (hr : ∀ t, scalar (w ++ t) = named w j (w ++ t)) :
    IsAtom scalar w j where
  begins := hw
  nests := nests_of_isCalm (List.all_eq_true.mp hc)
  reads t _ := by
    rw [hr]
    simp [named, word]

theorem scalar_of_quotedText {x : String} {r : Bytes} (h : IsAtom quotedText (0x22 :: r) x) :
    IsAtom scalar (0x22 :: r) (.string x) where
  begins := h.begins
  nests := h.nests
  reads t ht := by
    change (quotedText (0x22 :: r ++ t)).map _ = _
    rw [h.reads t ht]
    rfl

theorem null_atom : IsAtom scalar [0x6E, 0x75, 0x6C, 0x6C] .null :=
  scalar_of_word ⟨_, _, rfl, rfl, rfl⟩ rfl fun _ => rfl

theorem true_atom : IsAtom scalar [0x74, 0x72, 0x75, 0x65] (.bool true) :=
  scalar_of_word ⟨_, _, rfl, rfl, rfl⟩ rfl fun _ => rfl

theorem false_atom : IsAtom scalar [0x66, 0x61, 0x6C, 0x73, 0x65] (.bool false) :=
  scalar_of_word ⟨_, _, rfl, rfl, rfl⟩ rfl fun _ => rfl

theorem scalar_local : IsLocal scalar := by
  intro b x rest h
  unfold scalar at h
  split at h
  next r =>
    obtain ⟨⟨str, _⟩, hq, hx⟩ := Option.map_eq_some_iff.mp h
    cases hx
    obtain ⟨s, hb, ha⟩ := quotedText_local _ _ _ hq
    obtain ⟨c, s, rfl, _⟩ := ha.begins
    cases hb
    exact ⟨_, rfl, scalar_of_quotedText ha⟩
  next =>
    obtain ⟨hb, rfl⟩ := named_eq_some h
    exact ⟨_, hb, null_atom⟩
  next =>
    obtain ⟨hb, rfl⟩ := named_eq_some h
    exact ⟨_, hb, true_atom⟩
  next =>
    obtain ⟨hb, rfl⟩ := named_eq_some h
    exact ⟨_, hb, false_atom⟩
  next =>
    obtain ⟨⟨n, r⟩, hn, hx⟩ := Option.bind_eq_some_iff.mp h
    obtain ⟨j, hj, hx⟩ := Option.map_eq_some_iff.mp hx
    cases hx
    obtain ⟨s, rfl, hs⟩ := numeral_text hn
    exact ⟨ascii s, rfl, scalar_of_numeralText hs hj⟩

end

end EventStream.Json
