import EventStream.Proofs.Json.Texts
import EventStream.Json.Writer

namespace EventStream.Json

section
variable {b : UInt8} {c : Char}

theorem toNat_charOf (b : UInt8) : (charOf b).toNat = b.toNat := by
  have hb := b.toNat_lt
  rw [charOf, Char.toNat_ofNat, if_pos (.inl (by omega))]

theorem toUInt8_charOf (b : UInt8) : (charOf b).toUInt8 = b := by
  apply UInt8.toNat_inj.mp
  rw [Char.toUInt8, UInt32.toNat_toUInt8]
  change (charOf b).toNat % 256 = _
  rw [toNat_charOf, Nat.mod_eq_of_lt b.toNat_lt]

theorem toNat_toUInt8 (h : c.toNat < 256) : c.toUInt8.toNat = c.toNat := by
  rw [Char.toUInt8, UInt32.toNat_toUInt8]
  exact Nat.mod_eq_of_lt h

theorem charOf_toUInt8 (h : c.toNat < 256) : charOf c.toUInt8 = c := by
  rw [charOf, toNat_toUInt8 h, Char.ofNat_toNat]

theorem isDigit_iff : isDigit b = true ↔ 48 ≤ b.toNat ∧ b.toNat ≤ 57 := by
  simp [isDigit, UInt8.le_iff_toNat_le]

theorem char_isDigit_iff : c.isDigit = true ↔ 48 ≤ c.toNat ∧ c.toNat ≤ 57 := by
  simp [Char.isDigit, UInt32.le_iff_toNat_le]

theorem isDigit_charOf : (charOf b).isDigit = isDigit b := by
  rw [Bool.eq_iff_iff, char_isDigit_iff, isDigit_iff, toNat_charOf]

theorem isDigit_toUInt8 (h : c.isDigit = true) : isDigit c.toUInt8 = true := by
  rw [char_isDigit_iff] at h
  rw [isDigit_iff, toNat_toUInt8 (by omega)]
  exact h

theorem charOf_toUInt8_of_isDigit (h : c.isDigit = true) : charOf c.toUInt8 = c := by
  rw [char_isDigit_iff] at h
  exact charOf_toUInt8 (by omega)

end

/-- The rest of a string with its closing quote. -/
def Closes (s : Bytes) : Prop :=
  ∀ opened most,
    s.foldl Scan.step ⟨opened, most, .inString⟩ = ⟨opened, most, .outside⟩

section
variable {s : Bytes} {b : UInt8}

theorem closes_quote : Closes [0x22] :=
  fun _ _ => rfl

theorem Closes.plain (hb : b ≠ 0x5C) (hq : b ≠ 0x22) (hs : Closes s) : Closes (b :: s) := by
  intro opened most
  rw [List.foldl_cons, ← hs opened most]
  simp [Scan.step, hb, hq]

theorem Closes.escape (c : UInt8) (hs : Closes s) : Closes (0x5C :: c :: s) :=
  hs

theorem Closes.nests (hs : Closes s) : Nests 0 (0x22 :: s) := by
  intro opened most h
  rw [Nat.add_zero, Nat.max_eq_left h]
  exact hs opened most

theorem plain_of_hexValue? {v : Nat} (h : hexValue? b = some v) : b ≠ 0x5C ∧ b ≠ 0x22 := by
  constructor
  all_goals
    rintro rfl
    revert h
    exact fun h => nomatch h

theorem Closes.unicode {u : Nat} {a b c d : UInt8} (h : hexUnit? a b c d = some u)
    (hs : Closes s) : Closes (0x5C :: 0x75 :: a :: b :: c :: d :: s) := by
  unfold hexUnit? at h
  obtain ⟨_, ha, h⟩ := Option.bind_eq_some_iff.mp h
  obtain ⟨_, hb, h⟩ := Option.bind_eq_some_iff.mp h
  obtain ⟨_, hc, h⟩ := Option.bind_eq_some_iff.mp h
  obtain ⟨_, hd, _⟩ := Option.bind_eq_some_iff.mp h
  have step : ∀ {b : UInt8} {v : Nat} {s : Bytes}, hexValue? b = some v → Closes s →
      Closes (b :: s) :=
    fun h hs => hs.plain (plain_of_hexValue? h).1 (plain_of_hexValue? h).2
  exact (step ha (step hb (step hc (step hd hs)))).escape 0x75

end

theorem escaped?_ne_unicode {c b : UInt8} (h : escaped? c = some b) : c ≠ 0x75 := by
  rintro rfl
  exact nomatch h

/-- A string ends at its closing quote, whatever follows it. -/
theorem stringBody_local {high : Option Nat} {done b body rest : Bytes}
    (h : stringBody high done b = some (body, rest)) :
    ∃ s, b = s ++ rest ∧ Closes s ∧ ∀ t, stringBody high done (s ++ t) = some (body, t) := by
  fun_induction stringBody high done b with
  | case1 | case3 | case6 | case8 | case10 | case11 | case13 => cases h
  | case2 done a b c d r u hu hh ih =>
    obtain ⟨s, rfl, hs, ht⟩ := ih h
    exact ⟨0x5C :: 0x75 :: a :: b :: c :: d :: s, rfl, hs.unicode hu, fun t => by
      simp [stringBody, hu, hh, ht]⟩
  | case4 done a b c d r u hu hh hl ih =>
    obtain ⟨s, rfl, hs, ht⟩ := ih h
    exact ⟨0x5C :: 0x75 :: a :: b :: c :: d :: s, rfl, hs.unicode hu, fun t => by
      simp [stringBody, hu, hh, hl, ht]⟩
  | case5 done a b c d r u h' hu hl ih =>
    obtain ⟨s, rfl, hs, ht⟩ := ih h
    exact ⟨0x5C :: 0x75 :: a :: b :: c :: d :: s, rfl, hs.unicode hu, fun t => by
      simp [stringBody, hu, hl, ht]⟩
  | case7 done c r hc b hb ih =>
    obtain ⟨s, rfl, hs, ht⟩ := ih h
    refine ⟨0x5C :: c :: s, rfl, hs.escape c, fun t => ?_⟩
    rw [← ht t]
    exact stringBody.eq_4 done c (s ++ t) b (fun _ _ _ _ _ hu _ => escaped?_ne_unicode hb hu) hb
  | case9 high done r hn =>
    cases h
    exact ⟨[0x22], rfl, closes_quote, fun t => by simp [stringBody, hn]⟩
  | case12 high done b r _ hb hq hn ih =>
    obtain ⟨s, rfl, hs, ht⟩ := ih h
    have hslash : b ≠ 0x5C := by
      rintro rfl
      cases hr : s ++ rest with
      | nil => rw [hr] at h; cases h
      | cons c r => exact hb c r rfl hr
    refine ⟨b :: s, rfl, hs.plain hslash hq, fun t => ?_⟩
    rw [List.cons_append, stringBody]
    · rw [if_neg hn, ht t]
    · exact fun _ _ _ _ _ h => absurd h hslash
    · exact fun _ _ h => absurd h hslash
    · exact hq

theorem quotedText_local : IsLocal quotedText := by
  intro b x rest h
  unfold quotedText at h
  split at h
  next r =>
    obtain ⟨⟨body, r'⟩, hbody, h⟩ := Option.bind_eq_some_iff.mp h
    obtain ⟨text, htext, h⟩ := Option.bind_eq_some_iff.mp h
    cases h
    obtain ⟨s, rfl, hs, ht⟩ := stringBody_local hbody
    refine ⟨0x22 :: s, rfl, ⟨0x22, s, rfl, rfl, rfl⟩, hs.nests, fun t _ => ?_⟩
    change (stringBody none [] (s ++ t)).bind _ = _
    rw [ht t]
    change (Bytes.text? body).bind _ = _
    rw [htext]
    rfl
  next => cases h

theorem ofString_eq (s : String) : Bytes.ofString s = s.toList.flatMap charBytes := by
  rw [← List.toList_data_toByteArray (l := s.toList.flatMap charBytes)]
  exact congrArg (fun b : ByteArray => b.data.toList) String.utf8Encode_toList.symm

/-- A byte that stands for itself in a string. -/
def isPlain (b : UInt8) : Bool :=
  0x20 ≤ b && b != 0x5C && b != 0x22

theorem stringBody_plain {b : UInt8} (h : isPlain b = true) (done r : Bytes) :
    stringBody none done (b :: r) = stringBody none (b :: done) r := by
  simp only [isPlain, Bool.and_eq_true, decide_eq_true_eq, bne_iff_ne] at h
  obtain ⟨⟨hb, hslash⟩, hquote⟩ := h
  rw [stringBody]
  · simp [UInt8.not_lt.mpr hb]
  · exact fun _ _ _ _ _ h => absurd h hslash
  · exact fun _ _ h => absurd h hslash
  · exact hquote

theorem stringBody_plain_append {s : Bytes} (h : ∀ b ∈ s, isPlain b = true) (done r : Bytes) :
    stringBody none done (s ++ r) = stringBody none (s.reverse ++ done) r := by
  induction s generalizing done with
  | nil => rfl
  | cons b s ih =>
    rw [List.cons_append, stringBody_plain (h b List.mem_cons_self),
      ih fun c hc => h c (List.mem_cons_of_mem b hc)]
    simp

theorem isPlain_of_le {b : UInt8} (h : 0x80 ≤ b.toNat) : isPlain b = true := by
  simp only [isPlain, Bool.and_eq_true, decide_eq_true_eq, bne_iff_ne, UInt8.le_iff_toNat_le]
  refine ⟨⟨?_, ?_⟩, ?_⟩
  · change 32 ≤ b.toNat
    omega
  · rintro rfl
    exact absurd h (by decide)
  · rintro rfl
    exact absurd h (by decide)

theorem isPlain_of_mem_charBytes {c : Char} {b : UInt8} (hc : 0x20 ≤ c.toNat) (hslash : c ≠ '\\')
    (hquote : c ≠ '"') (hb : b ∈ charBytes c) : isPlain b = true := by
  unfold charBytes at hb
  revert hb
  fun_cases String.utf8EncodeChar
  case case1 v hv =>
    intro hb
    cases List.mem_singleton.mp hb
    have hv' : v = c.toNat := rfl
    have hnat : (UInt8.ofNat v).toNat = v := by
      rw [UInt8.toNat_ofNat']
      omega
    have hne : ∀ d : Char, c ≠ d → d.toNat < 256 → UInt8.ofNat v ≠ d.toUInt8 := by
      intro d hd hlt h
      have := congrArg UInt8.toNat h
      rw [hnat, toNat_toUInt8 hlt] at this
      exact hd (Char.toNat_inj.mp this)
    simp only [isPlain, Bool.and_eq_true, decide_eq_true_eq, bne_iff_ne, UInt8.le_iff_toNat_le,
      hnat]
    exact ⟨⟨hc, hne '\\' hslash (by decide)⟩, hne '"' hquote (by decide)⟩
  all_goals
    intro hb
    apply isPlain_of_le
    simp only [List.mem_cons, List.not_mem_nil, or_false] at hb
    rcases hb with rfl | rfl | rfl | rfl
  all_goals
    rw [UInt8.toNat_ofNat']
    omega

def controlEscape (n : Nat) : List Char :=
  ['\\', 'u', '0', '0', hexDigit (n / 16), hexDigit (n % 16)]

theorem controlEscape_bytes : ∀ n < 0x20, (controlEscape n).flatMap charBytes =
    [0x5C, 0x75, 0x30, 0x30, (hexDigit (n / 16)).toUInt8, (hexDigit (n % 16)).toUInt8] ∧
      hexUnit? 0x30 0x30 (hexDigit (n / 16)).toUInt8 (hexDigit (n % 16)).toUInt8 = some n := by
  decide

theorem stringBody_control {n : Nat} (hn : n < 0x20) (done r : Bytes) :
    stringBody none done ((controlEscape n).flatMap charBytes ++ r) =
      stringBody none (pushChar n done) r := by
  obtain ⟨hbytes, hunit⟩ := controlEscape_bytes n hn
  have hhigh : isHighSurrogate n = false := by simp [isHighSurrogate]; omega
  have hlow : isLowSurrogate n = false := by simp [isLowSurrogate]; omega
  rw [hbytes]
  simp [stringBody, hunit, hhigh, hlow]

/-- What stands for a character in a string is read as the character. -/
theorem stringBody_escapeChar (c : Char) (done r : Bytes) :
    stringBody none done ((escapeChar c).flatMap charBytes ++ r) =
      stringBody none ((charBytes c).reverse ++ done) r := by
  unfold escapeChar
  split_ifs with hquote hslash hn hr ht hb hf hlt
  · subst hquote; rfl
  · subst hslash; rfl
  · subst hn; rfl
  · subst hr; rfl
  · subst ht; rfl
  · subst hb; rfl
  · subst hf; rfl
  · have h := stringBody_control hlt done r
    rw [pushChar, Char.ofNat_toNat] at h
    exact h
  · rw [List.flatMap_singleton]
    exact stringBody_plain_append
      (fun b hb => isPlain_of_mem_charBytes (Nat.not_lt.mp hlt) hslash hquote hb) done r

theorem stringBody_quoted (cs : List Char) (done t : Bytes) :
    stringBody none done ((cs.flatMap fun c => (escapeChar c).flatMap charBytes) ++ 0x22 :: t) =
      some (done.reverse ++ cs.flatMap charBytes, t) := by
  induction cs generalizing done with
  | nil => simp [stringBody]
  | cons c cs ih =>
    rw [List.flatMap_cons, List.append_assoc, stringBody_escapeChar, ih]
    simp

/-- A written string is read as itself. -/
theorem quoted_atom (s : String) : IsAtom quotedText (quoted s) s := by
  have hread : quotedText (quoted s ++ []) = some (s, []) := by
    change (stringBody none [] ((s.toList.flatMap fun c => (escapeChar c).flatMap charBytes) ++
      [0x22] ++ [])).bind _ = _
    rw [List.append_nil, stringBody_quoted, List.reverse_nil, List.nil_append, ← ofString_eq]
    change (Bytes.text? (Bytes.ofString s)).bind _ = _
    rw [Bytes.text?_ofString]
    rfl
  obtain ⟨b, hb, hatom⟩ := quotedText_local _ _ _ hread
  rw [List.append_nil, List.append_nil] at hb
  exact hb ▸ hatom

end EventStream.Json
