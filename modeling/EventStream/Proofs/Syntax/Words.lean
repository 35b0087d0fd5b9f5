import EventStream.Expr.Program
import EventStream.Proofs.Syntax.Numerals

namespace EventStream

open EventStream.Json (IsDigits FractionText ExponentText)

theorem isIdentifier_iff {name : String} :
    isIdentifier name = true ↔ ∃ c r, name.toList = c :: r ∧ Lexer.isNameStart c = true ∧
      (∀ d ∈ r, Lexer.isNamePart d = true) ∧ Keyword.ofName? name = none := by
  unfold isIdentifier
  cases name.toList <;> simp [and_assoc]

namespace Lexer

def IsQuote (c : Char) : Prop :=
  c = '"' ∨ c = '\''

/-- A string between its quotes: characters, and pairs of a backslash and a character. No line feed is
among them, and no such quote but in a pair. -/
inductive Units (quote : Char) : List Char → Prop
  | nil : Units quote []
  | plain {c body} : c ≠ quote → c ≠ '\\' → c ≠ '\n' → Units quote body → Units quote (c :: body)
  | pair {c body} : c ≠ '\n' → Units quote body → Units quote ('\\' :: c :: body)

/-- The texts that are words, each with its token. An integer of more than 64 bits is a word too, but
no token of the language. -/
inductive IsWord : Token → List Char → Prop
  | symbol (s : Symbol) : IsWord (.symbol s) s.chars
  | keyword (k : Keyword) : IsWord (.keyword k) k.name.toList
  | identifier {name : String} : isIdentifier name = true → IsWord (.identifier name) name.toList
  | integer {ds : List Char} {n : Int64} : IsDigits ds → n.toInt = ofDigits ds →
      IsWord (.integer n) ds
  | beyond {ds : List Char} : IsDigits ds → 9223372036854775808 ≤ ofDigits ds →
      IsWord (.invalid ds) ds
  | double {whole fraction f exponent e} : IsDigits whole → FractionText fraction f →
      ExponentText exponent e → f ≠ [] ∨ e ≠ [] →
      IsWord (.double ((Decimal.ofParts whole (fraction.getD []) (exponent.getD 0)).toDouble false))
        (whole ++ f ++ e)
  | string {quote body} : IsQuote quote → Units quote body →
      IsWord (.string body) (quote :: (body ++ [quote]))

/-- What is taken of a text that begins with no gap. -/
inductive Takes : Token → List Char → List Char → Prop
  /-- A word, and no longer one begins at the same place. -/
  | word {t text rest} : IsWord t text →
      (∀ other longer, IsWord other longer → longer <+: text ++ rest → longer.length ≤ text.length) →
      Takes t text rest
  /-- One character at which no word begins. -/
  | stray {c rest} : isGap c = false → ¬IsQuote c →
      (∀ other s, IsWord other s → ¬s <+: c :: rest) → Takes (.invalid [c]) [c] rest
  /-- A quote and all that could stand in a string after it, which the quote does not close. -/
  | unclosed {quote body rest} : IsQuote quote → Units quote body →
      (∀ more, Units quote more → more <+: body ++ rest → more.length ≤ body.length) →
      (∀ other s, IsWord other s → ¬s <+: quote :: (body ++ rest)) →
      Takes (.invalid (quote :: body)) (quote :: body) rest

section
variable {c : Char} {r s : List Char}

theorem isDigit_eq_false_of_isNameStart (h : isNameStart c = true) : c.isDigit = false := by
  refine Bool.eq_false_iff.mpr fun hd => ?_
  rw [Json.char_isDigit_iff] at hd
  simp only [isNameStart, Char.isAlpha, Char.isUpper, Char.isLower, Bool.or_eq_true,
    Bool.and_eq_true, decide_eq_true_eq, beq_iff_eq, UInt32.le_iff_toNat_le, ge_iff_le] at h
  change (65 ≤ c.toNat ∧ _ ∨ 97 ≤ c.toNat ∧ _) ∨ c = '_' at h
  rcases h with (h | h) | rfl
  · omega
  · omega
  · exact absurd hd (by decide)

theorem isGap_of_isNameStart (h : isNameStart c = true) : isGap c = false := by
  refine Bool.eq_false_iff.mpr fun hgap => ?_
  have hc : c = ' ' ∨ c = '\t' ∨ c = '\r' ∨ c = '\n' ∨ c = '\x0c' := by
    simpa [isGap, or_assoc] using hgap
  rcases hc with rfl | rfl | rfl | rfl | rfl <;> cases h

theorem not_isQuote_of_isNameStart (h : isNameStart c = true) : ¬IsQuote c := by
  rintro (rfl | rfl) <;> cases h

theorem not_isQuote_of_isDigit (h : c.isDigit = true) : ¬IsQuote c := by
  rintro (rfl | rfl) <;> cases h

end

section
variable {quote c : Char} {body r w : List Char} {t : Token}

theorem stringBody_append (h : Units quote body) :
    stringBody quote (body ++ r) =
      (body ++ (stringBody quote r).1, (stringBody quote r).2) := by
  induction h with
  | nil => rfl
  | @plain c body hquote hslash hline _ ih =>
    rw [List.cons_append, stringBody.eq_2]
    · simp [hquote, hslash, hline, ih]
    · exact fun _ _ h _ => hslash h
  | @pair c body hline _ ih =>
    rw [List.cons_append, List.cons_append, stringBody.eq_1]
    simp [hline, ih]

theorem stringBody_quote (hq : IsQuote quote) : stringBody quote (quote :: r) = ([], true) := by
  rw [stringBody.eq_2, if_pos rfl]
  rintro d t rfl _
  rcases hq with h | h <;> cases h

theorem stringBody_split (quote : Char) (r : List Char) :
    Units quote (stringBody quote r).1 ∧ ∃ rest, r = (stringBody quote r).1 ++ rest ∧
      ((stringBody quote r).2 = true → ∃ more, rest = quote :: more) := by
  fun_induction stringBody quote r with
  | case1 r => exact ⟨.nil, _, rfl, by simp⟩
  | case2 c r hline body closed hbody ih =>
    rw [hbody] at ih
    obtain ⟨hunits, rest, rfl, hclosed⟩ := ih
    exact ⟨.pair hline hunits, rest, rfl, hclosed⟩
  | case3 r => exact ⟨.nil, _, rfl, fun _ => ⟨r, rfl⟩⟩
  | case4 => exact ⟨.nil, _, rfl, by simp⟩
  | case5 c r _ hquote hplain body closed hbody ih =>
    rw [not_or] at hplain
    rw [hbody] at ih
    obtain ⟨hunits, rest, rfl, hclosed⟩ := ih
    exact ⟨.plain hquote hplain.1 hplain.2 hunits, rest, rfl, hclosed⟩
  | case6 => exact ⟨.nil, _, rfl, by simp⟩

theorem symbol_mem_all (s : Symbol) : s ∈ Symbol.all := by
  cases s <;> decide

theorem symbols_longer_first :
    Symbol.all.Pairwise fun a b => b.chars.length ≤ a.chars.length := by
  decide

theorem symbol_chars (s : Symbol) : ∃ c w, s.chars = c :: w ∧ isNameStart c = false ∧
    c.isDigit = false ∧ ¬IsQuote c := by
  cases s <;> exact ⟨_, _, rfl, by decide, by decide, by rintro (h | h) <;> cases h⟩

theorem keyword_chars (k : Keyword) : ∃ c w, k.name.toList = c :: w ∧ isNameStart c = true ∧
    ∀ d ∈ w, isNamePart d = true := by
  cases k with
  | trueWord => exact ⟨'t', ['r', 'u', 'e'], rfl, rfl, List.all_eq_true.mp rfl⟩
  | falseWord => exact ⟨'f', ['a', 'l', 's', 'e'], rfl, rfl, List.all_eq_true.mp rfl⟩
  | nullWord => exact ⟨'n', ['u', 'l', 'l'], rfl, rfl, List.all_eq_true.mp rfl⟩
  | inWord => exact ⟨'i', ['n'], rfl, rfl, List.all_eq_true.mp rfl⟩

/-- The first character of a word tells what kind of word it is. -/
theorem IsWord.shape (h : IsWord t (c :: w)) :
    (isNameStart c = true ∧ ∀ d ∈ w, isNamePart d = true) ∨
    (c.isDigit = true ∧ ∃ whole fr f ex e, w = whole ++ f ++ e ∧
      (∀ d ∈ whole, d.isDigit = true) ∧ FractionText fr f ∧ ExponentText ex e) ∨
    (IsQuote c ∧ ∃ body, w = body ++ [c] ∧ Units c body) ∨
    (isNameStart c = false ∧ c.isDigit = false ∧ ¬IsQuote c ∧ ∃ s : Symbol, s.chars = c :: w) := by
  have hdigits : ∀ {ds}, IsDigits ds → ds = c :: w →
      c.isDigit = true ∧ ∃ whole fr f ex e, w = whole ++ f ++ e ∧
        (∀ d ∈ whole, d.isDigit = true) ∧ FractionText fr f ∧ ExponentText ex e := by
    rintro _ hd rfl
    exact ⟨hd.2 c List.mem_cons_self, w, none, [], none, [], by simp,
      fun d hm => hd.2 d (List.mem_cons_of_mem c hm), .absent, .absent⟩
  generalize hs : c :: w = s at h
  cases h with
  | symbol s =>
    obtain ⟨d, v, hchars, hname, hdigit, hquote⟩ := symbol_chars s
    obtain ⟨rfl, rfl⟩ := List.cons.inj (hs.trans hchars)
    exact .inr (.inr (.inr ⟨hname, hdigit, hquote, s, rfl⟩))
  | keyword k =>
    obtain ⟨d, v, hchars, hname, hparts⟩ := keyword_chars k
    obtain ⟨rfl, rfl⟩ := List.cons.inj (hs.trans hchars)
    exact .inl ⟨hname, hparts⟩
  | @identifier name h =>
    unfold isIdentifier at h
    rw [← hs] at h
    simp only [Bool.and_eq_true, List.all_eq_true] at h
    exact .inl h.1
  | integer hd | beyond hd => exact .inr (.inl (hdigits hd hs.symm))
  | @double whole fr f ex e hw hf he =>
    obtain ⟨d, whole, rfl⟩ := List.exists_cons_of_ne_nil hw.1
    obtain ⟨rfl, rfl⟩ := List.cons.inj hs
    exact .inr (.inl ⟨hw.2 c List.mem_cons_self, whole, fr, f, ex, e, rfl,
      fun d hm => hw.2 d (List.mem_cons_of_mem c hm), hf, he⟩)
  | string hq hu =>
    obtain ⟨rfl, rfl⟩ := List.cons.inj hs
    exact .inr (.inr (.inl ⟨hq, _, rfl, hu⟩))

theorem IsWord.ne_nil (h : IsWord t w) : w ≠ [] := by
  cases h with
  | symbol s => cases s <;> simp [Symbol.chars]
  | keyword k => cases k <;> simp [Keyword.name]
  | identifier h =>
    rintro hnil
    simp [isIdentifier, hnil] at h
  | integer hd | beyond hd => exact hd.1
  | double hw => simp [hw.1]
  | string => simp

/-- A word at the front of a text has its first character. -/
theorem IsWord.at_front (h : IsWord t w) (hp : w <+: c :: r) :
    ∃ v x, w = c :: v ∧ r = v ++ x := by
  obtain ⟨d, v, rfl⟩ := List.exists_cons_of_ne_nil h.ne_nil
  obtain ⟨rfl, x, hx⟩ := List.cons_prefix_cons.mp hp
  exact ⟨v, x, rfl, hx.symm⟩

/-- What a match takes off the front of a text. -/
def Match.TakenFrom (m : Match) (c : Char) (r : List Char) : Prop :=
  ∃ rest, r = m.2 ++ rest ∧ Takes m.1 (c :: m.2) rest

theorem taken_of_word {m : Match} (rest : List Char) (hr : r = m.2 ++ rest)
    (h : IsWord m.1 (c :: m.2))
    (hmax : ∀ other v x, IsWord other (c :: v) → r = v ++ x → v.length ≤ m.2.length) :
    m.TakenFrom c r := by
  refine ⟨rest, hr, .word h fun other longer hword hp => ?_⟩
  rw [List.cons_append, ← hr] at hp
  obtain ⟨v, x, rfl, hx⟩ := hword.at_front hp
  exact Nat.succ_le_succ (hmax other v x hword hx)

theorem name_of_ofName? {k : Keyword} {s : String} (h : Keyword.ofName? s = some k) :
    k.name = s := by
  simpa using List.find?_some h

/-- A name is the longest word of its own text. -/
theorem longest_of_isIdentifier {name : String} (h : isIdentifier name = true)
    (hname : name.toList = c :: r) : isGap c = false ∧ longest c r = (.identifier name, r) := by
  obtain ⟨d, tail, hchars, hd, htail, hkeyword⟩ := isIdentifier_iff.mp h
  obtain ⟨rfl, rfl⟩ := List.cons.inj (hname.symm.trans hchars)
  have hall : r.takeWhile isNamePart = r := List.takeWhile_eq_self_iff.mpr htail
  have htext : String.ofList (c :: r) = name := by rw [← hname, String.ofList_toList]
  refine ⟨isGap_of_isNameStart hd, ?_⟩
  unfold longest Lexer.name
  simp only [hd, if_true, hall, htext, hkeyword]

theorem name_taken (hc : isNameStart c = true) : (name c r).TakenFrom c r := by
  have htail : (name c r).2 = r.takeWhile isNamePart := by
    unfold name
    simp only
    split <;> rfl
  have hparts : ∀ d ∈ r.takeWhile isNamePart, isNamePart d = true :=
    fun d => List.mem_takeWhile_imp
  refine taken_of_word (r.dropWhile isNamePart) ?_ ?_ ?_
  · rw [htail, List.takeWhile_append_dropWhile]
  · rw [htail]
    unfold name
    simp only
    split
    next k hk =>
      have := IsWord.keyword k
      rwa [name_of_ofName? hk, String.toList_ofList] at this
    next hnone =>
      have hid : isIdentifier (String.ofList (c :: r.takeWhile isNamePart)) = true :=
        isIdentifier_iff.mpr ⟨c, _, String.toList_ofList, hc, hparts, hnone⟩
      simpa only [String.toList_ofList] using IsWord.identifier hid
  · intro other v x hword hr
    have hv : ∀ d ∈ v, isNamePart d = true := by
      have hdigit := isDigit_eq_false_of_isNameStart hc
      have hquote := not_isQuote_of_isNameStart hc
      rcases hword.shape with h | h | h | h
      · exact h.2
      · simp [hdigit] at h
      · exact absurd h.1 hquote
      · simp [hc] at h
    rw [htail, hr]
    exact length_le_takeWhile_append hv

theorem number_taken (hc : c.isDigit = true) : (number c r).TakenFrom c r := by
  obtain ⟨fr, ex, rest, hr, hf, he⟩ := numeral_split r
  have hwhole : IsDigits (c :: wholeOf r) := by
    refine ⟨by simp, fun d hd => ?_⟩
    rcases List.mem_cons.mp hd with rfl | hd
    · exact hc
    · exact List.mem_takeWhile_imp hd
  refine taken_of_word rest ?_ ?_ ?_
  · rw [number_snd, ← hr]
  · have hread := Double.read?_of_parts hwhole hf he
    rw [number_snd]
    unfold number
    simp only
    split
    next hnone =>
      -- neither point nor exponent
      have hnone : pointOf r = [] ∧ powerOf r = [] := hnone
      have hall : numeral r = wholeOf r := by rw [numeral, hnone.1, hnone.2]; simp
      rw [hall]
      split
      next n hn => exact .integer hwhole (toInt_of_word? hn)
      next hn =>
        change IsWord (.invalid (c :: numeral r)) _
        rw [hall]
        exact .beyond hwhole (le_of_word?_eq_none hn)
    next hsome =>
      have hsome : pointOf r ≠ [] ∨ powerOf r ≠ [] := not_and_or.mp hsome
      split
      next d hd =>
        obtain rfl := Option.some.inj (hread.symm.trans hd)
        exact .double hwhole hf he hsome
      next hd => exact absurd (hread.symm.trans hd) (Option.some_ne_none _)
  · intro other v x hword hv
    have hshape : ∃ whole fr f ex e, v = whole ++ f ++ e ∧ (∀ d ∈ whole, d.isDigit = true) ∧
        FractionText fr f ∧ ExponentText ex e := by
      rcases hword.shape with h | h | h | h
      · rw [isDigit_eq_false_of_isNameStart h.1] at hc
        cases hc
      · exact h.2
      · exact absurd h.1 (not_isQuote_of_isDigit hc)
      · rw [h.2.1] at hc
        cases hc
    obtain ⟨whole, _, f, _, e, rfl, hw, hf, he⟩ := hshape
    rw [number_snd, hv]
    exact length_le_numeral hw hf he

theorem string_taken (hq : IsQuote c) : (string c r).TakenFrom c r := by
  obtain ⟨hunits, rest, hr, hclosed⟩ := stringBody_split c r
  have hbody : ∀ {other v x}, IsWord other (c :: v) → r = v ++ x →
      ∃ body, v = body ++ [c] ∧ stringBody c r = (body, true) := by
    intro other v x hword hv
    have hshape : ∃ body, v = body ++ [c] ∧ Units c body := by
      rcases hword.shape with h | h | h | h
      · exact absurd hq (not_isQuote_of_isNameStart h.1)
      · exact absurd hq (not_isQuote_of_isDigit h.1)
      · exact h.2
      · exact absurd hq h.2.2.1
    obtain ⟨body, rfl, hu⟩ := hshape
    refine ⟨body, rfl, ?_⟩
    rw [hv, List.append_assoc, stringBody_append hu, List.singleton_append, stringBody_quote hq,
      List.append_nil]
  unfold string
  split
  next body h =>
    rw [h] at hunits hr hclosed
    obtain ⟨more, rfl⟩ := hclosed rfl
    refine taken_of_word more (by simpa using hr) (.string hq hunits) ?_
    intro other v x hword hv
    obtain ⟨body', rfl, h'⟩ := hbody hword hv
    rw [h] at h'
    simp only [Prod.mk.injEq, and_true] at h'
    rw [h']
  next body h =>
    rw [h] at hunits hr
    refine ⟨rest, hr, .unclosed hq hunits ?_ ?_⟩
    · rintro more hmore ⟨x, hx⟩
      have hlength := congrArg (fun m : List Char × Bool => m.1.length) h
      rw [hr, ← hx, stringBody_append hmore] at hlength
      simp only [List.length_append] at hlength
      omega
    · intro other w hword hp
      rw [← hr] at hp
      obtain ⟨v, x, rfl, hv⟩ := hword.at_front hp
      obtain ⟨_, _, h'⟩ := hbody hword hv
      rw [h] at h'
      cases h'

theorem symbol_taken (hgap : isGap c = false) (hname : isNameStart c = false)
    (hdigit : c.isDigit = false) (hq : ¬IsQuote c) : (symbol c r).TakenFrom c r := by
  have hsymbol : ∀ {other v}, IsWord other (c :: v) → ∃ s : Symbol, s.chars = c :: v := by
    intro other v hword
    rcases hword.shape with h | h | h | h
    · simp [hname] at h
    · simp [hdigit] at h
    · exact absurd h.1 hq
    · exact h.2.2.2
  unfold symbol
  split
  next s hs =>
    obtain ⟨hfront, before, after, hall, hbefore⟩ := List.find?_eq_some_iff_append.mp hs
    have hfront := List.isPrefixOf_iff_prefix.mp hfront
    obtain ⟨v, x, hchars, hr⟩ := (IsWord.symbol s).at_front hfront
    have hdrop : s.chars.drop 1 = v := by rw [hchars]; rfl
    refine taken_of_word x (by rw [hdrop, hr]) (by rw [hdrop, ← hchars]; exact .symbol s) ?_
    intro other w y hword hw
    obtain ⟨s', hs'⟩ := hsymbol hword
    -- a longer symbol would have been found before this one
    have hmem : s' ∈ s :: after := by
      have hmem := symbol_mem_all s'
      rw [hall, List.mem_append] at hmem
      refine hmem.resolve_left fun hm => ?_
      have hnot := hbefore s' hm
      rw [hw, List.isPrefixOf_iff_prefix.mpr ⟨y, by rw [hs', List.cons_append]⟩] at hnot
      cases hnot
    have hpair := symbols_longer_first
    rw [hall, List.pairwise_append, List.pairwise_cons] at hpair
    have hle : s'.chars.length ≤ s.chars.length := by
      rcases List.mem_cons.mp hmem with rfl | hm
      · exact Nat.le_refl _
      · exact hpair.2.1.1 s' hm
    rw [hs', hchars] at hle
    rw [hdrop]
    exact Nat.le_of_succ_le_succ hle
  next hnone =>
    refine ⟨r, rfl, .stray hgap hq fun other w hword hp => ?_⟩
    obtain ⟨v, x, rfl, hv⟩ := hword.at_front hp
    obtain ⟨s, hs⟩ := hsymbol hword
    refine List.find?_eq_none.mp hnone s (symbol_mem_all s) (List.isPrefixOf_iff_prefix.mpr ?_)
    exact ⟨x, by rw [hs, hv, List.cons_append]⟩

theorem longest_taken (hgap : isGap c = false) : (longest c r).TakenFrom c r := by
  unfold longest
  split
  next hname => exact name_taken hname
  next hname =>
    split
    next hdigit => exact number_taken hdigit
    next hdigit =>
      split
      next hq => exact string_taken hq
      next hq =>
        exact symbol_taken hgap (Bool.eq_false_iff.mpr hname) (Bool.eq_false_iff.mpr hdigit) hq

end

end Lexer

end EventStream
