import EventStream.Proofs.Config.Runs
import EventStream.Proofs.Text.Sizes

namespace EventStream

/-- The byte where the first character of a kind stands. -/
def findByte? (kind : Char → Bool) : List Char → Option Nat
  | [] => none
  | c :: r => if kind c then some 0 else (findByte? kind r).map (c.utf8Size + ·)

/-- The first bytes of a text and the others, unless the cut is inside a character or behind the
end. -/
def splitAtByte? : Nat → List Char → Option (List Char × List Char)
  | 0, s => some ([], s)
  | _ + 1, [] => none
  | n + 1, c :: r =>
    if c.utf8Size ≤ n + 1 then
      (splitAtByte? (n + 1 - c.utf8Size) r).map fun (before, after) => (c :: before, after)
    else none

section
variable {kind : Char → Bool} {s t : List Char}

theorem findByte?_append (hs : ∀ c ∈ s, kind c = false) (t : List Char) :
    findByte? kind (s ++ t) = (findByte? kind t).map (byteSize s + ·) := by
  induction s with
  | nil => simp [byteSize]
  | cons c s ih =>
    obtain ⟨hc, hs⟩ := List.forall_mem_cons.mp hs
    rw [List.cons_append, findByte?, hc, ih hs]
    cases findByte? kind t <;> simp [byteSize, Nat.add_assoc]

theorem findByte?_of_head (ht : ∀ c ∈ t.head?, kind c = true) :
    findByte? kind t = if t = [] then none else some 0 := by
  cases t with
  | nil => rfl
  | cons c r => simp [findByte?, ht c rfl]

/-- The end of a part of a text, where the other part begins with a character that is looked for. -/
theorem findByte?_append_of_head (hs : ∀ c ∈ s, kind c = false)
    (ht : ∀ c ∈ t.head?, kind c = true) :
    findByte? kind (s ++ t) = if t = [] then none else some (byteSize s) := by
  rw [findByte?_append hs, findByte?_of_head ht]
  split <;> rfl

theorem splitAtByte?_append (s t : List Char) :
    splitAtByte? (byteSize s) (s ++ t) = some (s, t) := by
  induction s with
  | nil => rw [byteSize, splitAtByte?, List.nil_append]
  | cons c s ih =>
    obtain ⟨n, hn⟩ : ∃ n, byteSize (c :: s) = n + 1 :=
      Nat.exists_eq_add_one.mpr (byteSize_pos (List.cons_ne_nil c s))
    have hrest : n + 1 - c.utf8Size = byteSize s := by
      rw [← hn, byteSize, Nat.add_sub_cancel_left]
    have hle : c.utf8Size ≤ n + 1 := by
      rw [← hn, byteSize]
      omega
    rw [hn, List.cons_append, splitAtByte?, if_pos hle, hrest, ih]
    rfl

end

namespace Duration

/-- One round of the loop: the ends of the number and of its unit by their bytes, and the texts
between them. -/
def takePiece? (rest : List Char) : Option (Piece × List Char) := do
  let numberEnd := (findByte? (!isNumeral ·) rest).getD (byteSize rest)
  let (number, after) ← splitAtByte? numberEnd rest
  let unitEnd := (findByte? isNumeral after).elim (byteSize rest) (numberEnd + ·)
  let (text, left) ← splitAtByte? unitEnd rest
  let (_, unit) ← splitAtByte? numberEnd text
  some (⟨number, unit⟩, left)

/-- The loop over what is left, in a number of rounds. It is none where a cut fails and where there
are too few rounds. -/
def expandWithin? : Nat → List Char → List Char → Option (Except FractionError (List Char))
  | _, out, [] => some (.ok out)
  | 0, _, _ :: _ => none
  | rounds + 1, out, c :: r =>
    match takePiece? (c :: r) with
    | none => none
    | some (p, left) =>
      match p.expand with
      | .ok text => expandWithin? rounds (out ++ text) left
      | .error e => some (.error e)

/-- What is put for a piece: itself where its number has no point, else its nanoseconds. -/
inductive Piece.Becomes (p : Piece) : List Char → Prop
  | itself : '.' ∉ p.number → p.Becomes p.text
  | nanoseconds {n : Nat} : '.' ∈ p.number → p.Counts n →
      p.Becomes (digitsOf n ++ ['n', 's', ' '])

section
variable {p : Piece} {s t s' : List Char} {ps before after : List Piece} {rounds : Nat}

theorem takePiece?_text (hp : p.IsRun) (ht : ∀ c ∈ t.head?, p.unit ≠ [] ∧ isNumeral c = true) :
    takePiece? (p.text ++ t) = some (p, t) := by
  have htext : p.text ++ t = p.number ++ (p.unit ++ t) := List.append_assoc _ _ _
  have hstart : ∀ c ∈ (p.unit ++ t).head?, (!isNumeral c) = true := by
    cases hunit : p.unit with
    | nil => exact fun c hc => absurd hunit (ht c hc).1
    | cons d unit => simpa using hp.unit d (by simp [hunit])
  have hnumber : (findByte? (!isNumeral ·) (p.text ++ t)).getD (byteSize (p.text ++ t)) =
      byteSize p.number := by
    rw [htext, findByte?_append_of_head (fun c hc => by simp [hp.number c hc]) hstart]
    split
    next hnil => simp [hnil]
    next => rfl
  have hunit : (findByte? isNumeral (p.unit ++ t)).elim (byteSize (p.text ++ t))
      (byteSize p.number + ·) = byteSize p.text := by
    rw [findByte?_append_of_head hp.unit fun c hc => (ht c hc).2]
    split
    next hnil => simp [hnil]
    next => exact (byteSize_append _ _).symm
  have hsplit : splitAtByte? (byteSize p.number) (p.text ++ t) = some (p.number, p.unit ++ t) := by
    rw [htext, splitAtByte?_append]
  simp only [takePiece?, hnumber, hsplit, Option.bind_eq_bind, Option.bind_some, hunit,
    splitAtByte?_append]
  rw [Piece.text, splitAtByte?_append, Option.bind_some]

/-- Each round puts one piece in front of what is put for the rest. -/
theorem expandFractions_text (hp : p.IsRun)
    (ht : ∀ c ∈ t.head?, p.unit ≠ [] ∧ isNumeral c = true) :
    expandFractions (p.text ++ t) =
      p.expand >>= fun text => (expandFractions t).map (text ++ ·) := by
  simp only [expandFractions, pieces_append hp ht, List.mapM_cons]
  cases p.expand with
  | error e => rfl
  | ok text => cases (pieces t).mapM Piece.expand <;> rfl

theorem expandWithin?_of_cut (h : Cut s ps) (hrounds : ps.length ≤ rounds) (out : List Char) :
    expandWithin? rounds out s = some ((expandFractions s).map (out ++ ·)) := by
  induction h generalizing rounds out with
  | nil => simp [expandWithin?, expandFractions_nil, Except.map]
  | @cons p t ps hp ht _ ih =>
    obtain ⟨c, r, hcr⟩ := List.exists_cons_of_ne_nil
      (List.append_ne_nil_of_left_ne_nil hp.text_ne_nil t)
    obtain ⟨rounds, rfl⟩ : ∃ n, rounds = n + 1 :=
      Nat.exists_eq_add_one.mpr (Nat.lt_of_lt_of_le (Nat.succ_pos _) hrounds)
    have hnext (out : List Char) := ih (Nat.le_of_succ_le_succ hrounds) out
    rw [expandFractions_text hp ht, hcr, expandWithin?, ← hcr, takePiece?_text hp ht]
    simp only [hnext]
    cases p.expand with
    | error e => rfl
    | ok text => cases expandFractions t <;> simp [Except.map, bind, Except.bind]

theorem Cut.flatten (h : Cut s ps) : (ps.map Piece.text).flatten = s := by
  induction h with
  | nil => rfl
  | cons _ _ _ ih => rw [List.map_cons, List.flatten_cons, ih]

theorem Cut.length_le (h : Cut s ps) : ps.length ≤ s.length := by
  induction h with
  | nil => exact Nat.le_refl 0
  | cons hp _ _ ih =>
    have := List.length_pos_iff.mpr hp.text_ne_nil
    rw [List.length_cons, List.length_append]
    omega

/-- Behind any number of its pieces a text goes on with a run. -/
theorem Cut.of_append (h : Cut s (before ++ p :: after)) : p.IsRun ∧
    ∃ t, (∀ c ∈ t.head?, p.unit ≠ [] ∧ isNumeral c = true) ∧ Cut t after := by
  induction before generalizing s with
  | nil =>
    cases h with
    | cons hp ht h => exact ⟨hp, _, ht, h⟩
  | cons q before ih =>
    cases h with
    | cons _ _ h => exact ih h

theorem Piece.IsRun.becomes {text : List Char} (hp : p.IsRun) (h : p.expand = .ok text) :
    p.Becomes text := by
  rcases expand_eq_ok.mp h with ⟨hdot, rfl⟩ | ⟨hdot, n, hn, rfl⟩
  · exact .itself hdot
  · obtain ⟨whole, fraction, u, hnumber, hd, _, hu, rfl⟩ := fractionNanos_eq_ok hp.number hdot hn
    exact .nanoseconds hdot (.fraction hnumber hd hu)

theorem Cut.becomes (h : Cut s ps) (hs : expandFractions s = .ok s') :
    ∃ texts, List.Forall₂ Piece.Becomes ps texts ∧ s' = texts.flatten := by
  induction h generalizing s' with
  | nil =>
    obtain rfl := expandFractions_nil_eq_ok.mp hs
    exact ⟨[], .nil, rfl⟩
  | cons hp ht _ ih =>
    obtain ⟨text, t', htext, ht', rfl⟩ := (expandFractions_append_eq_ok hp ht).mp hs
    obtain ⟨texts, htexts, rfl⟩ := ih ht'
    exact ⟨text :: texts, .cons (hp.becomes htext) htexts, rfl⟩

end

/-- The pieces of a text make it up, none of them is empty, and each round of the loop takes the
next one, cutting between characters. As many rounds as there are pieces end the loop, and where it
succeeds each piece is kept or becomes its nanoseconds. -/
theorem expandFractions_splits (s : List Char) :
    ((pieces s).map Piece.text).flatten = s ∧ (∀ p ∈ pieces s, p.text ≠ []) ∧
    (∀ before p after, pieces s = before ++ p :: after →
      let left := (after.map Piece.text).flatten
      takePiece? (p.text ++ left) = some (p, left) ∧
      (⟨byteSize p.number⟩ : String.Pos.Raw).IsValid (String.ofList (p.text ++ left)) ∧
      (⟨byteSize p.text⟩ : String.Pos.Raw).IsValid (String.ofList (p.text ++ left))) ∧
    (pieces s).length ≤ s.length ∧
    (∀ rounds, (pieces s).length ≤ rounds →
      expandWithin? rounds [] s = some (expandFractions s)) ∧
    (∀ s', expandFractions s = .ok s' →
      ∃ texts, List.Forall₂ Piece.Becomes (pieces s) texts ∧ s' = texts.flatten) ∧
    ('.' ∉ s → expandFractions s = .ok s) := by
  have hcut := cut_pieces s
  refine ⟨hcut.flatten, fun p hp => ?_, fun before p after h => ?_, hcut.length_le,
    fun rounds h => ?_, fun s' => hcut.becomes, expandFractions_of_no_point⟩
  · obtain ⟨before, after, h⟩ := List.append_of_mem hp
    rw [h] at hcut
    exact hcut.of_append.1.text_ne_nil
  · rw [h] at hcut
    obtain ⟨hrun, t, ht, hafter⟩ := hcut.of_append
    obtain rfl := hafter.flatten
    exact ⟨takePiece?_text hrun ht,
      isValid_of_cut (String.toList_ofList.trans (List.append_assoc _ _ _)),
      isValid_of_cut String.toList_ofList⟩
  · rw [expandWithin?_of_cut hcut h []]
    cases expandFractions s <;> rfl

/-- A unit of two bytes before a number with a point. -/
theorem expandFractions_splits_two_bytes :
    let s := ['1', 'é', '0', '.', '5', 's']
    let s' := ['1', 'é', '5', '0', '0', '0', '0', '0', '0', '0', '0', 'n', 's', ' ']
    pieces s = [⟨['1'], ['é']⟩, ⟨['0', '.', '5'], ['s']⟩] ∧
    takePiece? s = some (⟨['1'], ['é']⟩, ['0', '.', '5', 's']) ∧
    (⟨3⟩ : String.Pos.Raw).IsValid (String.ofList s) ∧
    expandWithin? 2 [] s = some (.ok s') ∧
    (∃ texts, List.Forall₂ Piece.Becomes (pieces s) texts ∧ s' = texts.flatten) ∧
    expandFractions ['1', 'é'] = .ok ['1', 'é'] := by
  intro s s'
  have hexpand : expandFractions s = .ok s' :=
    (expand_before_half_second ['é'] (by simp) (by simp [isNumeral])).2
  have hpieces : pieces s = [⟨['1'], ['é']⟩, ⟨['0', '.', '5'], ['s']⟩] := by
    simp [s, pieces, isNumeral]
  obtain ⟨_, _, hround, _, hloop, hbecomes, _⟩ := expandFractions_splits s
  obtain ⟨htake, _, hvalid⟩ := hround [] _ _ hpieces
  refine ⟨hpieces, htake, hvalid, ?_, hbecomes s' hexpand, ?_⟩
  · rw [hloop 2 (by rw [hpieces]; rfl), hexpand]
  · exact (expandFractions_splits ['1', 'é']).2.2.2.2.2.2 (by simp)

end Duration

end EventStream
