import EventStream.Payload
import EventStream.Proofs.Entries
import EventStream.Proofs.Json.Values

namespace EventStream.Json

section
variable {α : Type} {close : UInt8} {item : Nat → Bytes → α → Prop} {d : Nat} {bs : List Bytes}
  {xs : List α}

theorem listed_commaSeparated {b : Bytes} {x : α} (hx : ∃ n ≤ d, Spaced item n b x)
    (h : List.Forall₂ (fun b x => ∃ n ≤ d, Spaced item n b x) bs xs) :
    ∃ n ≤ d, Listed close item n (commaSeparated (b :: bs) ++ [close]) (x :: xs) := by
  induction h generalizing b x with
  | nil =>
    obtain ⟨n, hn, ⟨hw, hx, hv⟩⟩ := hx
    refine ⟨n, hn, ?_⟩
    have hlast : Listed close item n _ _ := .last hw hx hv
    simpa [commaSeparated] using hlast
  | cons hy _ ih =>
    obtain ⟨n, hn, ⟨hw, hx, hv⟩⟩ := hx
    obtain ⟨m, hm, hrest⟩ := ih hy
    refine ⟨max n m, Nat.max_le.mpr ⟨hn, hm⟩, ?_⟩
    simpa [commaSeparated] using Listed.more hw hx hv hrest

/-- Texts of items with commas between them are the text of a list of these items. -/
theorem enclosed_commaSeparated
    (h : List.Forall₂ (fun b x => ∃ n ≤ d, Spaced item n b x) bs xs) :
    ∃ n ≤ d, Enclosed close item n (commaSeparated bs ++ [close]) xs := by
  cases h with
  | nil => exact ⟨0, Nat.zero_le d, .empty (fun _ hb => nomatch hb)⟩
  | cons hx hrest =>
    obtain ⟨n, hn, h⟩ := listed_commaSeparated hx hrest
    exact ⟨n, hn, .listed h⟩

end

section
variable {d : Nat} {s : Bytes} {j : Json}

theorem isValue_jsonArray {bs : List Bytes} {js : List Json}
    (h : List.Forall₂ (fun b j => ∃ n ≤ d, Spaced data.IsValue n b j) bs js) :
    ∃ n ≤ d, data.IsValue (n + 1) (jsonArray bs) (.array js) := by
  obtain ⟨n, hn, h⟩ := enclosed_commaSeparated h
  exact ⟨n, hn, .array h⟩

/-- A key written before the text of a document is a member of an object. -/
theorem spaced_member (k : String) (h : ∃ n ≤ d, Spaced data.IsValue n s j) :
    ∃ n ≤ d, Spaced data.IsMember n (quoted k ++ 0x3A :: s) (k, j) := by
  obtain ⟨n, hn, @⟨w, s, v, _, hw, hx, hv⟩⟩ := h
  have hnone : Spaces [] := fun _ hb => nomatch hb
  have hmember := Contents.IsMember.intro (quoted_atom k) hnone hw hx
  refine ⟨n, hn, ?_⟩
  simpa using Spaced.intro hnone hmember hv

theorem isValue_object {bs : List Bytes} {es : List (String × Json)}
    (h : List.Forall₂ (fun b e => ∃ n ≤ d, Spaced data.IsMember n b e) bs es) :
    ∃ n ≤ d, data.IsValue (n + 1) (0x7B :: commaSeparated bs ++ [0x7D]) (ofEntries es) := by
  obtain ⟨n, hn, h⟩ := enclosed_commaSeparated h
  exact ⟨n, hn, .object h⟩

theorem spaced_of_isValue {n : Nat} (h : data.IsValue n s j) : Spaced data.IsValue n s j := by
  have hnone : Spaces [] := fun _ hb => nomatch hb
  simpa using Spaced.intro hnone h hnone

theorem parse?_of_isValue (h : ∃ n ≤ d, data.IsValue (n + 1) s j) (hd : d < depthLimit) :
    parse? s = some j := by
  obtain ⟨n, hn, h⟩ := h
  exact parse?_eq_some_iff.mpr ⟨n + 1, by omega, spaced_of_isValue h⟩

/-- A text that is read has the depth that its brackets show. -/
theorem spaced_of_parse? (h : parse? s = some j) : Spaced data.IsValue (nesting s) s j := by
  obtain ⟨n, _, h⟩ := parse?_eq_some_iff.mp h
  rw [nesting_eq (h.nests fun _ _ _ hx => hx.nests)]
  exact h

end

end EventStream.Json

namespace EventStream

open Json

/-- How the array of some documents is written. -/
def arrayText (items : List Bytes) : Bytes :=
  Bytes.ofString "[" ++ (Bytes.ofString ",").intercalate items ++ Bytes.ofString "]"

/-- How the object with some members is written. -/
def objectText (members : List (String × Bytes)) : Bytes :=
  Bytes.ofString "\x7b" ++
    (Bytes.ofString ",").intercalate (members.map fun m => quoted m.1 ++ Bytes.ofString ":" ++ m.2) ++
      Bytes.ofString "\x7d"

theorem commaSeparated_eq_intercalate (items : List Bytes) :
    commaSeparated items = (Bytes.ofString ",").intercalate items := by
  have hcomma : Bytes.ofString "," = [0x2C] := rfl
  fun_induction commaSeparated items with
  | case1 => rfl
  | case2 b => simp [List.intercalate]
  | case3 b rest hne ih =>
    obtain ⟨c, rest, rfl⟩ := List.exists_cons_of_ne_nil hne
    rw [ih, hcomma]
    simp [List.intercalate]

theorem jsonArray_eq_arrayText (items : List Bytes) : jsonArray items = arrayText items :=
  congrArg (fun text => 0x5B :: text ++ [0x5D]) (commaSeparated_eq_intercalate items)

theorem pairObject_eq_objectText (k₁ k₂ : String) (b₁ b₂ : Bytes) :
    pairObject k₁ b₁ k₂ b₂ = objectText [(k₁, b₁), (k₂, b₂)] := by
  have hmember (k : String) (b : Bytes) :
      quoted k ++ Bytes.ofString ":" ++ b = quoted k ++ 0x3A :: b :=
    List.append_assoc _ _ _
  simp only [objectText, List.map_cons, List.map_nil, hmember, ← commaSeparated_eq_intercalate]
  rfl

/-- What is written as an array of documents nested at most 126 deep is read as their array. -/
theorem parse?_arrayText {bs : List Bytes} {js : List Json} (hread : bs.map parse? = js.map some)
    (hdepth : ∀ b ∈ bs, nesting b ≤ 126) : parse? (arrayText bs) = some (.array js) := by
  have hparts : List.Forall₂ (fun b j => parse? b = some j) bs js :=
    List.forall₂_map_left_iff.mp (List.forall₂_map_right_iff.mp (hread ▸ List.forall₂_refl _))
  rw [← jsonArray_eq_arrayText]
  refine parse?_of_isValue (d := 126) (isValue_jsonArray ?_) (by decide)
  refine List.forall₂_iff_get.mpr ⟨hparts.length_eq, fun i hi hj => ?_⟩
  exact ⟨_, hdepth _ (List.getElem_mem hi), spaced_of_parse? (hparts.get hi hj)⟩

/-- Documents nested at most 126 deep are spliced into documents. -/
theorem spliced_documents :
    (∀ (bs : List Bytes) (js : List Json), bs.map parse? = js.map some →
      (∀ b ∈ bs, nesting b ≤ 126) → parse? (jsonArray bs) = some (.array js)) ∧
    ∀ (k₁ k₂ : String) (b₁ b₂ : Bytes) (j₁ j₂ : Json), k₁ ≠ k₂ →
      parse? b₁ = some j₁ → nesting b₁ ≤ 126 → parse? b₂ = some j₂ → nesting b₂ ≤ 126 →
        ∃ es, parse? (pairObject k₁ b₁ k₂ b₂) = some (.object es) ∧
          es.Perm [(k₁, j₁), (k₂, j₂)] := by
  constructor
  · intro bs js hread hdepth
    rw [jsonArray_eq_arrayText]
    exact parse?_arrayText hread hdepth
  · intro k₁ k₂ b₁ b₂ j₁ j₂ hne h₁ hd₁ h₂ hd₂
    have hfirst := spaced_member k₁ ⟨_, hd₁, spaced_of_parse? h₁⟩
    have hsecond := spaced_member k₂ ⟨_, hd₂, spaced_of_parse? h₂⟩
    refine ⟨sortedEntries [(k₁, j₁), (k₂, j₂)], ?_, sortedEntries_perm _ (by simpa [keys])⟩
    exact parse?_of_isValue (isValue_object (.cons hfirst (.cons hsecond .nil))) (by decide)

theorem spliced_list_and_word :
    parse? (jsonArray [ascii [' ', '[', '1', ']'], ascii ['t', 'r', 'u', 'e', ' ']]) =
      some (.array [.array [.integer 1], .bool true]) ∧
    ∃ es,
      parse? (pairObject "b" (ascii [' ', '[', '1', ']']) "a" (ascii ['t', 'r', 'u', 'e', ' '])) =
        some (.object es) ∧ es.Perm [("b", .array [.integer 1]), ("a", .bool true)] :=
  ⟨spliced_documents.1 _ _ rfl (by decide),
    spliced_documents.2 _ _ _ _ _ _ (by decide) rfl (by decide) rfl (by decide)⟩

end EventStream
