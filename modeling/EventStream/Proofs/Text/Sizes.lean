import EventStream.Text.Size
import Mathlib

namespace EventStream

theorem byteSize_append (s t : List Char) : byteSize (s ++ t) = byteSize s + byteSize t := by
  induction s with
  | nil => simp [byteSize]
  | cons c s ih => simp [byteSize, ih, Nat.add_assoc]

theorem byteSize_pos {s : List Char} (h : s ≠ []) : 0 < byteSize s := by
  obtain ⟨c, r, rfl⟩ := List.exists_cons_of_ne_nil h
  have := c.utf8Size_pos
  rw [byteSize]
  omega

theorem utf8ByteSize_ofList (s : List Char) : (String.ofList s).utf8ByteSize = byteSize s := by
  rw [String.utf8ByteSize_ofList]
  induction s with
  | nil => rfl
  | cons c s ih =>
    rw [byteSize, ← ih, Nat.add_comm]
    simp

theorem isValid_of_cut {source : String} {before after : List Char}
    (h : source.toList = before ++ after) :
    (⟨byteSize before⟩ : String.Pos.Raw).IsValid source := by
  refine String.Pos.Raw.isValid_iff_exists_append.mpr
    ⟨String.ofList before, String.ofList after, ?_, ?_⟩
  · rw [← String.ofList_append, ← h, String.ofList_toList]
  · rw [← utf8ByteSize_ofList]
    rfl

end EventStream
