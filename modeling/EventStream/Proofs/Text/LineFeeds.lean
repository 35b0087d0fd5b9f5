import EventStream.Text.Bytes
import Mathlib

namespace EventStream

namespace Bytes

/-- A character that goes on with tail bytes only, and whose code is beyond the controls. -/
def Unfinished.Long (u : Unfinished) : Prop :=
  0x80 ≤ u.low.toNat ∧ 16 ≤ u.code * 64 + (u.low.toNat - 0x80)

/-- The line feeds in what has been read. -/
def Reading.feeds (r : Reading) : Nat :=
  r.done.count '\n'

section
variable {done : List Char} {b : UInt8} {r : Reading} {n : Nat}

theorem ofNat_ne_lineFeed (h : n ≠ 10) : Char.ofNat n ≠ '\n' := by
  intro hn
  have hcode := congrArg Char.toNat hn
  rw [Char.toNat_ofNat] at hcode
  split at hcode
  · exact h hcode
  · cases hcode

theorem count_replacement (done : List Char) :
    (replacement :: done).count '\n' = done.count '\n' :=
  List.count_cons_of_ne (by decide)

theorem long_mk {code owed : Nat} {low high : UInt8} (hlow : 0x80 ≤ low.toNat)
    (hcode : 16 ≤ code * 64 + (low.toNat - 0x80)) : Unfinished.Long ⟨code, owed, low, high⟩ :=
  ⟨hlow, hcode⟩

/-- A byte is a character, stands for nothing or begins a long character. -/
theorem start_cases (done : List Char) (b : UInt8) :
    Reading.start done b = ⟨Char.ofNat b.toNat :: done, none⟩ ∨
    b ≠ lineFeed ∧ (Reading.start done b = ⟨replacement :: done, none⟩ ∨
      ∃ u : Unfinished, u.Long ∧ Reading.start done b = ⟨done, some u⟩) := by
  by_cases hascii : b.toNat < 0x80
  · exact .inl (if_pos hascii)
  · refine .inr ⟨fun hb => hascii (by rw [hb]; decide), ?_⟩
    generalize hr : Reading.start done b = r
    unfold Reading.start at hr
    dsimp only at hr
    rw [if_neg hascii] at hr
    split_ifs at hr
    all_goals subst hr
    case pos | neg => exact .inl rfl
    all_goals exact .inr ⟨_, long_mk (by decide) (by simp only [UInt8.reduceToNat]; omega), rfl⟩

theorem start_feeds (done : List Char) (b : UInt8) :
    (Reading.start done b).feeds = done.count '\n' + [b].count lineFeed := by
  have hbyte (hb : b ≠ lineFeed) : [b].count lineFeed = 0 :=
    List.count_eq_zero.mpr (by simpa using hb.symm)
  rcases start_cases done b with h | ⟨hb, h | ⟨u, _, h⟩⟩
  · rw [h]
    by_cases hb : b = lineFeed
    · subst hb
      exact List.count_cons_self
    · rw [hbyte hb]
      exact List.count_cons_of_ne (ofNat_ne_lineFeed fun h => hb (UInt8.toNat_inj.mp h))
  · rw [h, hbyte hb]
    exact count_replacement done
  · rw [h, hbyte hb]
    rfl

theorem start_long (done : List Char) (b : UInt8) :
    ∀ u ∈ (Reading.start done b).current, u.Long := by
  rcases start_cases done b with h | ⟨_, h | ⟨v, hv, h⟩⟩
  · simp [h]
  · simp [h]
  · rw [h]
    exact fun u hu => Option.some.inj hu ▸ hv

/-- Each byte that is a line feed adds one, and no other byte does. -/
theorem step_feeds (h : ∀ u ∈ r.current, u.Long) (b : UInt8) :
    (r.step b).feeds = r.feeds + [b].count lineFeed ∧ ∀ u ∈ (r.step b).current, u.Long := by
  obtain ⟨done, _ | u⟩ := r
  · exact ⟨start_feeds done b, start_long done b⟩
  obtain ⟨hlow, hlong⟩ : u.Long := h u rfl
  unfold Reading.step
  simp only
  split
  next hb =>
    have hle : u.low.toNat ≤ b.toNat := UInt8.le_iff_toNat_le.mp hb.1
    have hbyte : [b].count lineFeed = 0 := by
      refine List.count_eq_zero.mpr fun hmem => ?_
      have hfeed : b.toNat = 10 := congrArg UInt8.toNat (List.mem_singleton.mp hmem).symm
      omega
    have hcode : 16 ≤ u.code * 64 + (b.toNat - 0x80) := by omega
    rw [hbyte, Nat.add_zero]
    split
    next => exact ⟨List.count_cons_of_ne (ofNat_ne_lineFeed (by omega)), nofun⟩
    next =>
      refine ⟨by simp only [Reading.feeds], fun v hv => ?_⟩
      obtain rfl := Option.some.inj hv
      exact ⟨Nat.le_refl _, Nat.le_add_right_of_le (by simp only; omega)⟩
  next =>
    refine ⟨?_, start_long _ b⟩
    rw [start_feeds, count_replacement]
    rfl

/-- The text of any bytes has as many line feeds as the bytes. -/
theorem count_lossyText (b : Bytes) : b.lossyText.toList.count '\n' = b.count lineFeed := by
  have hfold (r : Reading) (h : ∀ u ∈ r.current, u.Long) :
      (b.foldl Reading.step r).feeds = r.feeds + b.count lineFeed := by
    induction b generalizing r with
    | nil => rfl
    | cons c b ih =>
      obtain ⟨hfeeds, hlong⟩ := step_feeds h c
      have hcount : (c :: b).count lineFeed = [c].count lineFeed + b.count lineFeed := by
        rw [← List.count_append, List.singleton_append]
      rw [List.foldl_cons, ih _ hlong, hfeeds, hcount, Nat.add_assoc]
  have hfinish (r : Reading) : r.finish.count '\n' = r.feeds := by
    unfold Reading.finish
    split
    · exact List.count_reverse
    · exact List.count_reverse.trans (count_replacement _)
  rw [lossyText, String.toList_ofList, hfinish, hfold _ (by simp)]
  exact Nat.zero_add _

end

end Bytes

end EventStream
