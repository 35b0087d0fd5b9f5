import EventStream.Proofs.Json.Numerals
import EventStream.Proofs.Traversal

namespace EventStream.Json

def Spaces (w : Bytes) : Prop :=
  ∀ b ∈ w, isSpace b = true

section
variable {w s t : Bytes} {b : UInt8}

theorem skipSpace_append (hw : Spaces w) : skipSpace (w ++ t) = skipSpace t :=
  List.dropWhile_append_of_pos hw

theorem skipSpace_cons (h : isSpace b = false) : skipSpace (b :: t) = b :: t := by
  simp [skipSpace, h]

theorem exists_spaces (b : Bytes) : ∃ w, b = w ++ skipSpace b ∧ Spaces w :=
  ⟨b.takeWhile isSpace, List.takeWhile_append_dropWhile.symm,
    fun _ hc => List.mem_takeWhile_imp hc⟩

theorem spaces_of_skipSpace (h : skipSpace s = []) : Spaces s :=
  List.dropWhile_eq_nil_iff.mp h

theorem isSpace_iff : isSpace b = true ↔ b = 0x20 ∨ b = 0x09 ∨ b = 0x0A ∨ b = 0x0D := by
  simp [isSpace, or_assoc]

theorem Spaces.nests (h : Spaces w) : Nests 0 w := by
  apply nests_of_isCalm
  intro b hb
  rcases isSpace_iff.mp (h b hb) with rfl | rfl | rfl | rfl <;> rfl

theorem ends_cons (h : goesOn b = false) : Ends (b :: t) := by
  intro c hc
  cases hc
  exact h

theorem Spaces.ends (hw : Spaces w) (ht : Ends t) : Ends (w ++ t) := by
  cases w with
  | nil => exact ht
  | cons c w =>
    apply ends_cons
    rcases isSpace_iff.mp (hw c List.mem_cons_self) with rfl | rfl | rfl | rfl <;> rfl

end

section
variable {α κ : Type}

/-- A text that starts neither with a space nor with a closing bracket. -/
def Begins (s : Bytes) : Prop :=
  ∃ b t, s = b :: t ∧ isSpace b = false ∧ b ≠ 0x5D ∧ b ≠ 0x7D

/-- A text that a reader takes whatever follows it. -/
structure IsItem (r : Reader α) (s : Bytes) (x : α) : Prop where
  begins : Begins s
  reads : ∀ t, Ends t → r (s ++ t) = some (x, t)

/-- A text with spaces around it. -/
inductive Spaced (item : Nat → Bytes → α → Prop) (n : Nat) : Bytes → α → Prop
  | intro {w s v x} : Spaces w → item n s x → Spaces v → Spaced item n (w ++ (s ++ v)) x

/-- Items with spaces around each, a comma between neighbours and the bracket that closes them;
the number is the greatest of theirs. -/
inductive Listed (close : UInt8) (item : Nat → Bytes → α → Prop) : Nat → Bytes → List α → Prop
  | last {w s v n x} : Spaces w → item n s x → Spaces v →
      Listed close item n (w ++ (s ++ (v ++ [close]))) [x]
  | more {w s v n x m rest xs} : Spaces w → item n s x → Spaces v →
      Listed close item m rest xs →
      Listed close item (max n m) (w ++ (s ++ (v ++ 0x2C :: rest))) (x :: xs)

section
variable {close : UInt8} {item : Nat → Bytes → α → Prop} {n : Nat} {s : Bytes} {xs : List α}

theorem Spaced.nests {x : α} (hi : ∀ n s x, item n s x → Nests n s) (h : Spaced item n s x) :
    Nests n s := by
  obtain ⟨hw, hx, hv⟩ := h
  exact hw.nests.zero_append ((hi _ _ _ hx).append_zero hv.nests)

theorem Listed.length_le (h : Listed close item n s xs) (hi : ∀ n s x, item n s x → s ≠ []) :
    xs.length < s.length := by
  induction h with
  | last _ hx _ =>
    have := List.length_pos_iff.mpr (hi _ _ _ hx)
    simp
    omega
  | more _ hx _ _ ih =>
    have := List.length_pos_iff.mpr (hi _ _ _ hx)
    simp
    omega

/-- A reader that makes something of each item, or fails at it, does so with a list. -/
theorem Listed.maps {β : Type} {r : Reader β} {f : α → Option β}
    (hclose : close = 0x5D ∨ close = 0x7D) (h : Listed close item n s xs)
    (hi : ∀ n s x, item n s x → Begins s)
    (hr : ∀ m s' x t, m ≤ n → s'.length < s.length → item m s' x → Ends t →
      r (s' ++ t) = (f x).map fun y => (y, t)) {fuel : Nat}
    (hf : xs.length ≤ fuel) (done : List β) (t : Bytes) :
    itemsFrom close r fuel done (s ++ t) = (xs.mapM f).map fun ys => (done.reverse ++ ys, t) := by
  have hspace : isSpace close = false ∧ goesOn close = false ∧ close ≠ 0x2C := by
    rcases hclose with rfl | rfl <;> decide
  induction h generalizing fuel done with
  | @last w s v n x hw hx hv =>
    obtain ⟨b, u, hs, hb, _⟩ := hi n s x hx
    obtain ⟨fuel, rfl⟩ := Nat.exists_eq_succ_of_ne_zero (show fuel ≠ 0 by simp at hf; omega)
    have hskip : skipSpace (w ++ (s ++ (v ++ [close])) ++ t) = s ++ (v ++ close :: t) := by
      simp only [List.append_assoc, skipSpace_append hw, List.singleton_append]
      rw [hs]
      exact skipSpace_cons hb
    rw [itemsFrom, hskip, hr n s x _ le_rfl (by simp; omega) hx (hv.ends (ends_cons hspace.2.1))]
    cases hy : f x with
    | none => simp [hy]
    | some y =>
      simp only [Option.map_some, skipSpace_append hv, skipSpace_cons hspace.1]
      simp [hspace.2.2, hy]
  | @more w s v n x m rest xs hw hx hv hrest ih =>
    obtain ⟨b, u, hs, hb, _⟩ := hi n s x hx
    obtain ⟨fuel, rfl⟩ := Nat.exists_eq_succ_of_ne_zero (show fuel ≠ 0 by simp at hf; omega)
    have hskip : skipSpace (w ++ (s ++ (v ++ 0x2C :: rest)) ++ t) =
        s ++ (v ++ 0x2C :: (rest ++ t)) := by
      simp only [List.append_assoc, skipSpace_append hw, List.cons_append]
      rw [hs]
      exact skipSpace_cons hb
    rw [itemsFrom, hskip, hr n s x _ (by omega) (by simp; omega) hx (hv.ends (ends_cons rfl))]
    cases hy : f x with
    | none => simp [hy]
    | some y =>
      simp only [Option.map_some, skipSpace_append hv,
        skipSpace_cons (show isSpace 0x2C = false from rfl), if_true]
      rw [ih (fun m' s' x' t' hm hl => hr m' s' x' t' (by omega) (by simp; omega))
        (by simpa using hf)]
      cases hys : xs.mapM f <;> simp [hy, hys]

/-- What has been read as a list of items is one. -/
theorem listed_of_itemsFrom {r : Reader α}
    (hr : ∀ b x rest, r b = some (x, rest) → ∃ s n, b = s ++ rest ∧ item n s x) {fuel : Nat}
    {done : List α} {b rest : Bytes} (h : itemsFrom close r fuel done b = some (xs, rest)) :
    ∃ s n new, b = s ++ rest ∧ xs = done.reverse ++ new ∧ Listed close item n s new := by
  induction fuel generalizing done b with
  | zero => cases h
  | succ fuel ih =>
    unfold itemsFrom at h
    obtain ⟨w, hb, hw⟩ := exists_spaces b
    split at h
    next => cases h
    next x r' hx =>
      obtain ⟨s, n, hs, hitem⟩ := hr _ _ _ hx
      obtain ⟨v, hv', hv⟩ := exists_spaces r'
      split at h
      next => cases h
      next c r'' hc =>
        rw [hs, hv', hc] at hb
        split at h
        next hcomma =>
          obtain ⟨s', m, new, rfl, rfl, hl⟩ := ih h
          refine ⟨_, _, x :: new, ?_, ?_, .more hw hitem hv hl⟩
          · rw [hb, hcomma]
            simp
          · simp
        next =>
          split at h
          next hclose =>
            cases h
            refine ⟨_, _, [x], ?_, ?_, .last hw hitem hv⟩
            · rw [hb, hclose]
              simp
            · simp
          next => cases h

end
end

section
variable {α : Type} {close : UInt8} {item : Nat → Bytes → α → Prop}

/-- The text of a list of items up to the bracket that closes it, after the opening one. -/
inductive Enclosed (close : UInt8) (item : Nat → Bytes → α → Prop) : Nat → Bytes → List α → Prop
  | empty {w} : Spaces w → Enclosed close item 0 (w ++ [close]) []
  | listed {n s xs} : Listed close item n s xs → Enclosed close item n s xs

variable {n : Nat} {s w : Bytes} {xs : List α}

theorem Listed.begins (h : Listed close item n s xs) (hi : ∀ n s x, item n s x → Begins s) :
    ∃ w b t, s = w ++ b :: t ∧ Spaces w ∧ isSpace b = false ∧ b ≠ 0x5D ∧ b ≠ 0x7D := by
  cases h with
  | last hw hx _ =>
    obtain ⟨b, t, rfl, hb⟩ := hi _ _ _ hx
    exact ⟨_, b, _, rfl, hw, hb⟩
  | more hw hx _ _ =>
    obtain ⟨b, t, rfl, hb⟩ := hi _ _ _ hx
    exact ⟨_, b, _, rfl, hw, hb⟩

theorem Spaces.append {v : Bytes} (hw : Spaces w) (hv : Spaces v) : Spaces (w ++ v) :=
  fun b hb => (List.mem_append.mp hb).elim (hw b) (hv b)

theorem Listed.spaced (hw : Spaces w) (h : Listed close item n s xs) :
    Listed close item n (w ++ s) xs := by
  cases h with
  | last hv hx hu => exact List.append_assoc w _ _ ▸ .last (hw.append hv) hx hu
  | more hv hx hu hrest => exact List.append_assoc w _ _ ▸ .more (hw.append hv) hx hu hrest

theorem Listed.imp {item' : Nat → Bytes → α → Prop} (hi : ∀ n s x, item n s x → item' n s x)
    (h : Listed close item n s xs) : Listed close item' n s xs := by
  induction h with
  | last hw hx hv => exact .last hw (hi _ _ _ hx) hv
  | more hw hx hv _ ih => exact .more hw (hi _ _ _ hx) hv ih

theorem Listed.le {d : Nat} (hi : ∀ n s x, item n s x → n ≤ d) (h : Listed close item n s xs) :
    n ≤ d := by
  induction h with
  | last _ hx _ => exact hi _ _ _ hx
  | more _ hx _ _ ih => exact Nat.max_le.mpr ⟨hi _ _ _ hx, ih⟩

theorem Listed.nests (hi : ∀ n s x, item n s x → Nests n s) (h : Listed close item n s xs) :
    ∃ body, s = body ++ [close] ∧ Nests n body := by
  induction h with
  | last hw hx hv =>
    refine ⟨_, ?_, hw.nests.zero_append ((hi _ _ _ hx).append_zero hv.nests)⟩
    simp only [List.append_assoc]
  | @more w s v n x m rest xs hw hx hv _ ih =>
    obtain ⟨body, rfl, hbody⟩ := ih
    have hcomma : Nests m (0x2C :: body) :=
      (nests_of_isCalm (s := [0x2C]) (List.all_eq_true.mp rfl)).zero_append hbody
    refine ⟨w ++ (s ++ (v ++ 0x2C :: body)), by simp only [List.append_assoc, List.cons_append], ?_⟩
    exact hw.nests.zero_append ((hi _ _ _ hx).append (hv.nests.zero_append hcomma))

theorem Enclosed.imp {item' : Nat → Bytes → α → Prop} (hi : ∀ n s x, item n s x → item' n s x)
    (h : Enclosed close item n s xs) : Enclosed close item' n s xs := by
  cases h with
  | empty hw => exact .empty hw
  | listed h => exact .listed (h.imp hi)

theorem Enclosed.le {d : Nat} (hi : ∀ n s x, item n s x → n ≤ d)
    (h : Enclosed close item n s xs) : n ≤ d := by
  cases h with
  | empty => exact Nat.zero_le d
  | listed h => exact h.le hi

theorem Enclosed.nests (hi : ∀ n s x, item n s x → Nests n s) (h : Enclosed close item n s xs) :
    ∃ body, s = body ++ [close] ∧ Nests n body := by
  cases h with
  | empty hw => exact ⟨_, rfl, hw.nests⟩
  | listed h => exact h.nests hi

theorem Enclosed.maps {β : Type} {r : Reader β} {f : α → Option β}
    (hclose : close = 0x5D ∨ close = 0x7D) (h : Enclosed close item n s xs)
    (hi : ∀ n s x, item n s x → Begins s)
    (hr : ∀ m s' x t, m ≤ n → s'.length < s.length → item m s' x → Ends t →
      r (s' ++ t) = (f x).map fun y => (y, t)) {fuel : Nat}
    (hf : s.length ≤ fuel) (t : Bytes) :
    items close r fuel (s ++ t) = (xs.mapM f).map fun ys => (ys, t) := by
  have hspace : isSpace close = false := by rcases hclose with rfl | rfl <;> rfl
  cases h with
  | empty hw =>
    rw [items, List.append_assoc, skipSpace_append hw, List.singleton_append,
      skipSpace_cons hspace]
    simp
  | listed h =>
    obtain ⟨w, b, u, hs, hw, hb, h5D, h7D⟩ := h.begins hi
    have hlt : xs.length < s.length := h.length_le fun n s x hx => by
      obtain ⟨_, _, rfl, _⟩ := hi n s x hx
      simp
    have hread := h.maps hclose hi hr (show xs.length ≤ fuel by omega) [] t
    have hskip : skipSpace (s ++ t) = b :: (u ++ t) := by
      rw [hs, List.append_assoc, skipSpace_append hw, List.cons_append, skipSpace_cons hb]
    have hne : b ≠ close := by rcases hclose with rfl | rfl <;> assumption
    -- the first item is looked for once more where its spaces have been skipped
    have hagain :
        itemsFrom close r fuel [] (b :: (u ++ t)) = itemsFrom close r fuel [] (s ++ t) := by
      cases fuel with
      | zero => rfl
      | succ fuel => rw [itemsFrom, itemsFrom, hskip, skipSpace_cons hb]
    rw [items, hskip]
    simp only [if_neg hne]
    rw [hagain, hread]
    rfl

/-- Items that a reader takes one by one are taken as a list. -/
theorem Enclosed.reads {r : Reader α} (hclose : close = 0x5D ∨ close = 0x7D)
    (h : Enclosed close item n s xs) (hi : ∀ n s x, item n s x → Begins s)
    (hr : ∀ m s' x, m ≤ n → s'.length < s.length → item m s' x → IsItem r s' x) {fuel : Nat}
    (hf : s.length ≤ fuel) (t : Bytes) : items close r fuel (s ++ t) = some (xs, t) := by
  rw [h.maps (f := some) hclose hi (fun m s' x t hm hl hx ht => (hr m s' x hm hl hx).reads t ht) hf
    t, mapM_some]
  rfl

theorem enclosed_of_items {r : Reader α}
    (hr : ∀ b x rest, r b = some (x, rest) → ∃ s n, b = s ++ rest ∧ item n s x) {fuel : Nat}
    {b rest : Bytes} (h : items close r fuel b = some (xs, rest)) :
    ∃ s n, b = s ++ rest ∧ Enclosed close item n s xs := by
  obtain ⟨w, hb, hw⟩ := exists_spaces b
  unfold items at h
  split at h
  next => cases h
  next c r' hc =>
    split at h
    next hclose =>
      cases h
      refine ⟨_, _, ?_, .empty hw⟩
      rw [hb, hc, hclose]
      simp
    next =>
      obtain ⟨s, n, new, hs, rfl, hl⟩ := listed_of_itemsFrom hr h
      refine ⟨w ++ s, n, ?_, .listed (hl.spaced hw)⟩
      rw [hb, hc, hs, List.append_assoc]

/-- The bound of the items is one of the whole. -/
theorem bounded_of_items {depth : Nat} {r : Reader α}
    (hr : ∀ b x rest, r b = some (x, rest) → ∃ s n, b = s ++ rest ∧ n ≤ depth ∧ item n s x)
    {fuel : Nat} {b rest : Bytes} (h : items close r fuel b = some (xs, rest)) :
    ∃ s n, b = s ++ rest ∧ n ≤ depth ∧ Enclosed close item n s xs := by
  obtain ⟨s, n, hs, hx⟩ := enclosed_of_items hr h
  exact ⟨s, n, hs, hx.le fun _ _ _ hx => hx.1, hx.imp fun _ _ _ hx => hx.2⟩

end

section
variable {κ α : Type} {c : Contents κ α} {n : Nat} {s : Bytes} {x : α}

/-- A text that is read as `x` wherever `n` more brackets may open. -/
structure Contents.IsValue (c : Contents κ α) (n : Nat) (s : Bytes) (x : α) : Prop where
  begins : Begins s
  nests : Nests n s
  reads : ∀ fuel depth t, s.length ≤ fuel → n ≤ depth → Ends t →
    c.nested fuel depth (s ++ t) = some (x, t)

/-- A key, a colon and a value, with spaces around the colon. -/
inductive Contents.IsMember (c : Contents κ α) : Nat → Bytes → κ × α → Prop
  | intro {ks k w v n s x} : IsAtom c.key ks k → Spaces w → Spaces v → c.IsValue n s x →
      c.IsMember n (ks ++ (w ++ 0x3A :: (v ++ s))) (k, x)

/-- Keys and scalars are read alike whatever follows them. -/
structure Contents.Lawful (c : Contents κ α) : Prop where
  key : IsLocal c.key
  scalar : IsLocal c.scalar

theorem begins_of_isBracket {b : UInt8} {t : Bytes} (hs : isSpace b = false)
    (hb : isBracket b = false) : Begins (b :: t) := by
  refine ⟨b, t, rfl, hs, ?_, ?_⟩
  all_goals
    rintro rfl
    exact nomatch hb

theorem Contents.IsValue.of_atom (h : IsAtom c.scalar s x) : c.IsValue 0 s x := by
  obtain ⟨b, r, rfl, hs, hb⟩ := h.begins
  refine ⟨begins_of_isBracket hs hb, h.nests, fun fuel depth t _ _ ht => ?_⟩
  rw [← h.reads t ht]
  cases depth with
  | zero => rfl
  | succ depth =>
    apply Contents.nested.eq_4
    all_goals
      rintro r' h
      injection h with h _
      rw [h] at hb
      exact nomatch hb

theorem Contents.IsValue.array {xs : List α} (h : Enclosed 0x5D c.IsValue n s xs) :
    c.IsValue (n + 1) (0x5B :: s) (c.array xs) where
  begins := ⟨0x5B, s, rfl, by decide⟩
  nests := by
    obtain ⟨body, rfl, hbody⟩ := h.nests fun _ _ _ hx => hx.nests
    exact hbody.enclosed (.inl rfl) (.inl rfl)
  reads fuel depth t hf hd _ := by
    rw [List.length_cons] at hf
    obtain ⟨depth, rfl⟩ := Nat.exists_eq_succ_of_ne_zero (show depth ≠ 0 by omega)
    have hitems : items 0x5D (c.nested fuel depth) fuel (s ++ t) = some (xs, t) := by
      refine h.reads (.inl rfl) (fun _ _ _ hx => hx.begins) (fun m s' x hm hl hx => ?_) (by omega) t
      exact ⟨hx.begins, fun t ht => hx.reads _ _ t (by omega) (by omega) ht⟩
    rw [List.cons_append, Contents.nested, hitems]
    rfl

theorem Contents.IsMember.begins {e : κ × α} (h : c.IsMember n s e) : Begins s := by
  obtain ⟨hk, _, _, _⟩ := h
  obtain ⟨b, r, rfl, hs, hb⟩ := hk.begins
  exact begins_of_isBracket hs hb

theorem Contents.IsMember.nests {e : κ × α} (h : c.IsMember n s e) : Nests n s := by
  obtain ⟨hk, hw, hv, hx⟩ := h
  have hcolon : Nests 0 [0x3A] := nests_of_isCalm (List.all_eq_true.mp rfl)
  have hrest := hcolon.zero_append (hv.nests.zero_append hx.nests)
  exact hk.nests.zero_append (hw.nests.zero_append hrest)

/-- A key and a colon, and then what becomes of the value. -/
theorem member_eq {key : Reader κ} {value : κ → Reader α} {ks w v s t : Bytes} {k : κ}
    (hk : IsAtom key ks k) (hw : Spaces w) (hv : Spaces v) (hs : Begins s) :
    member key value (ks ++ (w ++ 0x3A :: (v ++ s)) ++ t) =
      (value k (s ++ t)).map fun (x, r) => ((k, x), r) := by
  obtain ⟨b, r, hb, hspace, _⟩ := hs
  have hkey : key (ks ++ (w ++ 0x3A :: (v ++ s)) ++ t) = some (k, w ++ 0x3A :: (v ++ (s ++ t))) := by
    rw [List.append_assoc, hk.reads _ (by simpa using hw.ends (ends_cons rfl))]
    simp
  have hskip : skipSpace (v ++ (s ++ t)) = s ++ t := by
    rw [skipSpace_append hv, hb]
    exact skipSpace_cons hspace
  have hcolon : skipSpace (w ++ 0x3A :: (v ++ (s ++ t))) = 0x3A :: (v ++ (s ++ t)) := by
    rw [skipSpace_append hw, skipSpace_cons rfl]
  rw [member, hkey]
  simp only [hcolon, hskip]

theorem member_reads {key : Reader κ} {value : κ → Reader α} {ks w v t : Bytes} {k : κ}
    (hk : IsAtom key ks k) (hw : Spaces w) (hv : Spaces v) (hs : Begins s)
    (hx : value k (s ++ t) = some (x, t)) :
    member key value (ks ++ (w ++ 0x3A :: (v ++ s)) ++ t) = some ((k, x), t) := by
  rw [member_eq hk hw hv hs, hx]
  rfl

theorem Contents.IsMember.reads {e : κ × α} (h : c.IsMember n s e) {fuel depth : Nat} {t : Bytes}
    (hf : s.length ≤ fuel) (hd : n ≤ depth) (ht : Ends t) :
    member c.key (fun _ => c.nested fuel depth) (s ++ t) = some (e, t) := by
  obtain @⟨ks, k, w, v, n, s, x, hk, hw, hv, hx⟩ := h
  have hlen : s.length ≤ fuel := by
    simp only [List.length_append, List.length_cons] at hf
    omega
  exact member_reads hk hw hv hx.begins (hx.reads fuel depth t hlen hd ht)

theorem Contents.IsValue.object {es : List (κ × α)} (h : Enclosed 0x7D c.IsMember n s es) :
    c.IsValue (n + 1) (0x7B :: s) (c.object es) where
  begins := ⟨0x7B, s, rfl, by decide⟩
  nests := by
    obtain ⟨body, rfl, hbody⟩ := h.nests fun _ _ _ hx => hx.nests
    exact hbody.enclosed (.inr rfl) (.inr rfl)
  reads fuel depth t hf hd _ := by
    rw [List.length_cons] at hf
    obtain ⟨depth, rfl⟩ := Nat.exists_eq_succ_of_ne_zero (show depth ≠ 0 by omega)
    have hitems : members c.key (fun _ => c.nested fuel depth) fuel (s ++ t) = some (es, t) := by
      refine h.reads (.inr rfl) (fun _ _ _ hx => hx.begins) (fun m s' x hm hl hx => ?_) (by omega) t
      exact ⟨hx.begins, fun t ht => hx.reads (by omega) (by omega) ht⟩
    rw [List.cons_append, Contents.nested, hitems]
    rfl

theorem Contents.IsMember.of_member {value : Reader α} {depth : Nat} (hk : IsLocal c.key)
    (hv : ∀ b x rest, value b = some (x, rest) →
      ∃ s n, b = s ++ rest ∧ n ≤ depth ∧ c.IsValue n s x)
    {b rest : Bytes} {e : κ × α} (h : member c.key (fun _ => value) b = some (e, rest)) :
    ∃ s n, b = s ++ rest ∧ n ≤ depth ∧ c.IsMember n s e := by
  unfold member at h
  split at h
  next => cases h
  next k r hkey =>
    obtain ⟨ks, rfl, hks⟩ := hk _ _ _ hkey
    obtain ⟨w, hr, hw⟩ := exists_spaces r
    split at h
    next r' hcolon =>
      obtain ⟨⟨x, _⟩, hx, he⟩ := Option.map_eq_some_iff.mp h
      cases he
      obtain ⟨v, hr', hv'⟩ := exists_spaces r'
      obtain ⟨s, n, hs, hn, hx⟩ := hv _ _ _ hx
      refine ⟨_, n, ?_, hn, .intro hks hw hv' hx⟩
      rw [hr, hcolon, hr', hs]
      simp
    next => cases h

/-- A value is an object, a list or a scalar, by the first byte of its text. -/
theorem Contents.nested_cases {fuel depth : Nat} {b rest : Bytes}
    (h : c.nested fuel (depth + 1) b = some (x, rest)) :
    (∃ r es, b = 0x7B :: r ∧ x = c.object es ∧
      members c.key (fun _ => c.nested fuel depth) fuel r = some (es, rest)) ∨
    (∃ r xs, b = 0x5B :: r ∧ x = c.array xs ∧
      items 0x5D (c.nested fuel depth) fuel r = some (xs, rest)) ∨
    ((∀ r, b ≠ 0x7B :: r) ∧ (∀ r, b ≠ 0x5B :: r) ∧ c.scalar b = some (x, rest)) := by
  unfold Contents.nested at h
  split at h
  next r =>
    obtain ⟨⟨xs, _⟩, hitems, hx⟩ := Option.map_eq_some_iff.mp h
    cases hx
    exact .inr (.inl ⟨r, xs, rfl, rfl, hitems⟩)
  next r =>
    obtain ⟨⟨es, _⟩, hitems, hx⟩ := Option.map_eq_some_iff.mp h
    cases hx
    exact .inl ⟨r, es, rfl, rfl, hitems⟩
  next hlist hobject => exact .inr (.inr ⟨hobject, hlist, h⟩)

/-- What a value is read as does not depend on what follows it. -/
theorem Contents.nested_local (hc : c.Lawful) {fuel depth : Nat} {b rest : Bytes}
    (h : c.nested fuel depth b = some (x, rest)) :
    ∃ s n, b = s ++ rest ∧ n ≤ depth ∧ c.IsValue n s x := by
  induction depth generalizing b x rest with
  | zero =>
    obtain ⟨s, hb, ha⟩ := hc.scalar b x rest h
    exact ⟨s, 0, hb, Nat.le_refl 0, .of_atom ha⟩
  | succ depth ih =>
    have hvalue : ∀ b x rest, c.nested fuel depth b = some (x, rest) →
        ∃ s n, b = s ++ rest ∧ n ≤ depth ∧ c.IsValue n s x := fun _ _ _ h => ih h
    obtain ⟨r, es, rfl, rfl, hitems⟩ | ⟨r, xs, rfl, rfl, hitems⟩ | ⟨_, _, h⟩ := nested_cases h
    · obtain ⟨s, n, rfl, hn, hs⟩ := bounded_of_items
        (fun _ _ _ h => Contents.IsMember.of_member hc.key hvalue h) hitems
      exact ⟨_, n + 1, rfl, Nat.succ_le_succ hn, .object hs⟩
    · obtain ⟨s, n, rfl, hn, hs⟩ := bounded_of_items hvalue hitems
      exact ⟨_, n + 1, rfl, Nat.succ_le_succ hn, .array hs⟩
    · obtain ⟨s, hb, ha⟩ := hc.scalar b x rest h
      exact ⟨s, 0, hb, Nat.zero_le _, .of_atom ha⟩

theorem whole_eq_some {r : Reader α} {b : Bytes} :
    whole r b = some x ↔ ∃ rest, r (skipSpace b) = some (x, rest) ∧ skipSpace rest = [] := by
  unfold whole
  cases r (skipSpace b) with
  | none => simp
  | some p =>
    obtain ⟨y, rest⟩ := p
    by_cases h : skipSpace rest = [] <;> simp [h]

theorem whole_nested_eq_some_iff (hc : c.Lawful) {depth : Nat} {b : Bytes} :
    whole (c.nested (b.length + 1) depth) b = some x ↔ ∃ n ≤ depth, Spaced c.IsValue n b x := by
  constructor
  · intro h
    obtain ⟨w, hb, hw⟩ := exists_spaces b
    obtain ⟨rest, hy, hrest⟩ := whole_eq_some.mp h
    obtain ⟨s, n, hs, hn, hx⟩ := c.nested_local hc hy
    rw [hb, hs]
    exact ⟨n, hn, .intro hw hx (spaces_of_skipSpace hrest)⟩
  · rintro ⟨n, hn, @⟨w, s, v, _, hw, hx, hv⟩⟩
    obtain ⟨b, r, hb, hspace, _⟩ := hx.begins
    have hskip : skipSpace (w ++ (s ++ v)) = s ++ v := by
      rw [skipSpace_append hw, hb]
      exact skipSpace_cons hspace
    have hrest : skipSpace v = [] := List.dropWhile_eq_nil_iff.mpr hv
    have hends : Ends v := by simpa using hv.ends (t := []) (fun _ h => nomatch h)
    refine whole_eq_some.mpr ⟨v, ?_, hrest⟩
    rw [hskip, hx.reads _ _ v (by simp; omega) hn hends]

end

theorem data_lawful : data.Lawful :=
  ⟨quotedText_local, scalar_local⟩

/-- What a JSON text is read as, by its parts. -/
theorem parse?_eq_some_iff {b : Bytes} {j : Json} :
    parse? b = some j ↔ ∃ n ≤ depthLimit, Spaced data.IsValue n b j :=
  whole_nested_eq_some_iff data_lawful

end EventStream.Json
