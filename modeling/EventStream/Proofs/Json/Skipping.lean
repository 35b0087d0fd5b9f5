import EventStream.Proofs.Json.Splicing

namespace EventStream.Json

section
variable {b rest : Bytes}

theorem skippedBody_of_stringBody {high : Option Nat} {done body : Bytes}
    (h : stringBody high done b = some (body, rest)) : skippedBody b = some ((), rest) := by
  fun_induction stringBody high done b with
  | case1 | case3 | case6 | case8 | case10 | case11 | case13 => cases h
  | case2 done a b c d r u hu hh ih => simp [skippedBody, hu, ih h]
  | case4 done a b c d r u hu hh hl ih => simp [skippedBody, hu, ih h]
  | case5 done a b c d r u h' hu hl ih => simp [skippedBody, hu, ih h]
  | case7 done c r hc b hb ih =>
    rw [skippedBody, hb]
    · exact ih h
    · exact fun _ _ _ _ _ hu _ => escaped?_ne_unicode hb hu
  | case9 high done r hn =>
    cases h
    rfl
  | case12 high done b r _ hb hq hn ih =>
    have hslash : b ≠ 0x5C := by
      rintro rfl
      cases r with
      | nil => cases h
      | cons c r => exact hb c r rfl rfl
    rw [skippedBody]
    · rw [if_neg fun hlt => hn (.inl hlt), ih h]
    · exact fun _ _ _ _ _ h => absurd h hslash
    · exact fun _ _ h => absurd h hslash
    · exact hq

theorem skippedString_of_quotedText {s : String} (h : quotedText b = some (s, rest)) :
    skippedString b = some ((), rest) := by
  unfold quotedText at h
  split at h
  next r =>
    obtain ⟨⟨body, r'⟩, hbody, h⟩ := Option.bind_eq_some_iff.mp h
    obtain ⟨text, _, h⟩ := Option.bind_eq_some_iff.mp h
    cases h
    exact skippedBody_of_stringBody hbody
  next => cases h

theorem skippedScalar_of_scalar {j : Json} (h : scalar b = some (j, rest)) :
    skippedScalar b = some ((), rest) := by
  unfold skippedScalar
  split
  next r =>
    obtain ⟨_, hq, he⟩ := Option.map_eq_some_iff.mp h
    cases he
    exact skippedString_of_quotedText hq
  next => rw [h]; rfl
  next => rw [h]; rfl
  next => rw [h]; rfl
  next =>
    rw [scalar.eq_5] at h
    · obtain ⟨⟨n, r⟩, hn, h⟩ := Option.bind_eq_some_iff.mp h
      obtain ⟨_, _, he⟩ := Option.map_eq_some_iff.mp h
      cases he
      rw [hn]
      rfl
    all_goals assumption

end

section
variable {α β κ : Type} {close : UInt8} {fuel : Nat} {b rest : Bytes} {r : Reader α}
  {r' : Reader β}

/-- A list is taken by each reader that takes its items. -/
theorem itemsFrom_of_itemsFrom
    (hr : ∀ b x rest, r b = some (x, rest) → ∃ y, r' b = some (y, rest)) {done xs : List α}
    (done' : List β) (h : itemsFrom close r fuel done b = some (xs, rest)) :
    ∃ ys, itemsFrom close r' fuel done' b = some (ys, rest) := by
  induction fuel generalizing done done' b with
  | zero => cases h
  | succ fuel ih =>
    unfold itemsFrom at h ⊢
    split at h
    next => cases h
    next x s hx =>
      obtain ⟨y, hy⟩ := hr _ _ _ hx
      rw [hy]
      split at h
      next => cases h
      next c s hc =>
        simp only [hc]
        split at h
        next hcomma =>
          rw [if_pos hcomma]
          exact ih _ h
        next hcomma =>
          rw [if_neg hcomma]
          split at h
          next hclose =>
            cases h
            exact ⟨_, if_pos hclose⟩
          next => cases h

theorem items_of_items
    (hr : ∀ b x rest, r b = some (x, rest) → ∃ y, r' b = some (y, rest)) {xs : List α}
    (h : items close r fuel b = some (xs, rest)) :
    ∃ ys, items close r' fuel b = some (ys, rest) := by
  unfold items at h
  split at h
  next => cases h
  next c s hc =>
    simp only [items, hc]
    split at h
    next hclose =>
      cases h
      exact ⟨_, if_pos hclose⟩
    next hclose =>
      rw [if_neg hclose]
      exact itemsFrom_of_itemsFrom hr [] h

theorem member_of_member {key : Reader α} {key' : Reader β} {value : α → Reader κ}
    {value' : Reader Unit}
    (hk : ∀ b x rest, key b = some (x, rest) → ∃ y, key' b = some (y, rest))
    (hv : ∀ k b x rest, value k b = some (x, rest) → value' b = some ((), rest)) {e : α × κ}
    (h : member key value b = some (e, rest)) :
    ∃ y, member key' (fun _ => value') b = some (y, rest) := by
  unfold member at h ⊢
  split at h
  next => cases h
  next k s hkey =>
    obtain ⟨y, hy⟩ := hk _ _ _ hkey
    rw [hy]
    split at h
    next s' hcolon =>
      obtain ⟨⟨x, _⟩, hx, he⟩ := Option.map_eq_some_iff.mp h
      cases he
      refine ⟨(y, ()), ?_⟩
      simp only [hcolon, hv _ _ _ _ hx]
      rfl
    next => cases h

end

section
variable {n fuel depth : Nat} {b s rest : Bytes} {j : Json}

theorem skipped_nested_of_data (h : data.nested fuel depth b = some (j, rest)) :
    skipped.nested fuel depth b = some ((), rest) := by
  induction depth generalizing b j rest with
  | zero => exact skippedScalar_of_scalar h
  | succ depth ih =>
    have hvalue : ∀ b j rest, data.nested fuel depth b = some (j, rest) →
        skipped.nested fuel depth b = some ((), rest) := fun _ _ _ h => ih h
    unfold Contents.nested at h ⊢
    split at h
    next r =>
      obtain ⟨_, hitems, he⟩ := Option.map_eq_some_iff.mp h
      cases he
      obtain ⟨ys, hys⟩ := items_of_items (fun _ _ _ h => ⟨(), hvalue _ _ _ h⟩) hitems
      rw [hys]
      rfl
    next r =>
      obtain ⟨_, hitems, he⟩ := Option.map_eq_some_iff.mp h
      cases he
      obtain ⟨ys, hys⟩ := items_of_items (fun _ _ _ h => member_of_member
        (fun _ _ _ h => ⟨(), skippedString_of_quotedText h⟩) (fun _ => hvalue) h) hitems
      rw [members, show skipped.key = skippedString from rfl, hys]
      rfl
    next => exact skippedScalar_of_scalar h

theorem Scan.step_le (sc : Scan) (b : UInt8) :
    (sc.step b).opened ≤ sc.opened + 1 ∧ (sc.step b).most ≤ max sc.most (sc.opened + 1) := by
  obtain ⟨opened, most, _ | _ | _⟩ := sc <;> simp only [step]
  · split_ifs <;> (simp; try omega)
  · split_ifs <;> simp
  · simp

theorem Scan.most_le (sc : Scan) (s : Bytes) :
    (s.foldl step sc).most ≤ max sc.most (sc.opened + s.length) := by
  induction s generalizing sc with
  | nil => exact Nat.le_max_left _ _
  | cons b s ih =>
    have hnext := ih (sc.step b)
    have hstep := sc.step_le b
    rw [List.foldl_cons, List.length_cons]
    omega

/-- A text is longer than it is deep. -/
theorem Nests.le_length (h : Nests n s) : n ≤ s.length := by
  have hmost := Scan.most_le ⟨0, 0, .outside⟩ s
  rw [h 0 0 (Nat.le_refl 0)] at hmost
  simpa using hmost

/-- A text with the form of a value, however deep it is nested. -/
def IsText (b : Bytes) : Prop :=
  ∃ n, Spaced skipped.IsValue n b ()

theorem isValue_skipped (h : data.IsValue n s j) : skipped.IsValue n s () :=
  ⟨h.begins, h.nests, fun fuel depth t hf hd ht =>
    skipped_nested_of_data (h.reads fuel depth t hf hd ht)⟩

theorem isText_of_parse? (h : parse? b = some j) : IsText b := by
  obtain ⟨hw, hx, hv⟩ := spaced_of_parse? h
  exact ⟨_, .intro hw (isValue_skipped hx) hv⟩

end

end EventStream.Json
