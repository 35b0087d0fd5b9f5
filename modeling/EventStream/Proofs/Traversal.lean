import Mathlib

namespace EventStream

section
variable {ε α β : Type}

theorem bind_eq_ok {x : Except ε α} {f : α → Except ε β} {b : β} :
    x >>= f = .ok b ↔ ∃ a, x = .ok a ∧ f a = .ok b := by
  cases x <;> simp [bind, Except.bind]

theorem bind_eq_error {x : Except ε α} {f : α → Except ε β} {e : ε} :
    x >>= f = .error e ↔ x = .error e ∨ ∃ a, x = .ok a ∧ f a = .error e := by
  cases x <;> simp [bind, Except.bind]

theorem bind_fails {x : Except ε α} {f : α → Except ε β}
    (h : ∀ a, x = .ok a → ∃ e, f a = .error e) : ∃ e, x >>= f = .error e := by
  cases x with
  | error e => exact ⟨e, rfl⟩
  | ok a => exact h a rfl

/-- What holds of the result of a computation, and what of its error. -/
def Yields (P : α → Prop) (E : ε → Prop) (x : Except ε α) : Prop :=
  (∀ a, x = .ok a → P a) ∧ ∀ e, x = .error e → E e

section
variable {P : α → Prop} {Q : β → Prop} {E : ε → Prop}

theorem yields_ok {a : α} (h : P a) : Yields P E (.ok a : Except ε α) :=
  ⟨fun _ hb => Except.ok.inj hb ▸ h, nofun⟩

theorem yields_error {e : ε} (h : E e) : Yields P E (.error e : Except ε α) :=
  ⟨nofun, fun _ hd => Except.error.inj hd ▸ h⟩

theorem Yields.bind {x : Except ε α} {f : α → Except ε β} (hx : Yields P E x)
    (hf : ∀ a, P a → Yields Q E (f a)) : Yields Q E (x >>= f) := by
  cases x with
  | ok a => exact hf a (hx.1 a rfl)
  | error e => exact yields_error (hx.2 e rfl)

end

theorem refused_unless_eq_ok {p : Prop} [Decidable p] {e : ε} {x : Except ε α} {a : α}
    (h : (if p then .error e else x) = .ok a) : ¬p ∧ x = .ok a := by
  split at h
  next => cases h
  next hp => exact ⟨hp, h⟩

theorem map_eq_ok {x : Except ε α} {f : α → β} {b : β} :
    x.map f = .ok b ↔ ∃ a, x = .ok a ∧ f a = b := by
  cases x <;> simp [Except.map]

theorem map_eq_error {x : Except ε α} {f : α → β} {e : ε} : x.map f = .error e ↔ x = .error e := by
  cases x <;> simp [Except.map]

theorem mapError_eq_error {f : ε → β} {d : β} {x : Except ε α} :
    x.mapError f = .error d ↔ ∃ e, x = .error e ∧ f e = d := by
  cases x <;> simp [Except.mapError]

/-- A traversal succeeds when it does at every place. -/
theorem mapM_eq_ok {f : α → Except ε β} {xs : List α} {ys : List β} :
    xs.mapM f = .ok ys ↔ List.Forall₂ (fun x y => f x = .ok y) xs ys := by
  induction xs generalizing ys with
  | nil =>
    rw [List.mapM_nil, List.forall₂_nil_left_iff]
    exact ⟨fun h => (Except.ok.inj h).symm, fun h => h ▸ rfl⟩
  | cons x xs ih =>
    rw [List.mapM_cons, bind_eq_ok, List.forall₂_cons_left_iff]
    constructor
    · rintro ⟨y, hy, h⟩
      obtain ⟨tail, ht, h⟩ := bind_eq_ok.mp h
      cases Except.ok.inj h
      exact ⟨y, tail, hy, ih.mp ht, rfl⟩
    · rintro ⟨y, tail, hy, ht, rfl⟩
      exact ⟨y, hy, bind_eq_ok.mpr ⟨tail, ih.mpr ht, rfl⟩⟩

theorem mapM_ok_of_mem {f : α → Except ε β} {xs : List α} {ys : List β} {x : α}
    (h : xs.mapM f = .ok ys) (hx : x ∈ xs) : ∃ y, f x = .ok y := by
  have hf := mapM_eq_ok.mp h
  clear h
  induction hf with
  | nil => simp at hx
  | @cons z y xs ys hz _ ih =>
    rcases List.mem_cons.mp hx with rfl | hx
    · exact ⟨y, hz⟩
    · exact ih hx

/-- A traversal fails as one of its places does. -/
theorem mapM_error {f : α → Except ε β} {xs : List α} {e : ε} (h : xs.mapM f = .error e) :
    ∃ x ∈ xs, f x = .error e := by
  induction xs with
  | nil => cases h
  | cons x xs ih =>
    rw [List.mapM_cons] at h
    rcases bind_eq_error.mp h with hx | ⟨y, _, h⟩
    · exact ⟨x, by simp, hx⟩
    · rcases bind_eq_error.mp h with ht | ⟨_, _, h⟩
      · obtain ⟨z, hz, he⟩ := ih ht
        exact ⟨z, List.mem_cons_of_mem x hz, he⟩
      · cases h

theorem yields_mapM {f : α → Except ε β} {xs : List α} {E : ε → Prop}
    (h : ∀ x ∈ xs, Yields (fun _ => True) E (f x)) : Yields (fun _ => True) E (xs.mapM f) := by
  refine ⟨fun _ _ => trivial, fun e he => ?_⟩
  obtain ⟨x, hx, herror⟩ := mapM_error he
  exact (h x hx).2 e herror

theorem mapM_ne_error {f : α → Except ε β} {xs : List α} {e : ε}
    (h : ∀ x ∈ xs, ∃ y, f x = .ok y) : xs.mapM f ≠ .error e := by
  intro he
  obtain ⟨x, hx, herr⟩ := mapM_error he
  obtain ⟨y, hy⟩ := h x hx
  cases hy.symm.trans herr

theorem mapM_congr {f g : α → Except ε β} {xs : List α} (h : ∀ x ∈ xs, f x = g x) :
    xs.mapM f = xs.mapM g := by
  induction xs with
  | nil => rfl
  | cons x xs ih =>
    rw [List.mapM_cons, List.mapM_cons, h x List.mem_cons_self,
      ih fun y hy => h y (List.mem_cons_of_mem x hy)]

theorem option_mapM_congr {f g : α → Except ε β} {x : Option α} (h : ∀ a, x = some a → f a = g a) :
    x.mapM f = x.mapM g := by
  cases x with
  | none => rfl
  | some a => exact congrArg (Except.map some) (h a rfl)

/-- A missing operand cannot fail. -/
theorem option_mapM_eq_ok {f : α → Except ε β} {x : Option α} {y : Option β} :
    x.mapM f = .ok y ↔
      (x = none ∧ y = none) ∨ ∃ a b, x = some a ∧ y = some b ∧ f a = .ok b := by
  cases x with
  | none =>
    constructor
    · intro h
      cases Except.ok.inj h
      exact .inl ⟨rfl, rfl⟩
    · rintro (⟨_, rfl⟩ | ⟨a, b, ha, _⟩)
      · rfl
      · cases ha
  | some a =>
    have hmap : (some a).mapM f = (f a).map some := rfl
    rw [hmap, map_eq_ok]
    constructor
    · rintro ⟨b, hb, rfl⟩
      exact .inr ⟨a, b, rfl, rfl, hb⟩
    · rintro (⟨ha, _⟩ | ⟨c, b, ha, rfl, hb⟩)
      · cases ha
      · cases Option.some.inj ha
        exact ⟨b, hb, rfl⟩

theorem option_mapM_error {f : α → Except ε β} {x : Option α} {e : ε}
    (h : x.mapM f = .error e) : ∃ a, x = some a ∧ f a = .error e := by
  cases x with
  | none => cases h
  | some a =>
    have hmap : (some a).mapM f = (f a).map some := rfl
    rw [hmap] at h
    cases hf : f a with
    | error d => rw [hf] at h; cases h; exact ⟨a, rfl, hf⟩
    | ok b => rw [hf] at h; cases h

end

/-- The same for a traversal that has no error to tell. -/
theorem mapM_eq_some {α β : Type} {f : α → Option β} {xs : List α} {ys : List β} :
    xs.mapM f = some ys ↔ List.Forall₂ (fun x y => f x = some y) xs ys := by
  induction xs generalizing ys with
  | nil => simp [eq_comm]
  | cons x xs ih =>
    rw [List.mapM_cons, List.forall₂_cons_left_iff]
    simp only [← ih, Option.bind_eq_bind, Option.bind_eq_some_iff, Option.pure_def,
      Option.some.injEq]
    constructor
    · rintro ⟨y, hy, tail, ht, rfl⟩
      exact ⟨y, tail, hy, ht, rfl⟩
    · rintro ⟨y, tail, hy, ht, rfl⟩
      exact ⟨y, hy, tail, ht, rfl⟩

theorem isSome_mapM {α β : Type} {f : α → Option β} {xs : List α} :
    (xs.mapM f).isSome ↔ ∀ x ∈ xs, (f x).isSome := by
  induction xs with
  | nil => simp
  | cons x xs ih =>
    rw [List.mapM_cons, List.forall_mem_cons, ← ih]
    cases f x with
    | none => simp
    | some y => cases xs.mapM f <;> simp

theorem mapM_some {α : Type} (xs : List α) : xs.mapM some = some xs :=
  mapM_eq_some.mpr (List.forall₂_same.mpr fun _ _ => rfl)

theorem filterMap_append_singleton {α β : Type} (f : α → Option β) (xs : List α) (x : α) :
    (xs ++ [x]).filterMap f = xs.filterMap f ++ (f x).toList := by
  rw [List.filterMap_append]
  cases hx : f x <;> simp [hx]

section
variable {ε ε' α β γ : Type} {R : β → γ → Prop} {f : α → Except ε β} {g : α → Except ε' γ}

/-- Two traversals of one list have related results when they have them in every place. -/
theorem mapM_forall₂ {xs : List α} {ys : List β} {zs : List γ} (hf : xs.mapM f = .ok ys)
    (hg : xs.mapM g = .ok zs)
    (h : ∀ x ∈ xs, ∀ y z, f x = .ok y → g x = .ok z → R y z) : List.Forall₂ R ys zs := by
  have hy := mapM_eq_ok.mp hf
  have hz := mapM_eq_ok.mp hg
  clear hf hg
  induction hy generalizing zs with
  | nil =>
    cases hz
    exact .nil
  | @cons x y xs ys hx _ ih =>
    obtain ⟨z, tail, hxz, ht, rfl⟩ := List.forall₂_cons_left_iff.mp hz
    exact .cons (h x (by simp) y z hx hxz) (ih (fun w hw => h w (List.mem_cons_of_mem x hw)) ht)

theorem option_mapM_rel {x : Option α} {y : Option β} {z : Option γ} (hf : x.mapM f = .ok y)
    (hg : x.mapM g = .ok z) (h : ∀ a, x = some a → ∀ b c, f a = .ok b → g a = .ok c → R b c) :
    Option.Rel R y z := by
  rcases option_mapM_eq_ok.mp hf with ⟨rfl, rfl⟩ | ⟨a, b, rfl, rfl, hb⟩
  · cases Except.ok.inj hg
    exact .none
  · rcases option_mapM_eq_ok.mp hg with ⟨ha, _⟩ | ⟨d, c, hd, rfl, hc⟩
    · cases ha
    · cases Option.some.inj hd
      exact .some (h a rfl b c hb hc)

theorem eq_map_of_rel {h : γ → β} {y : Option β} {z : Option γ}
    (hr : Option.Rel (fun b c => b = h c) y z) : y = z.map h := by
  cases hr with
  | none => rfl
  | some hb => exact congrArg some hb

theorem exists_mem_of_forall₂ {xs : List β} {ys : List γ} {y : γ}
    (h : List.Forall₂ R xs ys) (hy : y ∈ ys) : ∃ x ∈ xs, R x y := by
  induction h with
  | nil => cases hy
  | cons hr _ ih =>
    rcases List.mem_cons.mp hy with rfl | hy
    · exact ⟨_, List.mem_cons_self, hr⟩
    · obtain ⟨x, hx, h⟩ := ih hy
      exact ⟨x, List.mem_cons_of_mem _ hx, h⟩

theorem rel_head? {ys : List β} {zs : List γ} (h : List.Forall₂ R ys zs) :
    Option.Rel R ys.head? zs.head? := by
  cases h with
  | nil => exact .none
  | cons hyz _ => exact .some hyz

theorem rel_or_head? {y : Option β} {z : Option γ} {ys : List β} {zs : List γ}
    (h : Option.Rel R y z) (hs : List.Forall₂ R ys zs) :
    Option.Rel R (y.or ys.head?) (z.or zs.head?) := by
  cases h with
  | none => exact rel_head? hs
  | some hyz => exact .some hyz

end

end EventStream
