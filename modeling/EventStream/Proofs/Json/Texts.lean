import EventStream.Json.Reader
import Mathlib

namespace EventStream.Json

/-- Where a byte stands. -/
inductive Place where
  | outside
  | inString
  | escaped

structure Scan where
  /-- The brackets that are open. -/
  opened : Nat
  /-- The most that were open at once. -/
  most : Nat
  place : Place

def Scan.step (s : Scan) (b : UInt8) : Scan :=
  match s.place with
  | .escaped => { s with place := .inString }
  | .inString =>
    if b = 0x5C then { s with place := .escaped }
    else if b = 0x22 then { s with place := .outside }
    else s
  | .outside =>
    if b = 0x22 then { s with place := .inString }
    else if b = 0x5B ∨ b = 0x7B then ⟨s.opened + 1, max s.most (s.opened + 1), .outside⟩
    else if b = 0x5D ∨ b = 0x7D then { s with opened := s.opened - 1 }
    else s

/-- How many arrays and objects of a text lie one within another. -/
def nesting (b : Bytes) : Nat :=
  (b.foldl Scan.step ⟨0, 0, .outside⟩).most

/-- A text that opens `n` brackets at once and closes what it opens. -/
def Nests (n : Nat) (s : Bytes) : Prop :=
  ∀ opened most, opened ≤ most →
    s.foldl Scan.step ⟨opened, most, .outside⟩ = ⟨opened, max most (opened + n), .outside⟩

section
variable {n m : Nat} {s t : Bytes} {b : UInt8}

theorem nesting_eq (h : Nests n s) : nesting s = n := by
  simp [nesting, h 0 0 (Nat.le_refl 0)]

theorem nests_nil : Nests 0 [] := by
  intro opened most h
  simp [Nat.max_eq_left h]

theorem Nests.append (hs : Nests n s) (ht : Nests m t) : Nests (max n m) (s ++ t) := by
  intro opened most h
  rw [List.foldl_append, hs opened most h, ht opened _ (by omega)]
  congr 1
  omega

theorem Nests.append_zero (hs : Nests n s) (ht : Nests 0 t) : Nests n (s ++ t) := by
  simpa using hs.append ht

theorem Nests.zero_append (hs : Nests 0 s) (ht : Nests n t) : Nests n (s ++ t) := by
  simpa using hs.append ht

def isBracket (b : UInt8) : Bool :=
  b == 0x5B || b == 0x5D || b == 0x7B || b == 0x7D

/-- A byte outside strings that neither opens nor closes anything. -/
def isCalm (b : UInt8) : Bool :=
  b != 0x22 && !isBracket b

theorem nests_of_isCalm (h : ∀ b ∈ s, isCalm b = true) : Nests 0 s := by
  induction s with
  | nil => exact nests_nil
  | cons b s ih =>
    intro opened most hle
    have hb := h b List.mem_cons_self
    simp only [isCalm, isBracket, Bool.and_eq_true, bne_iff_ne, Bool.not_eq_true',
      Bool.or_eq_false_iff, beq_eq_false_iff_ne] at hb
    rw [List.foldl_cons, ← ih (fun c hc => h c (List.mem_cons_of_mem b hc)) opened most hle]
    simp [Scan.step, hb]

theorem Nests.enclosed {open' close : UInt8} (ho : open' = 0x5B ∨ open' = 0x7B)
    (hc : close = 0x5D ∨ close = 0x7D) (hs : Nests n s) :
    Nests (n + 1) (open' :: s ++ [close]) := by
  intro opened most h
  have hfirst : Scan.step ⟨opened, most, .outside⟩ open' =
      ⟨opened + 1, max most (opened + 1), .outside⟩ := by
    rcases ho with rfl | rfl <;> rfl
  have hlast : ∀ m, Scan.step ⟨opened + 1, m, .outside⟩ close = ⟨opened, m, .outside⟩ := by
    rcases hc with rfl | rfl <;> intro m <;> rfl
  rw [List.cons_append, List.foldl_cons, hfirst, List.foldl_append, hs _ _ (by omega),
    List.foldl_cons, List.foldl_nil, hlast]
  congr 1
  omega

end

/-- A byte with which a number may go on. -/
def goesOn (b : UInt8) : Bool :=
  isDigit b || b == 0x2E || b == 0x65 || b == 0x45

/-- What may follow any text without becoming a part of it. -/
def Ends (t : Bytes) : Prop :=
  ∀ b ∈ t.head?, goesOn b = false

/-- A text without brackets of its own that a reader takes whatever follows it. -/
structure IsAtom {α : Type} (r : Reader α) (s : Bytes) (x : α) : Prop where
  begins : ∃ b t, s = b :: t ∧ isSpace b = false ∧ isBracket b = false
  nests : Nests 0 s
  reads : ∀ t, Ends t → r (s ++ t) = some (x, t)

/-- What a reader takes does not depend on what follows it. -/
def IsLocal {α : Type} (r : Reader α) : Prop :=
  ∀ b x rest, r b = some (x, rest) → ∃ s, b = s ++ rest ∧ IsAtom r s x

end EventStream.Json
