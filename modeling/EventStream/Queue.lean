namespace EventStream

structure Queue (α : Type) where
  capacity : Nat
  items : List α
  /-- Whether there is someone to take items. -/
  isOpen : Bool

/-- Why an item is not taken in. -/
inductive QueueError where
  | full
  | closed

def QueueError.message : QueueError → String
  | .full => "input queue full"
  | .closed => "input queue closed"

namespace Queue

variable {α : Type}

/-- There is room for one item at least. -/
def empty (capacity : Nat) : Queue α :=
  ⟨max capacity 1, [], true⟩

def size (q : Queue α) : Nat :=
  q.items.length

def push (q : Queue α) (x : α) : Except QueueError (Queue α) :=
  if !q.isOpen then .error .closed
  else if q.size < q.capacity then .ok { q with items := q.items ++ [x] }
  else .error .full

def pop? (q : Queue α) : Option (α × Queue α) :=
  match q.items with
  | [] => none
  | x :: r => some (x, { q with items := r })

/-- A closed queue loses what is in it. -/
def close (q : Queue α) : Queue α :=
  { q with items := [], isOpen := false }

variable {q r : Queue α} {x : α}

theorem push_eq_ok :
    q.push x = .ok r ↔
      q.isOpen = true ∧ q.size < q.capacity ∧ r = { q with items := q.items ++ [x] } := by
  unfold push
  cases q.isOpen with
  | false => simp
  | true =>
    by_cases hs : q.size < q.capacity
    · simpa [hs] using eq_comm
    · simp [hs]

theorem push_eq_error {e : QueueError} :
    q.push x = .error e ↔
      (q.isOpen = false ∧ e = .closed) ∨
        (q.isOpen = true ∧ q.capacity ≤ q.size ∧ e = .full) := by
  unfold push
  cases q.isOpen with
  | false => simp [eq_comm]
  | true =>
    by_cases hs : q.size < q.capacity
    · simp [hs, Nat.not_le.mpr hs]
    · simp [hs, Nat.not_lt.mp hs, eq_comm]

theorem push_ne_closed (h : q.isOpen = true) : q.push x ≠ .error .closed := by
  simp [push_eq_error, h]

theorem pop?_eq_none : q.pop? = none ↔ q.items = [] := by
  unfold pop?
  cases q.items <;> simp

theorem pop?_eq_some :
    q.pop? = some (x, r) ↔ ∃ rest, q.items = x :: rest ∧ r = { q with items := rest } := by
  unfold pop?
  cases q.items with
  | nil => simp
  | cons y rest =>
    constructor
    · intro h
      cases h
      exact ⟨rest, rfl, rfl⟩
    · rintro ⟨_, h, rfl⟩
      cases h
      rfl

end Queue

end EventStream
