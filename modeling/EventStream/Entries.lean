namespace EventStream

/-- Replaces the entry of a name in its place, or adds one at the end. -/
def setEntry {κ α : Type} [DecidableEq κ] (name : κ) (value : α) : List (κ × α) → List (κ × α)
  | [] => [(name, value)]
  | (n, v) :: r => if n = name then (n, value) :: r else (n, v) :: setEntry name value r

def lookup? {κ α : Type} [DecidableEq κ] : List (κ × α) → κ → Option α
  | [], _ => none
  | (n, v) :: r, name => if n = name then some v else lookup? r name

theorem lookup?_setEntry {κ α : Type} [DecidableEq κ] (entries : List (κ × α)) (name other : κ)
    (value : α) :
    lookup? (setEntry name value entries) other =
      if name = other then some value else lookup? entries other := by
  induction entries with
  | nil => simp [setEntry, lookup?]
  | cons e r ih =>
    obtain ⟨n, v⟩ := e
    by_cases hn : n = name
    · subst hn
      by_cases ho : n = other <;> simp [setEntry, lookup?, ho]
    · by_cases ho : n = other
      · subst ho; simp [setEntry, lookup?, hn, Ne.symm hn]
      · simp [setEntry, lookup?, hn, ho, ih]

/-- Puts an entry into a list sorted by key, in place of one with the same key. -/
def insertSorted {κ α : Type} [LT κ] [DecidableLT κ] [DecidableEq κ] (key : κ) (value : α) :
    List (κ × α) → List (κ × α)
  | [] => [(key, value)]
  | (k, v) :: r =>
    if key < k then (key, value) :: (k, v) :: r
    else if key = k then (key, value) :: r
    else (k, v) :: insertSorted key value r

theorem lookup?_insertSorted {κ α : Type} [LT κ] [DecidableLT κ] [DecidableEq κ]
    (entries : List (κ × α)) (key other : κ) (value : α) :
    lookup? (insertSorted key value entries) other =
      if key = other then some value else lookup? entries other := by
  induction entries with
  | nil => simp [insertSorted, lookup?]
  | cons e r ih =>
    obtain ⟨k, v⟩ := e
    unfold insertSorted
    split
    · simp [lookup?]
    · split
      next hk =>
        subst hk
        by_cases ho : key = other <;> simp [lookup?, ho]
      next hk =>
        by_cases ho : k = other
        · subst ho
          simp [lookup?, hk]
        · simp [lookup?, ho, ih]

/-- Entries by key; of several with one key the last stays. -/
def sortedEntries {κ α : Type} [LT κ] [DecidableLT κ] [DecidableEq κ] (entries : List (κ × α)) :
    List (κ × α) :=
  entries.foldl (fun sorted e => insertSorted e.1 e.2 sorted) []

end EventStream
