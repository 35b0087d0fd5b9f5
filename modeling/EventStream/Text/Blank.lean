namespace EventStream

/-- The characters with the Unicode property White_Space. -/
def isBlank (c : Char) : Bool :=
  let n := c.toNat
  (0x09 ≤ n && n ≤ 0x0D) || n == 0x20 || n == 0x85 || n == 0xA0 || n == 0x1680 ||
    (0x2000 ≤ n && n ≤ 0x200A) || n == 0x2028 || n == 0x2029 || n == 0x202F || n == 0x205F ||
    n == 0x3000

def trimStart (s : List Char) : List Char :=
  s.dropWhile isBlank

def trimEnd (s : List Char) : List Char :=
  (s.reverse.dropWhile isBlank).reverse

def trim (s : List Char) : List Char :=
  trimEnd (trimStart s)

/-- A text without the blanks around it. -/
def trimmed (s : String) : String :=
  String.ofList (trim s.toList)

theorem trimStart_append_of_not_blank {s : List Char} {c : Char} (t : List Char)
    (hs : ∀ d ∈ s, isBlank d = true) (hc : isBlank c = false) :
    trimStart (s ++ c :: t) = c :: t := by
  induction s with
  | nil => simp [trimStart, hc]
  | cons d s ih =>
    have hd := hs d (by simp)
    have := ih (fun e he => hs e (by simp [he]))
    simpa [trimStart, List.dropWhile, hd] using this

/-- Blanks around a text that neither starts nor ends with one are what is cut off. -/
theorem trim_append {w s v : List Char} (hw : ∀ c ∈ w, isBlank c = true)
    (hv : ∀ c ∈ v, isBlank c = true) (hfirst : ∀ c ∈ s.head?, isBlank c = false)
    (hlast : ∀ c ∈ s.getLast?, isBlank c = false) : trim (w ++ (s ++ v)) = s := by
  have hkept {t : List Char} (ht : ∀ c ∈ t.head?, isBlank c = false) : t.dropWhile isBlank = t := by
    cases t with
    | nil => rfl
    | cons c t => simp [ht c rfl]
  have hend : trimEnd (s ++ v) = s := by
    rw [trimEnd, List.reverse_append, List.dropWhile_append_of_pos (by simpa using hv),
      hkept (by simpa [List.head?_reverse] using hlast), List.reverse_reverse]
  rw [trim, trimStart, List.dropWhile_append_of_pos hw]
  cases s with
  | nil =>
    have hblank : (v ++ []).dropWhile isBlank = [] := List.dropWhile_append_of_pos hv
    rw [List.nil_append, ← List.append_nil v, hblank]
    rfl
  | cons c s => rw [hkept (by simpa using hfirst), hend]

end EventStream
