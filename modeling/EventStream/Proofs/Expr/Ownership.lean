import EventStream.Expr.Ownership
import EventStream.Proofs.Entries

namespace EventStream

section
variable {α κ : Type}

theorem swapRemove?_fst (items : List α) (i : Nat) :
    (swapRemove? items i).map Prod.fst = items[i]? := by
  unfold swapRemove?
  split
  next hv _ => rw [hv]; rfl
  next hnone =>
    cases hv : items[i]? with
    | none => rfl
    | some v =>
      have hne : items ≠ [] := by
        rintro rfl
        cases hv
      exact absurd (List.getLast?_eq_some_getLast hne) (hnone v _ hv)

theorem getElem?_findIdx_key [DecidableEq κ] (entries : List (κ × α)) (key : κ) :
    entries[entries.findIdx fun e => e.1 = key]?.map Prod.snd = lookup? entries key := by
  induction entries with
  | nil => rfl
  | cons e r ih =>
    by_cases h : e.1 = key
    · simp [List.findIdx_cons, lookup?, h]
    · simp [List.findIdx_cons, lookup?, h, ih]

theorem swapRemoveKey?_fst [DecidableEq κ] (entries : List (κ × α)) (key : κ) :
    (swapRemoveKey? entries key).map (fun taken => taken.1.2) = lookup? entries key := by
  rw [← getElem?_findIdx_key, ← swapRemove?_fst, Option.map_map]
  rfl

end

namespace Held

theorem get?_value (t : Held) (key : String) :
    (t.get? key).map value = t.value.get? key := by
  cases t with
  | borrowed v =>
    cases v with
    | map entries => exact Option.map_map .. |>.trans Option.map_id'
    | _ => rfl
  | owned v =>
    cases v with
    | map entries =>
      rw [get?, Option.map_map]
      exact swapRemoveKey?_fst entries key
    | _ => rfl

theorem item?_value {t : Held} {items : List Value} (h : t.value = .list items) (n : Nat) :
    (t.item? n).map value = items[n]? := by
  cases t with
  | borrowed v =>
    cases h
    exact Option.map_map .. |>.trans Option.map_id'
  | owned v =>
    cases h
    rw [item?, Option.map_map]
    exact swapRemove?_fst items n

end Held

namespace Eval

theorem selectHeld_value (t : Held) (field operation : String) (operands : List ValueType) :
    (selectHeld t field operation operands).map Held.value =
      select t.value field operation operands := by
  have hget := t.get?_value field
  unfold selectHeld select
  cases h : t.value with
  | map entries =>
    rw [h, Value.get?] at hget
    simp only [← hget]
    cases t.get? field <;> rfl
  | _ => rfl

theorem elementHeld_value {t : Held} {items : List Value} (h : t.value = .list items) (i : Int64) :
    (elementHeld t items.length i).map Held.value = element items i := by
  unfold elementHeld element
  split
  · rfl
  · rw [← Held.item?_value h]
    cases t.item? i.toInt.toNat <;> rfl

theorem indexHeld_value (t : Held) (p : Value) :
    (indexHeld t p).map Held.value = index t.value p := by
  unfold indexHeld index
  cases ht : t.value with
  | list items =>
    cases asPosition p with
    | int i => exact elementHeld_value ht i
    | _ => rfl
  | map entries =>
    cases asPosition p with
    | string key =>
      have h := selectHeld_value t key "_[_]" [.map, .string]
      rwa [ht] at h
    | _ => rfl
  | _ => rfl

/-- What an expression builds it owns. -/
theorem map_owned_value (o : Outcome) : (o.map Held.owned).map Held.value = o := by
  cases o <;> rfl

/-- Where values are kept changes no outcome. -/
theorem evalHeld_value (b : Bindings) (room : Nat) (e : Expr) :
    (evalHeld b room e).map Held.value = eval b room e := by
  induction room generalizing e with
  | zero => rfl
  | succ room ih =>
    have hvalue : (fun part => (evalHeld b room part).map Held.value) = eval b room := funext ih
    cases e with
    | null | bool | int | double | string => rfl
    | list items => simp only [evalHeld, eval, hvalue, map_owned_value]
    | map entries => simp only [evalHeld, eval, ih, map_owned_value]
    | «variable» name =>
      rw [evalHeld, eval]
      cases b.get? name <;> rfl
    | member target field =>
      rw [evalHeld, eval, ← ih target]
      cases evalHeld b room target with
      | error err => rfl
      | ok t => exact selectHeld_value t field _ _
    | has target field => simp only [evalHeld, eval, ih, map_owned_value]
    | index target position =>
      simp only [evalHeld, eval, ← ih target, ih position]
      cases evalHeld b room target with
      | error err => rfl
      | ok t =>
        cases eval b room position with
        | error err => rfl
        | ok p => exact indexHeld_value t p
    | unary op operand => simp only [evalHeld, eval, ih, map_owned_value]
    | binary op left right => simp only [evalHeld, eval, ih, map_owned_value]
    | conditional condition yes no =>
      simp only [evalHeld, eval, ih condition, ← ih yes, ← ih no]
      rcases eval b room condition with err | c
      · rfl
      · cases c with
        | bool t => cases t <;> rfl
        | _ => rfl
    | call function target arguments => simp only [evalHeld, eval, hvalue, map_owned_value]

end Eval

end EventStream
