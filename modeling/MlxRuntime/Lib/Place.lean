import Mathlib.Data.List.Nodup
import Mathlib.Logic.Function.Basic

/-!
# Writing values to their places

A list of answers is often filled out of order: every answer carries the index it
belongs to.  `place` makes the writes one after the other; when no index is written
twice, the order does not matter and each place holds the value written to it.  The
same holds of a table that is updated key by key.

## Main definitions

* `place results writes` — `results[i] = x` for each `(i, x)`.
* `getElem?_place_of_mem`, `getElem?_place_of_notMem` — what a place holds.
* `foldl_update_of_mem`, `foldl_update_of_notMem` — what a key holds.
-/

namespace MlxRuntime

universe u

variable {α : Type u}

/-- Write each value to its index. -/
def place (results : List α) (writes : List (ℕ × α)) : List α :=
  writes.foldl (fun results write => results.set write.1 write.2) results

@[simp] theorem place_nil (results : List α) : place results [] = results := rfl

@[simp] theorem place_cons (results : List α) (i : ℕ) (x : α) (writes : List (ℕ × α)) :
    place results ((i, x) :: writes) = place (results.set i x) writes := rfl

@[simp] theorem length_place (results : List α) (writes : List (ℕ × α)) :
    (place results writes).length = results.length := by
  induction writes generalizing results with
  | nil => rfl
  | cons write writes ih => rw [place_cons, ih, List.length_set]

theorem place_append (results : List α) (writes writes' : List (ℕ × α)) :
    place results (writes ++ writes') = place (place results writes) writes' := by
  simp [place, List.foldl_append]

/-- A place nobody writes to keeps its value. -/
theorem getElem?_place_of_notMem {results : List α} {writes : List (ℕ × α)} {i : ℕ}
    (hi : i ∉ writes.map Prod.fst) : (place results writes)[i]? = results[i]? := by
  induction writes generalizing results with
  | nil => rfl
  | cons write writes ih =>
      simp only [List.map_cons, List.mem_cons, not_or] at hi
      rw [place_cons, ih hi.2, List.getElem?_set_ne (Ne.symm hi.1)]

/-- A place written once holds what was written. -/
theorem getElem?_place_of_mem {results : List α} {writes : List (ℕ × α)} {i : ℕ} {x : α}
    (hnodup : (writes.map Prod.fst).Nodup) (hi : i < results.length) (hmem : (i, x) ∈ writes) :
    (place results writes)[i]? = some x := by
  induction writes generalizing results with
  | nil => cases hmem
  | cons write writes ih =>
      rw [List.map_cons, List.nodup_cons] at hnodup
      rw [place_cons]
      rcases List.mem_cons.mp hmem with rfl | hmem
      · rw [getElem?_place_of_notMem hnodup.1, List.getElem?_set_self hi]
      · exact ih hnodup.2 (by rwa [List.length_set]) hmem

/-! ## Updates of a table -/

variable {β γ : Type*} [DecidableEq β] {key : α → β} (change : α → γ → γ)

/-- A key nobody updates keeps its value. -/
theorem foldl_update_of_notMem {items : List α} (table : β → γ) {b : β}
    (hnot : b ∉ items.map key) :
    items.foldl (fun f x => Function.update f (key x) (change x (f (key x)))) table b =
      table b := by
  induction items generalizing table with
  | nil => rfl
  | cons x items ih =>
      simp only [List.map_cons, List.mem_cons, not_or] at hnot
      rw [List.foldl_cons, ih _ hnot.2, Function.update_of_ne hnot.1]

/-- A key updated once holds its changed value. -/
theorem foldl_update_of_mem {items : List α} (table : β → γ) (hnodup : (items.map key).Nodup)
    {x : α} (hx : x ∈ items) :
    items.foldl (fun f x => Function.update f (key x) (change x (f (key x)))) table (key x) =
      change x (table (key x)) := by
  induction items generalizing table with
  | nil => cases hx
  | cons y items ih =>
      rw [List.map_cons, List.nodup_cons] at hnodup
      rw [List.foldl_cons]
      rcases List.mem_cons.mp hx with rfl | hmem
      · rw [foldl_update_of_notMem change _ hnodup.1, Function.update_self]
      · have hne : key x ≠ key y := fun heq => hnodup.1 (heq ▸ List.mem_map_of_mem hmem)
        rw [ih _ hnodup.2 hmem, Function.update_of_ne hne]

end MlxRuntime
