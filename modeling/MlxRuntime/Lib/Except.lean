import Mathlib.Data.List.Basic

/-!
# Computations that may fail

What a computation that succeeds has done.

## Main definitions

* `bind_eq_ok` — its two parts succeed.
* `mapM_ok` — a computation on each item of a list.
-/

namespace MlxRuntime

variable {ε α β γ : Type}

theorem bind_eq_ok {x : Except ε α} {f : α → Except ε β} {b : β} (h : (x >>= f) = .ok b) :
    ∃ a, x = .ok a ∧ f a = .ok b := by
  cases x with
  | error e => cases h
  | ok a => exact ⟨a, rfl, h⟩

theorem ok_bind (a : α) (f : α → Except ε β) : (Except.ok a >>= f) = f a := rfl

/-- What is decoded item by item, each from what it was encoded as. -/
theorem mapM_ok {f : β → Except ε γ} {enc : α → β} {dec : α → γ} (l : List α)
    (h : ∀ x ∈ l, f (enc x) = .ok (dec x)) : (l.map enc).mapM f = .ok (l.map dec) := by
  induction l with
  | nil => rfl
  | cons x xs ih =>
      rw [List.map_cons, List.mapM_cons, h x List.mem_cons_self,
        ih fun y hy => h y (List.mem_cons_of_mem _ hy)]
      rfl

end MlxRuntime
