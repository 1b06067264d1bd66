import MlxRuntime.Lib.Except

/-!
# What the embedded Python code shares

The worker is Python.  A raise is a value of `PyError`, and a method that may
raise answers with an `Except PyError` beside the state it leaves: Python keeps
the writes made before a raise, so the state is there in both cases.
-/

namespace MlxRuntime

/-- The exceptions the modelled code raises or catches, with their texts.  The
executor's own `BatchExecutionError` carries a code as well. -/
inductive PyError
  | valueError (message : String)
  | runtimeError (message : String)
  | typeError (message : String)
  | attributeError (message : String)
  | keyError
  | indexError
  /-- Anything a library call (MLX, the tokenizer, the model) raises. -/
  | external (message : String)
  | batchExecutionError (code message : String)
  deriving DecidableEq, Repr

/-- `str(exc)`; the text of a `KeyError` or an `IndexError` is not modelled. -/
def PyError.message : PyError → String
  | .valueError m | .runtimeError m | .typeError m | .attributeError m | .external m => m
  | .batchExecutionError _ m => m
  | .keyError | .indexError => ""

/-- `min(xs, key=…)`: the first element that no other is less than. -/
def firstMin {α : Type} (lt : α → α → Bool) : List α → Option α
  | [] => none
  | x :: xs => some (xs.foldl (fun best y => if lt y best then y else best) x)

theorem mem_of_firstMin {α : Type} {lt : α → α → Bool} {xs : List α} {x : α}
    (h : firstMin lt xs = some x) : x ∈ xs := by
  cases xs with
  | nil => cases h
  | cons y ys =>
      obtain rfl := Option.some.inj h
      refine List.foldlRecOn (motive := fun best => best ∈ y :: ys) ys _ List.mem_cons_self ?_
      intro best hbest z hz
      split
      · exact List.mem_cons_of_mem _ hz
      · exact hbest

theorem firstMin_eq_none {α : Type} {lt : α → α → Bool} {xs : List α} :
    firstMin lt xs = none ↔ xs = [] := by
  cases xs <;> simp [firstMin]

end MlxRuntime
