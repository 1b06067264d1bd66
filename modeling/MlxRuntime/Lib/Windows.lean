import Mathlib.Data.List.TakeDrop

/-!
# Sliding windows over a padded sequence

A filter of length `n + 1` reads at each position the entry there and the `n` before
it, with a padding entry where the sequence has not begun.  A sequence that arrives
in chunks is filtered the same when the last `n` entries are carried from chunk to
chunk: the carried entries before a chunk and the chunk itself show exactly the
windows that the whole padded sequence shows.

## Main definitions

* `lastPadded n z xs` — the last `n` entries of `xs`, padded with `z` on the left.
* `windowAt k xs i` — the `k` entries from position `i` on.
* `lastPadded_append` — what is carried past a chunk.
* `windowAt_lastPadded_append` — the windows of a chunk.
-/

namespace MlxRuntime

universe u

variable {α : Type u}

/-- The last `n` entries of `xs`, with copies of `z` where `xs` is shorter. -/
def lastPadded (n : ℕ) (z : α) (xs : List α) : List α :=
  (List.replicate n z ++ xs).drop xs.length

/-- The `k` entries from position `i` on. -/
def windowAt (k : ℕ) (xs : List α) (i : ℕ) : List α := (xs.drop i).take k

@[simp] theorem length_lastPadded (n : ℕ) (z : α) (xs : List α) :
    (lastPadded n z xs).length = n := by
  simp [lastPadded]

@[simp] theorem lastPadded_nil (n : ℕ) (z : α) : lastPadded n z [] = List.replicate n z := by
  simp [lastPadded]

/-- The padded whole from the end of a first part on: the entries carried, then the rest. -/
theorem drop_padded_append (n : ℕ) (z : α) (xs ys : List α) :
    (List.replicate n z ++ (xs ++ ys)).drop xs.length = lastPadded n z xs ++ ys := by
  rw [← List.append_assoc, List.drop_append_of_le_length (by simp), lastPadded]

/-- **What is carried past a chunk** is cut from what was carried before it and the chunk. -/
theorem lastPadded_append (n : ℕ) (z : α) (xs ys : List α) :
    lastPadded n z (xs ++ ys) = (lastPadded n z xs ++ ys).drop ys.length := by
  rw [← drop_padded_append, List.drop_drop, lastPadded, List.length_append]

/-- A window that ends in the first part does not see the second. -/
theorem windowAt_append {k i : ℕ} {xs : List α} (h : i + k ≤ xs.length) (ys : List α) :
    windowAt k (xs ++ ys) i = windowAt k xs i := by
  have hlen : k ≤ (xs.drop i).length := by
    rw [List.length_drop]
    omega
  rw [windowAt, windowAt, List.drop_append_of_le_length (by omega),
    List.take_append_of_le_length hlen]

/-- **The windows of a chunk** behind what was carried are those of the whole. -/
theorem windowAt_lastPadded_append (k n : ℕ) (z : α) (xs ys : List α) (i : ℕ) :
    windowAt k (lastPadded n z xs ++ ys) i =
      windowAt k (List.replicate n z ++ (xs ++ ys)) (xs.length + i) := by
  rw [windowAt, windowAt, ← drop_padded_append, List.drop_drop]

end MlxRuntime
