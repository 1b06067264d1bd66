import Mathlib.Data.List.Infix
import Mathlib.Data.List.MinMax
import Mathlib.Order.Nat

/-!
# Words in a text

Where a word is in a text, and the first place of one of several words.  A text grows at its
end; what matters is which occurrences a longer text adds, and that they are near its end.

## Main definitions

* `OccursAt w text i` — the word is at this place.
* `find w text` — its first place.
* `firstOf words text` — the first place of one of the words.
-/

namespace MlxRuntime.Words

variable {α : Type} {w text more : List α} {words : List (List α)} {i j e : ℕ}

/-- The word is at this place of the text. -/
def OccursAt (w text : List α) (i : ℕ) : Prop := w <+: text.drop i

theorem OccursAt.le_length (h : OccursAt w text i) (hw : w ≠ []) :
    i + w.length ≤ text.length := by
  have hlength := h.length_le
  have hpos := List.length_pos_iff.mpr hw
  rw [List.length_drop] at hlength
  omega

theorem OccursAt.append (h : OccursAt w text i) (hw : w ≠ []) (more : List α) :
    OccursAt w (text ++ more) i := by
  have hle := h.le_length hw
  rw [OccursAt, List.drop_append_of_le_length (by omega)]
  exact h.trans (List.prefix_append _ _)

/-- What ends in the first part is in the first part. -/
theorem OccursAt.of_append (more : List α) (h : OccursAt w (text ++ more) i)
    (hle : i + w.length ≤ text.length) : OccursAt w text i := by
  rw [OccursAt, List.drop_append_of_le_length (by omega)] at h
  refine List.prefix_of_prefix_length_le h (List.prefix_append _ _) ?_
  rw [List.length_drop]
  omega

theorem occursAt_take (hw : w ≠ []) :
    OccursAt w (text.take e) i ↔ OccursAt w text i ∧ i + w.length ≤ e := by
  constructor
  · intro h
    have hle := h.le_length hw
    rw [List.length_take] at hle
    refine ⟨?_, by omega⟩
    have happend := h.append hw (text.drop e)
    rwa [List.take_append_drop] at happend
  · rintro ⟨h, hle⟩
    have hlength := h.le_length hw
    refine OccursAt.of_append (text.drop e) ?_ ?_
    · rwa [List.take_append_drop]
    · rw [List.length_take]
      omega

theorem occursAt_drop (d : ℕ) : OccursAt w (text.drop d) i ↔ OccursAt w text (d + i) := by
  rw [OccursAt, OccursAt, List.drop_drop]

/-- A word that is in a text is at a place of it. -/
theorem isInfix_iff : w <:+: text ↔ ∃ i, OccursAt w text i := by
  constructor
  · rintro ⟨front, back, rfl⟩
    refine ⟨front.length, ?_⟩
    rw [OccursAt, List.append_assoc, List.drop_left]
    exact List.prefix_append _ _
  · rintro ⟨i, h⟩
    exact h.isInfix.trans (List.drop_suffix i text).isInfix

variable [DecidableEq α]

instance : Decidable (OccursAt w text i) := inferInstanceAs (Decidable (_ <+: _))

/-- The first place of a word. -/
def find (w text : List α) : Option ℕ :=
  (List.range (text.length + 1)).find? fun i => OccursAt w text i

/-- The first place of one of the words. -/
def firstOf (words : List (List α)) (text : List α) : Option ℕ :=
  (words.filterMap fun w => find w text).min?

theorem find_eq_some (hw : w ≠ []) :
    find w text = some i ↔ OccursAt w text i ∧ ∀ j, OccursAt w text j → i ≤ j := by
  rw [find, List.find?_range_eq_some]
  constructor
  · rintro ⟨h, -, hfirst⟩
    refine ⟨of_decide_eq_true h, fun j hj => ?_⟩
    by_contra hlt
    have hnot := hfirst j (by omega)
    simp [hj] at hnot
  · rintro ⟨h, hfirst⟩
    have hle := h.le_length hw
    refine ⟨decide_eq_true h, by rw [List.mem_range]; omega, fun j hj => ?_⟩
    simp only [Bool.not_eq_true', decide_eq_false_iff_not]
    intro hoccurs
    have := hfirst j hoccurs
    omega

theorem find_eq_none (hw : w ≠ []) : find w text = none ↔ ∀ i, ¬ OccursAt w text i := by
  rw [find, List.find?_range_eq_none]
  constructor
  · intro h i hoccurs
    have hle := hoccurs.le_length hw
    have hnot := h i (by omega)
    simp [hoccurs] at hnot
  · intro h i _
    simp [h i]

theorem firstOf_eq_none (hwords : ∀ w ∈ words, w ≠ []) :
    firstOf words text = none ↔ ∀ w ∈ words, ∀ i, ¬ OccursAt w text i := by
  rw [firstOf, List.min?_eq_none_iff, List.filterMap_eq_nil_iff]
  exact forall₂_congr fun w hw => find_eq_none (hwords w hw)

theorem firstOf_eq_some (hwords : ∀ w ∈ words, w ≠ []) :
    firstOf words text = some i ↔ (∃ w ∈ words, OccursAt w text i) ∧
      ∀ w ∈ words, ∀ j, OccursAt w text j → i ≤ j := by
  rw [firstOf, List.min?_eq_some_iff]
  constructor
  · rintro ⟨hmem, hleast⟩
    obtain ⟨w, hw, hfind⟩ := List.mem_filterMap.mp hmem
    refine ⟨⟨w, hw, ((find_eq_some (hwords w hw)).mp hfind).1⟩, fun v hv j hj => ?_⟩
    cases hfound : find v text with
    | none => exact absurd hj ((find_eq_none (hwords v hv)).mp hfound j)
    | some k =>
        have hk := hleast k (List.mem_filterMap.mpr ⟨v, hv, hfound⟩)
        have hj' := ((find_eq_some (hwords v hv)).mp hfound).2 j hj
        omega
  · rintro ⟨⟨w, hw, hoccurs⟩, hleast⟩
    refine ⟨List.mem_filterMap.mpr ⟨w, hw, ?_⟩, fun k hk => ?_⟩
    · exact (find_eq_some (hwords w hw)).mpr ⟨hoccurs, fun j hj => hleast w hw j hj⟩
    · obtain ⟨v, hv, hfound⟩ := List.mem_filterMap.mp hk
      exact hleast v hv k ((find_eq_some (hwords v hv)).mp hfound).1

theorem firstOf_nil (hwords : ∀ w ∈ words, w ≠ []) : firstOf words [] = none := by
  rw [firstOf_eq_none hwords]
  intro w hw i hoccurs
  have hle := hoccurs.le_length (hwords w hw)
  have hpos := List.length_pos_iff.mpr (hwords w hw)
  rw [List.length_nil] at hle
  omega

/-- No word is in a text that has none of a longer one. -/
theorem firstOf_of_append_none (hwords : ∀ w ∈ words, w ≠ [])
    (h : firstOf words (text ++ more) = none) : firstOf words text = none := by
  rw [firstOf_eq_none hwords] at h ⊢
  intro w hw i hoccurs
  exact h w hw i (hoccurs.append (hwords w hw) more)

/-- A longer text has its first word no later. -/
theorem firstOf_append_le (hwords : ∀ w ∈ words, w ≠ []) (h : firstOf words text = some i)
    (more : List α) : ∃ j ≤ i, firstOf words (text ++ more) = some j := by
  obtain ⟨⟨w, hw, hoccurs⟩, -⟩ := (firstOf_eq_some hwords).mp h
  have hmore := hoccurs.append (hwords w hw) more
  cases hfirst : firstOf words (text ++ more) with
  | none => exact absurd hmore ((firstOf_eq_none hwords).mp hfirst w hw i)
  | some j => exact ⟨j, ((firstOf_eq_some hwords).mp hfirst).2 w hw i hmore, rfl⟩

theorem firstOf_le_length (hwords : ∀ w ∈ words, w ≠ []) (h : firstOf words text = some i) :
    i < text.length := by
  obtain ⟨⟨w, hw, hoccurs⟩, -⟩ := (firstOf_eq_some hwords).mp h
  have hle := hoccurs.le_length (hwords w hw)
  have hpos := List.length_pos_iff.mpr (hwords w hw)
  omega

/-- A place after which every word of the text is. -/
theorem firstOf_drop (hwords : ∀ w ∈ words, w ≠ []) {d : ℕ}
    (hd : ∀ w ∈ words, ∀ i, OccursAt w text i → d ≤ i) :
    firstOf words text = (firstOf words (text.drop d)).map (d + ·) := by
  cases hfirst : firstOf words (text.drop d) with
  | none =>
      rw [Option.map_none, firstOf_eq_none hwords]
      rw [firstOf_eq_none hwords] at hfirst
      intro w hw i hoccurs
      have hle := hd w hw i hoccurs
      refine hfirst w hw (i - d) ((occursAt_drop d).mpr ?_)
      rwa [Nat.add_sub_cancel' hle]
  | some i =>
      rw [Option.map_some, firstOf_eq_some hwords]
      obtain ⟨⟨w, hw, hoccurs⟩, hleast⟩ := (firstOf_eq_some hwords).mp hfirst
      refine ⟨⟨w, hw, (occursAt_drop d).mp hoccurs⟩, fun v hv j hj => ?_⟩
      have hle := hd v hv j hj
      have hj' := hleast v hv (j - d) ((occursAt_drop d).mpr (by rwa [Nat.add_sub_cancel' hle]))
      omega

end MlxRuntime.Words
