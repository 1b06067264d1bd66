import Mathlib.Data.List.Basic
import Mathlib.Data.List.Infix
import Mathlib.Order.Lattice

/-!
# The first of the best

A scan of a list that keeps what it found until something better comes ends with the first element
of the greatest value.

## Main definitions

* `FirstBest` — the first element of the greatest value.
* `greatest` — the greatest value.
-/

namespace MlxRuntime

variable {α : Type*} (value : α → ℕ)

/-- No element has a greater value than `x`, and all before it have a smaller one. -/
def FirstBest (l : List α) (x : α) : Prop :=
  (∀ y ∈ l, value y ≤ value x) ∧
    ∃ before, before ++ [x] <+: l ∧ ∀ y ∈ before, value y < value x

/-- The greatest value, or zero. -/
def greatest (l : List α) : ℕ := (l.map value).foldr max 0

variable {value} {l : List α} {x y : α}

theorem FirstBest.mem (h : FirstBest value l x) : x ∈ l := by
  obtain ⟨-, before, hinitial, -⟩ := h
  exact hinitial.subset (List.mem_append_right before List.mem_cons_self)

theorem FirstBest.congr {value' : α → ℕ} (h : FirstBest value l x)
    (heq : ∀ y ∈ l, value y = value' y) : FirstBest value' l x := by
  have hx := heq x h.mem
  obtain ⟨hbest, before, hinitial, hlt⟩ := h
  refine ⟨fun y hy => ?_, before, hinitial, fun y hy => ?_⟩
  · rw [← heq y hy, ← hx]
    exact hbest y hy
  · rw [← heq y (hinitial.subset (List.mem_append_left _ hy)), ← hx]
    exact hlt y hy

/-- Of two that are the first, neither comes before the other. -/
theorem FirstBest.unique (h : FirstBest value l x) (h' : FirstBest value l y) : x = y := by
  obtain ⟨hle, before, hinitial, hlt⟩ := h
  obtain ⟨hle', before', hinitial', hlt'⟩ := h'
  have hlength : ∀ {b b' : List α} {u v : α}, b ++ [u] <+: l → b' ++ [v] <+: l →
      b.length < b'.length → u ∈ b' := by
    intro b b' u v hb hb' hlt
    have hb'' : b' <+: l := (List.prefix_append b' [v]).trans hb'
    have hsub := List.prefix_of_prefix_length_le hb hb'' (by rw [List.length_append]; exact hlt)
    exact hsub.subset (List.mem_append_right b List.mem_cons_self)
  have hx : x ∈ l := hinitial.subset (List.mem_append_right before List.mem_cons_self)
  have hy : y ∈ l := hinitial'.subset (List.mem_append_right before' List.mem_cons_self)
  rcases Nat.lt_trichotomy before.length before'.length with hless | heq | hmore
  · exact absurd (hlt' x (hlength hinitial hinitial' hless)) (Nat.not_lt.mpr (hle y hy))
  · have hsub := List.prefix_of_prefix_length_le hinitial hinitial' (by simp [heq])
    have hwhole := hsub.eq_of_length (by simp [heq])
    simpa using (List.append_inj_right' hwhole rfl)
  · exact absurd (hlt y (hlength hinitial' hinitial hmore)) (Nat.not_lt.mpr (hle' x hx))

theorem firstBest_singleton (x : α) : FirstBest value [x] x :=
  ⟨fun _ hy => (List.mem_singleton.mp hy) ▸ Nat.le_refl _, [], List.prefix_rfl,
    fun _ hy => (List.not_mem_nil hy).elim⟩

/-- The scan goes on, and something better comes. -/
theorem FirstBest.append_better (h : FirstBest value l x) (hlt : value x < value y) :
    FirstBest value (l ++ [y]) y := by
  have hbefore : ∀ z ∈ l, value z < value y := fun z hz => Nat.lt_of_le_of_lt (h.1 z hz) hlt
  refine ⟨fun z hz => ?_, l, List.prefix_rfl, hbefore⟩
  rcases List.mem_append.mp hz with hz | hz
  · exact Nat.le_of_lt (hbefore z hz)
  · rw [List.mem_singleton.mp hz]

/-- The scan goes on, and nothing better comes. -/
theorem FirstBest.append_not_better (h : FirstBest value l x) (hle : value y ≤ value x) :
    FirstBest value (l ++ [y]) x := by
  obtain ⟨hbest, before, hinitial, hlt⟩ := h
  refine ⟨fun z hz => ?_, before, hinitial.trans (List.prefix_append l [y]), hlt⟩
  rcases List.mem_append.mp hz with hz | hz
  · exact hbest z hz
  · rw [List.mem_singleton.mp hz]
    exact hle

theorem FirstBest.filter {p : α → Bool} (h : FirstBest value l x) (hx : p x) :
    FirstBest value (l.filter p) x := by
  obtain ⟨hbest, before, hinitial, hlt⟩ := h
  refine ⟨fun y hy => hbest y (List.mem_of_mem_filter hy), before.filter p, ?_,
    fun y hy => hlt y (List.mem_of_mem_filter hy)⟩
  have hfilter := hinitial.filter p
  rwa [List.filter_append, List.filter_cons_of_pos hx, List.filter_nil] at hfilter

/-- Elements of smaller values may be left out. -/
theorem FirstBest.of_filter {p : α → Bool} (h : FirstBest value (l.filter p) x)
    (hlow : ∀ y ∈ l, p y = false → value y < value x) : FirstBest value l x := by
  obtain ⟨hbest, before, ⟨after, heq⟩, hlt⟩ := h
  rw [List.append_assoc] at heq
  obtain ⟨l₁, l₂, rfl, hbefore, hrest⟩ := List.filter_eq_append_iff.mp heq.symm
  obtain ⟨gap, after', rfl, hgap, hx, -⟩ := List.filter_eq_cons_iff.mp hrest
  refine ⟨fun y hy => ?_, l₁ ++ gap, ⟨after', by simp⟩, fun y hy => ?_⟩
  · cases hp : p y with
    | true => exact hbest y (List.mem_filter.mpr ⟨hy, hp⟩)
    | false => exact Nat.le_of_lt (hlow y hy hp)
  · rcases List.mem_append.mp hy with hy | hy
    · cases hp : p y with
      | true => exact hlt y (hbefore ▸ List.mem_filter.mpr ⟨hy, hp⟩)
      | false => exact hlow y (List.mem_append_left _ hy) hp
    · have hp : p y = false := Bool.eq_false_iff.mpr (hgap y hy)
      exact hlow y (by simp [hy]) hp

theorem le_greatest (hx : x ∈ l) : value x ≤ greatest value l := by
  induction l with
  | nil => cases hx
  | cons y l ih =>
    rw [greatest, List.map_cons, List.foldr_cons]
    rcases List.mem_cons.mp hx with rfl | hx
    · exact Nat.le_max_left _ _
    · exact Nat.le_trans (ih hx) (Nat.le_max_right _ _)

theorem greatest_le {n : ℕ} (h : ∀ x ∈ l, value x ≤ n) : greatest value l ≤ n := by
  induction l with
  | nil => exact Nat.zero_le n
  | cons y l ih =>
    rw [greatest, List.map_cons, List.foldr_cons]
    exact Nat.max_le.mpr ⟨h y List.mem_cons_self, ih fun x hx => h x (List.mem_cons_of_mem y hx)⟩

theorem FirstBest.eq_greatest (h : FirstBest value l x) : value x = greatest value l :=
  Nat.le_antisymm (le_greatest h.mem) (greatest_le h.1)

end MlxRuntime
