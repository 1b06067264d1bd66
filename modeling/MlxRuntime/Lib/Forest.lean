import Mathlib.Data.Finset.Card
import Mathlib.Data.List.Nodup
import Mathlib.Logic.Relation

/-!
# Walking over a tree with a stack

The nodes of a tree are found by a walk that keeps a stack of pending nodes: it takes the last one
and puts its children on the stack.  Where every node has one parent, and the root has none, the
walk meets every node below the root once.

## Main definitions

* `Forest.walk` — the walk, with a bound on its rounds.
* `Forest.Below` — the nodes below a root.
* `Forest.nodup_walk`, `Forest.mem_walk` — the walk lists them, without repetition.
-/

namespace MlxRuntime.Forest

variable {α : Type}

/-- The nodes that a walk visits; `pending` is the stack, its top last. -/
def walk (children : α → List α) : (rounds : ℕ) → (pending : List α) → List α
  | 0, _ => []
  | rounds + 1, pending =>
      match pending.getLast? with
      | none => []
      | some node => node :: walk children rounds (pending.dropLast ++ children node)

/-- A node is below another one, or is the same. -/
abbrev Below (children : α → List α) : α → α → Prop :=
  Relation.ReflTransGen fun x y => y ∈ children x

/-- Every node is listed once, as a child of its parent, and the root is no child. -/
structure IsForest (children : α → List α) (parent : α → Option α) (root : α) (nodes : Finset α) :
    Prop where
  nodup : ∀ x, (children x).Nodup
  parent_eq : ∀ {x y}, y ∈ children x → parent y = some x
  root_eq : parent root = none
  mem : ∀ {x y}, y ∈ children x → y ∈ nodes

/-- The state of a walk: what was visited and what is pending. -/
structure Walks (children : α → List α) (parent : α → Option α) (root : α)
    (visited pending : List α) : Prop where
  nodup : (visited ++ pending).Nodup
  below : ∀ y ∈ visited ++ pending, Below children root y
  parent : ∀ y ∈ visited ++ pending, ∃ x, parent y = some x ∧ (x = root ∨ x ∈ visited)
  closed : ∀ x, x = root ∨ x ∈ visited → ∀ y ∈ children x, y ∈ visited ++ pending

variable {children : α → List α} {parent : α → Option α} {root : α} {nodes : Finset α}
  {visited pending : List α}

theorem IsForest.start (h : IsForest children parent root nodes) :
    Walks children parent root [] (children root) where
  nodup := h.nodup root
  below y hy := .single hy
  parent y hy := ⟨root, h.parent_eq hy, .inl rfl⟩
  closed x hx y hy := by
    rcases hx with rfl | hx
    · exact hy
    · cases hx

/-- The root is not met. -/
theorem Walks.root_notMem (h : Walks children parent root visited pending)
    (hroot : parent root = none) : root ∉ visited ++ pending := by
  intro hmem
  obtain ⟨x, hx, -⟩ := h.parent root hmem
  rw [hroot] at hx
  cases hx

/-- One round: the children of a pending node are met for the first time. -/
theorem Walks.next (hforest : IsForest children parent root nodes) {node : α}
    (h : Walks children parent root visited (pending ++ [node])) :
    Walks children parent root (visited ++ [node]) (pending ++ children node) := by
  have hnode : node ∈ visited ++ (pending ++ [node]) := by simp
  have hsub : ∀ {y}, y ∈ visited ++ (pending ++ [node]) →
      y ∈ visited ++ [node] ++ (pending ++ children node) := by
    intro y hy
    simp only [List.mem_append, List.mem_singleton] at hy ⊢
    tauto
  have hnew : ∀ y ∈ children node, y ∉ visited ++ (pending ++ [node]) := by
    intro y hy hmem
    obtain ⟨x, hx, hvisited⟩ := h.parent y hmem
    obtain rfl := Option.some.inj ((hforest.parent_eq hy).symm.trans hx)
    rcases hvisited with rfl | hvisited
    · exact h.root_notMem hforest.root_eq hnode
    · exact (List.nodup_append.mp h.nodup).2.2 node hvisited node (by simp) rfl
  refine ⟨?_, fun y hy => ?_, fun y hy => ?_, fun x hx y hy => ?_⟩
  · have hperm : (visited ++ [node] ++ (pending ++ children node)).Perm
        (visited ++ (pending ++ [node]) ++ children node) := by
      rw [List.append_assoc, List.append_assoc]
      refine List.Perm.append_left _ ?_
      rw [← List.append_assoc]
      exact List.Perm.append_right _ List.perm_append_comm
    rw [hperm.nodup_iff, List.nodup_append]
    refine ⟨h.nodup, hforest.nodup node, fun x hx y hy heq => hnew y hy (heq ▸ hx)⟩
  · by_cases hold : y ∈ visited ++ (pending ++ [node])
    · exact h.below y hold
    · have hchild : y ∈ children node := by
        simp only [List.mem_append, List.mem_singleton] at hy hold
        tauto
      exact (h.below node hnode).tail hchild
  · by_cases hold : y ∈ visited ++ (pending ++ [node])
    · obtain ⟨x, hx, hvisited⟩ := h.parent y hold
      exact ⟨x, hx, hvisited.imp_right (List.mem_append_left _)⟩
    · have hchild : y ∈ children node := by
        simp only [List.mem_append, List.mem_singleton] at hy hold
        tauto
      exact ⟨node, hforest.parent_eq hchild, .inr (by simp)⟩
  · rcases hx with hroot | hx
    · exact hsub (h.closed x (.inl hroot) y hy)
    · rcases List.mem_append.mp hx with hold | hlast
      · exact hsub (h.closed x (.inr hold) y hy)
      · obtain rfl := List.mem_singleton.mp hlast
        simp [hy]

/-- What was met is one of the nodes. -/
theorem Walks.length_le (hforest : IsForest children parent root nodes)
    (h : Walks children parent root visited pending) :
    visited.length + pending.length ≤ nodes.card := by
  classical
  have hsub : (visited ++ pending).toFinset ⊆ nodes := by
    intro y hy
    have hmem := List.mem_toFinset.mp hy
    rcases Relation.ReflTransGen.cases_tail (h.below y hmem) with heq | ⟨x, -, hx⟩
    · exact absurd (heq ▸ hmem) (h.root_notMem hforest.root_eq)
    · exact hforest.mem hx
  have hcard := Finset.card_le_card hsub
  rwa [List.toFinset_card_of_nodup h.nodup, List.length_append] at hcard

/-- A walk with enough rounds leaves nothing pending. -/
theorem Walks.walk (hforest : IsForest children parent root nodes) {rounds : ℕ}
    (h : Walks children parent root visited pending)
    (hrounds : nodes.card ≤ visited.length + rounds) :
    Walks children parent root (visited ++ Forest.walk children rounds pending) [] := by
  induction rounds generalizing visited pending with
  | zero =>
      have hlength := h.length_le hforest
      obtain rfl : pending = [] := List.eq_nil_of_length_eq_zero (by omega)
      rwa [Forest.walk, List.append_nil]
  | succ rounds ih =>
      rw [Forest.walk]
      cases hlast : pending.getLast? with
      | none =>
          obtain rfl := List.getLast?_eq_none_iff.mp hlast
          rwa [List.append_nil]
      | some node =>
          obtain ⟨rest, rfl⟩ := List.getLast?_eq_some_iff.mp hlast
          have hnext := ih (h.next hforest) (by rw [List.length_append]; simpa using by omega)
          rw [List.append_assoc] at hnext
          rwa [List.dropLast_concat]

/-- **The walk from the root's children** meets every node below the root, once. -/
theorem nodup_walk (h : IsForest children parent root nodes) {rounds : ℕ}
    (hrounds : nodes.card ≤ rounds) :
    (Forest.walk children rounds (children root)).Nodup := by
  have hnodup := (h.start.walk h (hrounds.trans_eq (Nat.zero_add _).symm)).nodup
  rwa [List.append_nil, List.nil_append] at hnodup

theorem mem_walk (h : IsForest children parent root nodes) {rounds : ℕ}
    (hrounds : nodes.card ≤ rounds) {y : α} :
    y ∈ Forest.walk children rounds (children root) ↔ Below children root y ∧ y ≠ root := by
  have hwalks := h.start.walk h (hrounds.trans_eq (Nat.zero_add _).symm)
  rw [List.nil_append] at hwalks
  have hnil : ∀ {z}, z ∈ Forest.walk children rounds (children root) ++ [] ↔
      z ∈ Forest.walk children rounds (children root) := by simp
  constructor
  · intro hy
    refine ⟨hwalks.below y (hnil.mpr hy), ?_⟩
    rintro rfl
    exact hwalks.root_notMem h.root_eq (hnil.mpr hy)
  · rintro ⟨hbelow, hne⟩
    have hall : y = root ∨ y ∈ Forest.walk children rounds (children root) := by
      clear hne
      induction hbelow with
      | refl => exact .inl rfl
      | tail _ hstep ih => exact .inr (hnil.mp (hwalks.closed _ ih _ hstep))
    exact hall.resolve_left hne

end MlxRuntime.Forest
