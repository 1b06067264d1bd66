import Mathlib.Data.List.Basic

/-!
# Runs of a step function

A component is a deterministic step function over a list of operations; an
operation answers with a reply and a next state.  This module supplies the two
inductions every run-level theorem goes through: an invariant kept by every
guarded step holds after every guarded run, and a relation to an abstract
component kept by every guarded step relates the two final states.

The guard `ok` is a condition on the state an operation is issued in.  It says
which histories a theorem is about; `Each step ok s ops` says every operation of
`ops` meets it when issued.

## Main definitions

* `exec step s ops` — the state after `ops`.
* `replies step s ops` — what it answers.
* `Each step ok s ops` — every operation meets its guard in its own state.
* `exec_invariant` — the invariant rule.
* `follow`, `simulation` — an abstract component driven by the same operations and
  the replies of the concrete one, and the forward-simulation rule.
-/

namespace MlxRuntime.Run

universe u v w x

variable {σ : Type u} {α : Type v} {β : Type w} {τ : Type x}

/-- The state after a list of operations. -/
def exec (step : σ → α → β × σ) (s : σ) (ops : List α) : σ :=
  ops.foldl (fun s op => (step s op).2) s

/-- The replies to a list of operations. -/
def replies (step : σ → α → β × σ) : σ → List α → List β
  | _, [] => []
  | s, op :: ops => (step s op).1 :: replies step (step s op).2 ops

/-- Every operation meets `ok` in the state it is issued in. -/
def Each (step : σ → α → β × σ) (ok : σ → α → Prop) : σ → List α → Prop
  | _, [] => True
  | s, op :: ops => ok s op ∧ Each step ok (step s op).2 ops

variable {step : σ → α → β × σ} {ok : σ → α → Prop}

instance Each.decidable [∀ s op, Decidable (ok s op)] :
    ∀ (s : σ) (ops : List α), Decidable (Each step ok s ops)
  | _, [] => inferInstanceAs (Decidable True)
  | s, op :: ops =>
      have := Each.decidable (step s op).2 ops
      inferInstanceAs (Decidable (ok s op ∧ _))

@[simp] theorem exec_nil (s : σ) : exec step s [] = s := rfl

@[simp] theorem exec_cons (s : σ) (op : α) (ops : List α) :
    exec step s (op :: ops) = exec step (step s op).2 ops := rfl

theorem exec_append (s : σ) (ops ops' : List α) :
    exec step s (ops ++ ops') = exec step (exec step s ops) ops' := by
  simp [exec, List.foldl_append]

/-- An operation is never refused when the guard is trivial. -/
theorem each_true (s : σ) (ops : List α) : Each step (fun _ _ => True) s ops := by
  induction ops generalizing s with
  | nil => trivial
  | cons op ops ih => exact ⟨trivial, ih _⟩

/-- A guard on the operations alone. -/
theorem each_of_forall {p : α → Prop} {s : σ} {ops : List α} (h : ∀ op ∈ ops, p op) :
    Each step (fun _ => p) s ops := by
  induction ops generalizing s with
  | nil => trivial
  | cons op ops ih =>
      exact ⟨h op List.mem_cons_self, ih fun op' hop => h op' (List.mem_cons_of_mem _ hop)⟩

theorem Each.mono {ok' : σ → α → Prop} (himp : ∀ s op, ok s op → ok' s op) {s : σ}
    {ops : List α} (h : Each step ok s ops) : Each step ok' s ops := by
  induction ops generalizing s with
  | nil => trivial
  | cons op ops ih => exact ⟨himp s op h.1, ih h.2⟩

/-- Two guards that agree under an invariant, which the first one keeps, hold of the same runs. -/
theorem each_iff {ok' : σ → α → Prop} {Inv : σ → Prop}
    (hiff : ∀ s op, Inv s → (ok s op ↔ ok' s op))
    (hstep : ∀ s op, Inv s → ok s op → Inv (step s op).2) {s : σ} (ops : List α) (hs : Inv s) :
    Each step ok s ops ↔ Each step ok' s ops := by
  induction ops generalizing s with
  | nil => exact Iff.rfl
  | cons op ops ih =>
    rw [Each, Each, ← hiff s op hs]
    exact and_congr_right fun hok => ih (hstep s op hs hok)

/-- The guard held where an operation of the run was issued. -/
theorem Each.at {s : σ} {pre post : List α} {op : α} (h : Each step ok s (pre ++ op :: post)) :
    ok (exec step s pre) op := by
  induction pre generalizing s with
  | nil => exact h.1
  | cons op' pre ih => exact ih h.2

theorem Each.of_append {s : σ} {pre post : List α} (h : Each step ok s (pre ++ post)) :
    Each step ok s pre := by
  induction pre generalizing s with
  | nil => trivial
  | cons op pre ih => exact ⟨h.1, ih h.2⟩

/-- The guard holds for what follows an initial part of the run. -/
theorem Each.after {s : σ} {pre post : List α} (h : Each step ok s (pre ++ post)) :
    Each step ok (exec step s pre) post := by
  induction pre generalizing s with
  | nil => exact h
  | cons op pre ih => exact ih h.2

/-- **The invariant rule.** What holds at the start and is kept by every guarded
step holds after every guarded run. -/
theorem exec_invariant {Inv : σ → Prop}
    (hstep : ∀ s op, Inv s → ok s op → Inv (step s op).2) {s : σ} {ops : List α}
    (hs : Inv s) (h : Each step ok s ops) : Inv (exec step s ops) := by
  induction ops generalizing s with
  | nil => exact hs
  | cons op ops ih => exact ih (hstep s op hs h.1) h.2

/-- The abstract state after the same operations, given the replies the concrete
component made. -/
def follow (step : σ → α → β × σ) (astep : τ → α → β → τ) : σ → τ → List α → τ
  | _, t, [] => t
  | s, t, op :: ops => follow step astep (step s op).2 (astep t op (step s op).1) ops

theorem follow_append (step : σ → α → β × σ) (astep : τ → α → β → τ) (s : σ) (t : τ)
    (ops ops' : List α) : follow step astep s t (ops ++ ops') =
      follow step astep (exec step s ops) (follow step astep s t ops) ops' := by
  induction ops generalizing s t with
  | nil => rfl
  | cons op ops ih => exact ih _ _

/-- **Forward simulation.** A relation kept by every guarded step relates the
concrete and the abstract state after every guarded run. -/
theorem simulation {astep : τ → α → β → τ} {R : σ → τ → Prop}
    (hstep : ∀ s t op, R s t → ok s op → R (step s op).2 (astep t op (step s op).1))
    {s : σ} {t : τ} {ops : List α} (hR : R s t) (h : Each step ok s ops) :
    R (exec step s ops) (follow step astep s t ops) := by
  induction ops generalizing s t with
  | nil => exact hR
  | cons op ops ih => exact ih (hstep s t op hR h.1) h.2

end MlxRuntime.Run
