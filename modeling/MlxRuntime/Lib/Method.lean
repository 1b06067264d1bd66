import Mathlib.Logic.Basic

/-!
# Methods that may raise

A method of an object returns or raises, and the object keeps what was written before a raise.
`wp` is what a method establishes, with a condition for each of the two ends.

## Main definitions

* `Method ε σ α` — a method of an object with state `σ`, as a monad.
* `get`, `modify`, `ofExcept`, `call`, `when`, `attempt` — reading, writing, raising, a part of
  the object that may raise, a condition, and a handler.
* `Method.wp`, `wp_bind`, `wp_forM` — the rules.
-/

namespace MlxRuntime

/-- What a method returns or raises, and the state it leaves. -/
structure Method (ε σ α : Type) where
  run : σ → Except ε α × σ

namespace Method

variable {ε ε' σ τ α β : Type}

@[ext] theorem ext {m n : Method ε σ α} (h : m.run = n.run) : m = n := by
  cases m; cases n
  congr

/-- Return, and write nothing. -/
protected def pure (a : α) : Method ε σ α := ⟨fun s => (.ok a, s)⟩

/-- One method after the other, when the first returns. -/
protected def bind (m : Method ε σ α) (f : α → Method ε σ β) : Method ε σ β :=
  ⟨fun s =>
    match m.run s with
    | (.ok a, s') => (f a).run s'
    | (.error e, s') => (.error e, s')⟩

instance : Monad (Method ε σ) where
  pure := Method.pure
  bind := Method.bind

/-- The state. -/
def get : Method ε σ σ := ⟨fun s => (.ok s, s)⟩

/-- A write. -/
def modify (f : σ → σ) : Method ε σ Unit := ⟨fun s => (.ok (), f s)⟩

/-- A value, or a raise. -/
def ofExcept (x : Except ε α) : Method ε σ α := ⟨fun s => (x, s)⟩

/-- A call that reads and writes a part of the state. -/
def call (part : σ → τ) (put : τ → σ → σ) (f : τ → Except ε α × τ) : Method ε σ α :=
  ⟨fun s => ((f (part s)).1, put (f (part s)).2 s)⟩

/-- A method under a condition. -/
def when (c : Prop) [Decidable c] (m : Method ε σ Unit) : Method ε σ Unit :=
  if c then m else pure ()

/-- `try … except …`: what the method returned or raised. -/
def attempt (m : Method ε σ α) : Method ε' σ (Except ε α) :=
  ⟨fun s => (.ok (m.run s).1, (m.run s).2)⟩

@[simp] theorem run_pure (a : α) (s : σ) : (pure a : Method ε σ α).run s = (.ok a, s) := rfl

@[simp] theorem run_get (s : σ) : (get : Method ε σ σ).run s = (.ok s, s) := rfl

@[simp] theorem run_modify (f : σ → σ) (s : σ) :
    (modify f : Method ε σ Unit).run s = (.ok (), f s) := rfl

@[simp] theorem run_ofExcept (x : Except ε α) (s : σ) :
    (ofExcept x : Method ε σ α).run s = (x, s) := rfl

@[simp] theorem run_call (part : σ → τ) (put : τ → σ → σ) (f : τ → Except ε α × τ) (s : σ) :
    (call part put f).run s = ((f (part s)).1, put (f (part s)).2 s) := rfl

@[simp] theorem run_attempt (m : Method ε σ α) (s : σ) :
    (attempt m : Method ε' σ (Except ε α)).run s = (.ok (m.run s).1, (m.run s).2) := rfl

theorem run_bind (m : Method ε σ α) (f : α → Method ε σ β) (s : σ) :
    (m >>= f).run s =
      match m.run s with
      | (.ok a, s') => (f a).run s'
      | (.error e, s') => (.error e, s') := rfl

theorem run_bind_ok {m : Method ε σ α} {f : α → Method ε σ β} {s s' : σ} {a : α}
    (h : m.run s = (.ok a, s')) : (m >>= f).run s = (f a).run s' := by rw [run_bind, h]

theorem run_bind_error {m : Method ε σ α} {f : α → Method ε σ β} {s s' : σ} {e : ε}
    (h : m.run s = (.error e, s')) : (m >>= f).run s = (.error e, s') := by rw [run_bind, h]

/-! ## What a method establishes -/

/-- From `s` the method returns with `Q` or raises with `E`. -/
def wp (m : Method ε σ α) (Q : α → σ → Prop) (E : ε → σ → Prop) (s : σ) : Prop :=
  match m.run s with
  | (.ok a, s') => Q a s'
  | (.error e, s') => E e s'

variable {m : Method ε σ α} {Q : α → σ → Prop} {E : ε → σ → Prop} {s : σ}

theorem wp_of_run {s' : σ} {a : α} (h : m.run s = (.ok a, s')) (hQ : Q a s') : m.wp Q E s := by
  rw [wp, h]
  exact hQ

@[simp] theorem wp_pure (a : α) : (pure a : Method ε σ α).wp Q E s ↔ Q a s := Iff.rfl

@[simp] theorem wp_get {Q : σ → σ → Prop} : (get : Method ε σ σ).wp Q E s ↔ Q s s := Iff.rfl

@[simp] theorem wp_modify {Q : Unit → σ → Prop} (f : σ → σ) :
    (modify f : Method ε σ Unit).wp Q E s ↔ Q () (f s) := Iff.rfl

theorem wp_ofExcept (x : Except ε α) :
    (ofExcept x : Method ε σ α).wp Q E s ↔
      (∀ a, x = .ok a → Q a s) ∧ ∀ e, x = .error e → E e s := by
  cases x <;> simp [wp]

theorem wp_call (part : σ → τ) (put : τ → σ → σ) (f : τ → Except ε α × τ) :
    (call part put f).wp Q E s ↔
      (∀ a t, f (part s) = (.ok a, t) → Q a (put t s)) ∧
        ∀ e t, f (part s) = (.error e, t) → E e (put t s) := by
  rcases h : f (part s) with ⟨_ | _, t⟩ <;> simp [wp, h]

@[simp] theorem wp_bind (f : α → Method ε σ β) {Q : β → σ → Prop} :
    (m >>= f).wp Q E s ↔ m.wp (fun a s' => (f a).wp Q E s') E s := by
  rw [wp, wp, run_bind]
  rcases m.run s with ⟨_ | _, s'⟩ <;> rfl

theorem wp_when {c : Prop} [Decidable c] {m : Method ε σ Unit} {Q : Unit → σ → Prop} :
    (when c m).wp Q E s ↔ (c → m.wp Q E s) ∧ (¬ c → Q () s) := by
  by_cases h : c <;> simp [when, h]

theorem wp_attempt {Q : Except ε α → σ → Prop} {E : ε' → σ → Prop} :
    (attempt m).wp Q E s ↔ m.wp (fun a => Q (.ok a)) (fun e => Q (.error e)) s := by
  rw [wp, wp, run_attempt]
  rcases m.run s with ⟨_ | _, s'⟩ <;> rfl

/-- Consequence. -/
theorem wp.mono {Q' : α → σ → Prop} {E' : ε → σ → Prop} (h : m.wp Q E s)
    (hQ : ∀ a s', Q a s' → Q' a s') (hE : ∀ e s', E e s' → E' e s') : m.wp Q' E' s := by
  revert h
  rw [wp, wp]
  rcases m.run s with ⟨_ | _, s'⟩
  · exact hE _ _
  · exact hQ _ _

theorem wp.and {Q' : α → σ → Prop} {E' : ε → σ → Prop} (h : m.wp Q E s) (h' : m.wp Q' E' s) :
    m.wp (fun a s' => Q a s' ∧ Q' a s') (fun e s' => E e s' ∧ E' e s') s := by
  revert h h'
  rw [wp, wp, wp]
  rcases m.run s with ⟨_ | _, s'⟩
  · exact And.intro
  · exact And.intro

/-- A condition of the state the method leaves, however it ends. -/
theorem wp.after {I : σ → Prop} (h : m.wp (fun _ => I) (fun _ => I) s) : I (m.run s).2 := by
  revert h
  rw [wp]
  rcases m.run s with ⟨_ | _, s'⟩ <;> exact id

/-- **The loop rule.** -/
theorem wp_forM {I : σ → Prop} {f : β → Method ε σ PUnit} {xs : List β}
    (h : ∀ x ∈ xs, ∀ s, I s → (f x).wp (fun _ => I) E s) (hs : I s) :
    (xs.forM f).wp (fun _ => I) E s := by
  induction xs generalizing s with
  | nil => exact hs
  | cons x xs ih =>
      change (f x >>= fun _ => xs.forM f).wp (fun _ => I) E s
      rw [wp_bind]
      refine (h x List.mem_cons_self s hs).mono (fun _ s' hs' => ?_) fun _ _ => id
      exact ih (fun y hy => h y (List.mem_cons_of_mem _ hy)) hs'

end Method
end MlxRuntime
