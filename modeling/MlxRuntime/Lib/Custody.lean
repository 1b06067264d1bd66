import MlxRuntime.Lib.Run
import Mathlib.Data.List.Perm.Basic
import Mathlib.Data.List.Nodup

/-!
# Custody of items

Items are submitted, wait in a queue, are taken into a batch, run, and end.  The log has what is
told of them: their progress, and that they ended.  `Move` is what may happen to an item; whatever
happens, an item that was submitted is in one place, or has ended once, and nothing is told of it
afterwards.

## Main definitions

* `Note`, `Custody`, `Custody.Move` — the log, the places, and what may happen.
* `Custody.Kept` — where the items are that were submitted.
* `Move.kept`, `Moves.kept`, `Kept.submit`, `Kept.refuse` — it stays so.
* `Custody.Effect`, `Custody.kept_exec` — operations, and runs of them.
-/

namespace MlxRuntime

/-- What is told of an item. -/
inductive Note (ρ : Type)
  | progress (item : ρ)
  | ended (item : ρ)
  deriving DecidableEq

/-- The item that a note ends. -/
def Note.ended? {ρ : Type} : Note ρ → Option ρ
  | .progress _ => none
  | .ended item => some item

/-- The places of items, and what was told. -/
@[ext] structure Custody (ρ : Type) where
  queue : List ρ
  batch : List ρ
  running : List ρ
  log : List (Note ρ)

namespace Custody

variable {ρ : Type} {c c' c'' : Custody ρ} {submitted : List ρ} {item : ρ}

/-- The items that ended, once for each note. -/
def ended (log : List (Note ρ)) : List ρ := log.filterMap Note.ended?

/-- What may happen to an item. -/
inductive Move : Custody ρ → Custody ρ → Prop
  | take {c : Custody ρ} {l l' : List ρ} {item : ρ} (h : c.queue = l ++ item :: l') :
      Move c { c with queue := l ++ l', batch := c.batch ++ [item] }
  | start {c : Custody ρ} {running : List ρ} (h : running.Perm (c.running ++ c.batch)) :
      Move c { c with batch := [], running := running }
  | progress {c : Custody ρ} {item : ρ} (h : item ∈ c.running) :
      Move c { c with log := c.log ++ [.progress item] }
  | endQueued {c : Custody ρ} {l l' : List ρ} {item : ρ} (h : c.queue = l ++ item :: l') :
      Move c { c with queue := l ++ l', log := c.log ++ [.ended item] }
  | endTaken {c : Custody ρ} {l l' : List ρ} {item : ρ} (h : c.batch = l ++ item :: l') :
      Move c { c with batch := l ++ l', log := c.log ++ [.ended item] }
  | endRunning {c : Custody ρ} {l l' : List ρ} {item : ρ} (h : c.running = l ++ item :: l') :
      Move c { c with running := l ++ l', log := c.log ++ [.ended item] }

/-- Any number of moves. -/
abbrev Moves : Custody ρ → Custody ρ → Prop := Relation.ReflTransGen Move

/-- The items that were submitted are in one place each or ended once, those that wait do so in
the order of their submission, and nothing is told of an item that ended. -/
structure Kept (submitted : List ρ) (c : Custody ρ) : Prop where
  places : (c.queue ++ c.batch ++ c.running ++ ended c.log).Perm submitted
  inOrder : c.queue.Sublist submitted
  quiet : c.log.Pairwise fun n n' => ∀ item, n = .ended item → n' ≠ .progress item

theorem kept_empty : Kept [] (⟨[], [], [], []⟩ : Custody ρ) :=
  ⟨List.Perm.refl _, List.Sublist.refl _, List.Pairwise.nil⟩

@[simp] theorem ended_progress (log : List (Note ρ)) (item : ρ) :
    ended (log ++ [.progress item]) = ended log := by
  simp [ended, Note.ended?]

@[simp] theorem ended_ended (log : List (Note ρ)) (item : ρ) :
    ended (log ++ [.ended item]) = ended log ++ [item] := by
  simp [ended, Note.ended?]

theorem mem_ended {log : List (Note ρ)} : item ∈ ended log ↔ Note.ended item ∈ log := by
  simp only [ended, List.mem_filterMap]
  constructor
  · rintro ⟨n | n, hn, h⟩
    · cases h
    · obtain rfl : n = item := by simpa [Note.ended?] using h
      exact hn
  · exact fun h => ⟨_, h, rfl⟩

/-- Nothing was told of the end of an item that is still in a place. -/
theorem Kept.not_ended (h : Kept submitted c) (hnodup : submitted.Nodup)
    (hitem : item ∈ c.queue ++ c.batch ++ c.running) : item ∉ ended c.log := by
  have := h.places.nodup_iff.mpr hnodup
  exact fun hended => List.disjoint_of_nodup_append this hitem hended

/-- The log is right: nothing is told of an item after its end. -/
def Quiet (log : List (Note ρ)) : Prop :=
  log.Pairwise fun n n' => ∀ item, n = .ended item → n' ≠ .progress item

theorem Quiet.ended {log : List (Note ρ)} (h : Quiet log) (item : ρ) :
    Quiet (log ++ [.ended item]) := by
  refine List.pairwise_append.mpr ⟨h, List.pairwise_singleton _ _, ?_⟩
  intro n _ n' hn' other _
  rw [List.mem_singleton.mp hn']
  exact nofun

theorem Quiet.progress {log : List (Note ρ)} (h : Quiet log) (hitem : Note.ended item ∉ log) :
    Quiet (log ++ [.progress item]) := by
  refine List.pairwise_append.mpr ⟨h, List.pairwise_singleton _ _, ?_⟩
  rintro n hn n' hn' other rfl
  rw [List.mem_singleton.mp hn']
  rintro ⟨⟩
  exact hitem hn

/-- What lies in the places, counted. -/
theorem Kept.of_count [DecidableEq ρ] (h : Kept submitted c)
    (hcount : ∀ item, c'.queue.count item + c'.batch.count item + c'.running.count item +
      (ended c'.log).count item = c.queue.count item + c.batch.count item + c.running.count item +
      (ended c.log).count item) (hqueue : c'.queue.Sublist c.queue) (hquiet : Quiet c'.log) :
    Kept submitted c' := by
  refine ⟨?_, hqueue.trans h.inOrder, hquiet⟩
  refine List.Perm.trans (List.perm_iff_count.mpr fun item => ?_) h.places
  simpa only [List.count_append] using hcount item

/-- **One move.** -/
theorem Move.kept (hmove : Move c c') (hnodup : submitted.Nodup) (h : Kept submitted c) :
    Kept submitted c' := by
  classical
  cases hmove with
  | @take l l' item hqueue =>
      refine h.of_count (fun other => ?_) ?_ h.quiet
      · simp only [hqueue, List.count_append, List.count_cons, List.count_nil]
        omega
      · rw [hqueue]
        exact (List.sublist_cons_self item l').append_left l
  | start hperm =>
      refine h.of_count (fun other => ?_) (List.Sublist.refl _) h.quiet
      simp only [hperm.count_eq, List.count_append, List.count_nil]
      omega
  | @progress item hitem =>
      refine h.of_count (fun other => ?_) (List.Sublist.refl _) (Quiet.progress h.quiet ?_)
      · rw [ended_progress]
      · rw [← mem_ended]
        exact h.not_ended hnodup (List.mem_append_right _ hitem)
  | @endQueued l l' item hqueue =>
      refine h.of_count (fun other => ?_) ?_ (Quiet.ended h.quiet _)
      · simp only [ended_ended, hqueue, List.count_append, List.count_cons, List.count_nil]
        omega
      · rw [hqueue]
        exact (List.sublist_cons_self item l').append_left l
  | endTaken hbatch =>
      refine h.of_count (fun other => ?_) (List.Sublist.refl _) (Quiet.ended h.quiet _)
      simp only [ended_ended, hbatch, List.count_append, List.count_cons, List.count_nil]
      omega
  | endRunning hrunning =>
      refine h.of_count (fun other => ?_) (List.Sublist.refl _) (Quiet.ended h.quiet _)
      simp only [ended_ended, hrunning, List.count_append, List.count_cons, List.count_nil]
      omega

/-- **A run.** -/
theorem Moves.kept (hmoves : Moves c c') (hnodup : submitted.Nodup) (h : Kept submitted c) :
    Kept submitted c' := by
  induction hmoves with
  | refl => exact h
  | tail _ hmove ih => exact hmove.kept hnodup ih

/-- An item is submitted. -/
theorem Kept.submit (h : Kept submitted c) (item : ρ) :
    Kept (submitted ++ [item]) { c with queue := c.queue ++ [item] } := by
  classical
  refine ⟨?_, h.inOrder.append_right _, h.quiet⟩
  refine List.perm_iff_count.mpr fun other => ?_
  have := h.places.count_eq other
  simp only [List.count_append] at this ⊢
  omega

/-- An item is submitted, and refused. -/
theorem Kept.refuse (h : Kept submitted c) (item : ρ) :
    Kept (submitted ++ [item]) { c with log := c.log ++ [.ended item] } := by
  classical
  refine ⟨?_, h.inOrder.trans (List.sublist_append_left _ _), Quiet.ended h.quiet item⟩
  refine List.perm_iff_count.mpr fun other => ?_
  have := h.places.count_eq other
  simp only [ended_ended, List.count_append] at this ⊢
  omega

/-! ## Operations -/

/-- What an operation does: items move, or one is submitted, and perhaps refused. -/
inductive Effect (c : Custody ρ) : Option ρ → Custody ρ → Prop
  | moved {c' : Custody ρ} (h : Moves c c') : Effect c none c'
  | queued (item : ρ) : Effect c (some item) { c with queue := c.queue ++ [item] }
  | refused (item : ρ) : Effect c (some item) { c with log := c.log ++ [.ended item] }

theorem Effect.kept {item : Option ρ} (heffect : Effect c item c') (hnodup : submitted.Nodup)
    (h : Kept submitted c) : Kept (submitted ++ item.toList) c' := by
  cases heffect with
  | moved hmoves =>
      rw [Option.toList_none, List.append_nil]
      exact hmoves.kept hnodup h
  | queued item => exact h.submit item
  | refused item => exact h.refuse item

section Run

variable {σ α β : Type} {step : σ → α → β × σ} {item : σ → α → Option ρ} {view : σ → Custody ρ}
  {Good : σ → Prop}

/-- The items that a run submits. -/
def submissions (step : σ → α → β × σ) (item : σ → α → Option ρ) : σ → List α → List ρ
  | _, [] => []
  | s, op :: ops => (item s op).toList ++ submissions step item (step s op).2 ops

/-- **A run of operations.** -/
theorem kept_exec (hstep : ∀ s op, Good s →
      Effect (view s) (item s op) (view (step s op).2) ∧ Good (step s op).2)
    {s : σ} {ops : List α} (hnodup : (submitted ++ submissions step item s ops).Nodup)
    (hs : Good s) (h : Kept submitted (view s)) :
    Kept (submitted ++ submissions step item s ops) (view (Run.exec step s ops)) ∧
      Good (Run.exec step s ops) := by
  induction ops generalizing s submitted with
  | nil =>
      rw [submissions, List.append_nil]
      exact ⟨h, hs⟩
  | cons op ops ih =>
      rw [submissions, ← List.append_assoc] at hnodup ⊢
      obtain ⟨heffect, hgood⟩ := hstep s op hs
      exact ih hnodup hgood (heffect.kept (List.Nodup.of_append_left
        (List.Nodup.of_append_left hnodup)) h)

/-- The items of a run are distinct, when those of its operations are. -/
theorem submissions_sublist {named : α → Option ρ}
    (hnamed : ∀ s op x, item s op = some x → named op = some x) (s : σ) (ops : List α) :
    (submissions step item s ops).Sublist (ops.filterMap named) := by
  induction ops generalizing s with
  | nil => exact List.Sublist.refl _
  | cons op ops ih =>
      rw [submissions]
      cases hitem : item s op with
      | none =>
          refine (ih _).trans (List.Sublist.filterMap _ (List.sublist_cons_self op ops))
      | some x =>
          rw [List.filterMap_cons_some (hnamed s op x hitem)]
          exact (ih _).cons_cons x

theorem submissions_eq_filterMap (named : α → Option ρ) (s : σ) (ops : List α) :
    submissions step (fun _ => named) s ops = ops.filterMap named := by
  induction ops generalizing s with
  | nil => rfl
  | cons op ops ih =>
      rw [submissions, ih]
      cases hnamed : named op with
      | none => rw [List.filterMap_cons_none hnamed, Option.toList_none, List.nil_append]
      | some x => rw [List.filterMap_cons_some hnamed, Option.toList_some, List.singleton_append]

end Run

/-! ## What that says of an item -/

theorem Kept.count [DecidableEq ρ] (h : Kept submitted c) (hnodup : submitted.Nodup)
    (hitem : item ∈ submitted) :
    c.queue.count item + c.batch.count item + c.running.count item + (ended c.log).count item = 1 := by
  have := h.places.count_eq item
  rw [List.count_eq_one_of_mem hnodup hitem] at this
  simpa only [List.count_append] using this

/-- Where nothing waits or runs, each item has ended once. -/
theorem Kept.count_ended [DecidableEq ρ] (h : Kept submitted c) (hnodup : submitted.Nodup)
    (hqueue : c.queue = []) (hbatch : c.batch = []) (hrunning : c.running = [])
    (hitem : item ∈ submitted) : (ended c.log).count item = 1 := by
  have := h.count hnodup hitem
  rw [hqueue, hbatch, hrunning] at this
  simpa using this

end Custody
end MlxRuntime
