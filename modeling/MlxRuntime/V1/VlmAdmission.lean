import MlxRuntime.V1.Delivery

/-!
# Who is admitted first

The VLM scheduler takes requests with the settings of its generator's sampler, and puts the others
aside.  A generator that has nothing to run keeps its settings until it is closed, so a request at
the head of the queue may be passed by later ones with the old settings.

## Main definitions

* `VlmScheduler.admissionState`, `VlmScheduler.admitted` — a tick up to its admission, and the
  requests that it takes.
* `VlmScheduler.HeadFits` — the head of the queue is not passed.
* `Takes` — requests that are taken from a queue.
-/

namespace MlxRuntime

/-- Some requests are taken from a queue, the others stay in it. -/
inductive Takes {α : Type} : List α → List α → List α → Prop
  | stop (queue : List α) : Takes queue [] queue
  | take {x : α} {queue taken rest : List α} (h : Takes queue taken rest) :
      Takes (x :: queue) (x :: taken) rest
  | leave {x : α} {queue taken rest : List α} (h : Takes queue taken rest) :
      Takes (x :: queue) taken (x :: rest)

namespace Takes

variable {α : Type} {queue taken rest : List α}

theorem sublist (h : Takes queue taken rest) : rest.Sublist queue := by
  induction h with
  | stop queue => exact List.Sublist.refl queue
  | take h ih => exact ih.cons _
  | leave h ih => exact ih.cons_cons _

theorem perm (h : Takes queue taken rest) : (taken ++ rest).Perm queue := by
  induction h with
  | stop queue => exact List.Perm.refl queue
  | take h ih => exact ih.cons _
  | leave h ih => exact List.perm_middle.trans (ih.cons _)

theorem rest_eq (h : Takes queue [] rest) : rest = queue :=
  h.sublist.eq_of_length (by simpa using h.perm.length_eq)

end Takes

namespace VlmScheduler

open Method

variable {ρ F κ ξ ι γ ω : Type} [DecidableEq ρ] [DecidableEq F]
  (engine : VlmEngine γ ρ F κ ξ ι) (gen : VlmGenerator γ F κ ξ) (store : VlmCaches ω κ ξ)
  (config : V1Config)

/-! ## An admission -/

/-- A tick up to its admission; the answer is whether there is one. -/
def beforeAdmission : Call ρ F κ ξ γ ω Bool := do
  let s ← .get
  if s.generator = none ∧ s.pending = [] then return false
  else do
    .when (s.active.keys ≠ [] ∧ s.generator.isSome) do
      stepGenerator engine gen store config
      reportActiveBatch gen store
    let s ← .get
    .when (s.generator.isSome ∧ s.active.keys = [] ∧ s.pending = []) (close store)
    return true

/-- The state in which a tick calls `_admit_pending`, if it does. -/
def admissionState (s : VlmScheduler ρ F κ ξ γ ω) : Option (VlmScheduler ρ F κ ξ γ ω) :=
  match (beforeAdmission engine gen store config).run s with
  | (.ok true, a) => some a
  | (.ok false, _) | (.error _, _) => none

/-- The requests that the loop of `_admit_pending` takes, in order. -/
def takenBy (marks : ρ → ℕ → Bool) :
    List (ChatRequest ρ F) → List (ScheduledVlmRequest ρ F κ ξ) → VlmScheduler ρ F κ ξ γ ω →
      List (ChatRequest ρ F)
  | [], _, _ => []
  | request :: rest, batch, s =>
      if config.decodeConcurrency ≤ s.active.keys.length + batch.length then []
      else if some (samplingKey request) ≠ s.generatorSamplingKey then
        takenBy marks rest batch { s with pending := rest }
      else
        match (prepare engine store config marks request).run { s with pending := rest } with
        | (.error _, _) => [request]
        | (.ok job, s') =>
            request ::
              if config.promptConcurrency ≤ (batch ++ job.toList).length then []
              else takenBy marks rest (batch ++ job.toList) s'

/-- The requests that an admission takes, in order. -/
def admitted (marks : ρ → ℕ → Bool) (s : VlmScheduler ρ F κ ξ γ ω) : List (ChatRequest ρ F) :=
  if s.pending = [] ∨ config.decodeConcurrency ≤ s.active.keys.length then []
  else
    match (ensureGenerator gen).run s with
    | (.ok true, s') => takenBy engine store config marks s'.pending [] s'
    | (.ok false, _) | (.error _, _) => []

/-- With nothing to run, the head of the queue has the settings of the generator, or no request
has; or there is no generator. -/
def HeadFits (s : VlmScheduler ρ F κ ξ γ ω) : Prop :=
  s.active.keys = [] → s.pending ≠ [] →
    s.generator = none ∨ s.pending.head?.map samplingKey = s.generatorSamplingKey ∨
      ∀ request ∈ s.pending, some (samplingKey request) ≠ s.generatorSamplingKey

instance (s : VlmScheduler ρ F κ ξ γ ω) : Decidable s.HeadFits :=
  inferInstanceAs (Decidable (_ → _ → _ ∨ _ ∨ _))

/-- The condition on a step: the head fits when a tick admits. -/
def Fits (s : VlmScheduler ρ F κ ξ γ ω) : Op ρ F → Prop
  | .submit _ | .cancel _ => True
  | .tick _ => ∀ a ∈ admissionState engine gen store config s, a.HeadFits

instance (s : VlmScheduler ρ F κ ξ γ ω) (op : Op ρ F) :
    Decidable (Fits engine gen store config s op) :=
  match op with
  | .submit _ | .cancel _ => inferInstanceAs (Decidable True)
  | .tick _ => inferInstanceAs (Decidable (∀ a ∈ admissionState engine gen store config s, _))

variable {engine gen store config} {marks : ρ → ℕ → Bool} {s a : VlmScheduler ρ F κ ξ γ ω}

/-- A tick is what comes before its admission, and the admission. -/
theorem run_tick (marks : ρ → ℕ → Bool) (s : VlmScheduler ρ F κ ξ γ ω) :
    (tick engine gen store config marks).run s =
      match (beforeAdmission engine gen store config).run s with
      | (.ok true, a) => (admitPending engine gen store config marks).run a
      | (.ok false, s') => (.ok (), s')
      | (.error e, s') => (.error e, s') := by
  rw [tick, beforeAdmission, run_bind, run_bind]
  simp only [run_get]
  split
  · rfl
  · simp only [run_bind]
    rcases (when _ _).run s with ⟨_ | _, s'⟩
    · rfl
    · simp only [run_get]
      by_cases hidle : s'.generator.isSome ∧ s'.active.keys = [] ∧ s'.pending = []
      · simp only [when, if_pos hidle]
        rfl
      · simp only [when, if_neg hidle]
        rfl

/-! ## What a tick does before its admission -/

/-- The queue is as it was. -/
abbrev Queued (queue : List (ChatRequest ρ F)) (s : VlmScheduler ρ F κ ξ γ ω) : Prop :=
  s.pending = queue

omit [DecidableEq ρ] [DecidableEq F] in
theorem queued_generate {α : Type} (f : γ → Except PyError α × γ)
    {queue : List (ChatRequest ρ F)} (h : Queued queue s) :
    (generate f : Call ρ F κ ξ γ ω α).wp (fun _ => Queued queue) (fun _ => Queued queue) s := by
  rw [generate, wp_call]
  exact ⟨fun _ _ _ => h, fun _ _ _ => h⟩

omit [DecidableEq ρ] [DecidableEq F] in
theorem queued_finishActive (response : VlmGeneration κ) (finishReason : String)
    {queue : List (ChatRequest ρ F)} (h : Queued queue s) :
    (finishActive engine gen store config response finishReason : Call ρ F κ ξ γ ω Unit).wp
      (fun _ => Queued queue) (fun _ => Queued queue) s := by
  rw [finishActive, wp_bind, wp_get]
  split
  · exact h
  · simp only [finish, wp_bind]
    rw [wp_ofExcept]
    refine ⟨fun rendered _ => ?_, fun e _ => h⟩
    rw [reportActiveBatch, wp_modify]
    unfold rememberPrompt
    split
    · exact h
    · dsimp only
      split <;> exact h

omit [DecidableEq ρ] [DecidableEq F] in
theorem queued_acceptResponse (response : VlmGeneration κ) {queue : List (ChatRequest ρ F)}
    (h : Queued queue s) :
    (acceptResponse engine gen store config response : Call ρ F κ ξ γ ω Unit).wp
      (fun _ => Queued queue) (fun _ => Queued queue) s := by
  rw [acceptResponse, wp_bind, wp_get]
  split
  · exact h
  · simp only [wp_bind, putJob, wp_modify]
    rw [wp_ofExcept]
    refine ⟨fun delta _ => ?_, fun e _ => h⟩
    rw [wp_when]
    refine ⟨fun _ => ?_, fun _ => ?_⟩ <;>
    · simp only [emit, wp_modify]
      split
      · exact h
      · exact queued_finishActive response _ h

omit [DecidableEq ρ] [DecidableEq F] in
theorem queued_stepGenerator {queue : List (ChatRequest ρ F)} (h : Queued queue s) :
    (stepGenerator engine gen store config : Call ρ F κ ξ γ ω Unit).wp
      (fun _ => Queued queue) (fun _ => Queued queue) s := by
  rw [stepGenerator, wp_bind]
  refine (queued_generate gen.next h).mono (fun r s' hs' => ?_) fun _ _ => id
  rw [wp_bind]
  refine (wp_forM (fun progress _ s hs => ?_) hs').mono (fun _ s' hs' => ?_) fun _ _ => id
  · rw [acceptProgress, wp_bind, wp_get]
    split <;> exact hs
  · exact wp_forM (fun response _ _ => queued_acceptResponse response) hs'

variable (engine gen store config) in
omit [DecidableEq ρ] [DecidableEq F] in
/-- The queue of an admission is the one there was. -/
theorem queued_beforeAdmission {queue : List (ChatRequest ρ F)} (h : Queued queue s) :
    (beforeAdmission engine gen store config : Call ρ F κ ξ γ ω Bool).wp
      (fun _ => Queued queue) (fun _ => Queued queue) s := by
  have hrest : ∀ s', Queued queue s' → (do
      let s ← .get
      .when (s.generator.isSome ∧ s.active.keys = [] ∧ s.pending = []) (close store)
      return true : Call ρ F κ ξ γ ω Bool).wp (fun _ => Queued queue) (fun _ => Queued queue)
        s' := by
    intro s' hs'
    rw [wp_bind, wp_get, wp_bind, wp_when]
    exact ⟨fun _ => hs', fun _ => hs'⟩
  rw [beforeAdmission, wp_bind, wp_get]
  split
  · exact h
  · rw [wp_bind, wp_when]
    refine ⟨fun _ => ?_, fun _ => hrest s h⟩
    rw [wp_bind]
    refine (queued_stepGenerator h).mono (fun _ s' hs' => ?_) fun _ _ => id
    rw [reportActiveBatch, wp_modify]
    exact hrest _ hs'

/-! ## What an admission takes -/

variable (engine store config marks) in
omit [DecidableEq F] in
/-- A preparation keeps the queue and the generator, and does not raise. -/
theorem steady_prepare (request : ChatRequest ρ F) (s : VlmScheduler ρ F κ ξ γ ω) :
    (prepare engine store config marks request :
      Call ρ F κ ξ γ ω (Option (ScheduledVlmRequest ρ F κ ξ))).wp
      (fun _ => Steady (fun _ _ => False) s) (fun _ _ => False) s := by
  have hengine : EngineKeepsUids engine fun _ _ => False :=
    ⟨fun _ _ _ => id, fun _ _ _ _ => id, fun _ _ _ => id, fun _ _ _ _ => id, fun _ _ _ => id⟩
  have hprepared := framed_prepareRequest store hengine (marks request.requestId) request
    (⟨⟨rfl, rfl, rfl, rfl, fun _ => id⟩, rfl⟩ : Framed (fun _ _ => False) s
      { s with preparing := request.requestId :: s.preparing })
  have hend : ∀ s' result, Framed (fun _ _ => False) s s' → (do
      let job ← endPreparation engine store config request.requestId result
      .modify fun s => { s with
        preparing := s.preparing.filter (· ≠ request.requestId)
        cancelledPreparing := s.cancelledPreparing.filter (· ≠ request.requestId) }
      return job : Call ρ F κ ξ γ ω (Option (ScheduledVlmRequest ρ F κ ξ))).wp
        (fun _ => Steady (fun _ _ => False) s) (fun _ _ => False) s' := by
    intro s' result h
    match result with
    | .ok job => exact h.toSteady.trans ⟨rfl, rfl, rfl, rfl, fun _ => id⟩
    | .error .cancelled => exact h.toSteady.trans ⟨rfl, rfl, rfl, rfl, fun _ => id⟩
    | .error (.raised e) => exact h.toSteady.trans ⟨rfl, rfl, rfl, rfl, fun _ => id⟩
  unfold prepare
  rw [wp_bind, wp_modify, wp_bind, wp_attempt]
  refine hprepared.mono ?_ ?_
  · exact fun job s' h => hend s' (.ok job) h.1
  · exact fun e s' h => hend s' (.error e) h

/-- What the loop of `_admit_pending` has done. -/
structure Taken (queue skipped taken : List (ChatRequest ρ F))
    (batch : List (ScheduledVlmRequest ρ F κ ξ)) (s : VlmScheduler ρ F κ ξ γ ω)
    (r : List (ChatRequest ρ F) × List (ScheduledVlmRequest ρ F κ ξ))
    (s' : VlmScheduler ρ F κ ξ γ ω) : Prop where
  takes : ∃ rest, r.1 ++ s'.pending = skipped ++ rest ∧ Takes queue taken rest ∧
    ∀ head tail, queue = head :: tail → taken ≠ [] →
      some (samplingKey head) = s.generatorSamplingKey → rest.Sublist tail
  nothing : taken = [] → r.2 = batch
  active : s'.active = s.active
  generator : s'.generator = s.generator

variable (engine store config marks) in
/-- The loop takes the requests of `takenBy`. -/
theorem taken_takeBatch {queue : List (ChatRequest ρ F)} (skipped : List (ChatRequest ρ F))
    (batch : List (ScheduledVlmRequest ρ F κ ξ)) (hqueue : s.pending = queue) :
    (takeBatch engine store config marks queue skipped batch : Call ρ F κ ξ γ ω _).wp
      (Taken queue skipped (takenBy engine store config marks queue batch s) batch s)
      (fun _ _ => False) s := by
  induction queue generalizing skipped batch s with
  | nil =>
      refine ⟨⟨[], ?_, .stop [], fun _ _ h => by cases h⟩, fun _ => rfl, rfl, rfl⟩
      rw [hqueue]
  | cons request rest ih =>
      rw [takeBatch, takenBy, wp_bind, wp_get]
      by_cases hfull : config.decodeConcurrency ≤ s.active.keys.length + batch.length
      · rw [if_pos hfull, if_pos hfull]
        refine ⟨⟨request :: rest, ?_, .stop _, fun _ _ _ h => absurd rfl h⟩, fun _ => rfl, rfl, rfl⟩
        rw [hqueue]
      · rw [if_neg hfull, if_neg hfull, wp_bind, wp_modify]
        by_cases hother : some (samplingKey request) ≠ s.generatorSamplingKey
        · rw [if_pos hother, if_pos hother]
          refine (ih _ _ rfl).mono (fun r s' h => ?_) fun _ _ => id
          obtain ⟨rest', heq, htakes, -⟩ := h.takes
          refine ⟨⟨request :: rest', ?_, htakes.leave, fun head tail hcons _ hkey => ?_⟩,
            h.nothing, h.active, h.generator⟩
          · rw [heq, List.append_assoc]
            rfl
          · obtain ⟨rfl, rfl⟩ := List.cons.inj hcons
            exact absurd hkey hother
        · rw [if_neg hother, if_neg hother]
          have hprepare := steady_prepare engine store config marks request
            { s with pending := rest }
          unfold wp at hprepare
          rcases hrun : (prepare engine store config marks request).run
            { s with pending := rest } with ⟨_ | job, s₁⟩
          · rw [hrun] at hprepare
            exact hprepare.elim
          · rw [hrun] at hprepare
            dsimp only at hprepare ⊢
            rw [wp_bind]
            refine wp_of_run hrun ?_
            by_cases hlimit : config.promptConcurrency ≤ (batch ++ job.toList).length
            · rw [if_pos hlimit, if_pos hlimit]
              refine ⟨⟨rest, ?_, (Takes.stop rest).take, fun head tail hcons _ _ => ?_⟩,
                fun h => absurd h (List.cons_ne_nil _ _), hprepare.active, hprepare.generator⟩
              · exact congrArg (skipped ++ ·) hprepare.pending
              · rw [(List.cons.inj hcons).2]
            · rw [if_neg hlimit, if_neg hlimit]
              refine (ih _ _ hprepare.pending).mono (fun r s' h => ?_) fun _ _ => id
              obtain ⟨rest', heq, htakes, -⟩ := h.takes
              refine ⟨⟨rest', heq, htakes.take, fun head tail hcons _ _ => ?_⟩,
                fun h => absurd h (List.cons_ne_nil _ _), h.active.trans hprepare.active,
                h.generator.trans hprepare.generator⟩
              rw [← (List.cons.inj hcons).2]
              exact htakes.sublist

/-- A request with the settings of the generator is taken first, when there is room. -/
theorem takenBy_head {head : ChatRequest ρ F} {rest : List (ChatRequest ρ F)}
    {batch : List (ScheduledVlmRequest ρ F κ ξ)}
    (hroom : ¬ config.decodeConcurrency ≤ s.active.keys.length + batch.length)
    (hkey : some (samplingKey head) = s.generatorSamplingKey) :
    (takenBy engine store config marks (head :: rest) batch s).head? = some head := by
  rw [takenBy, if_neg hroom, if_neg (not_not.mpr hkey)]
  split <;> rfl

theorem takenBy_eq_nil {queue : List (ChatRequest ρ F)}
    {batch : List (ScheduledVlmRequest ρ F κ ξ)}
    (h : ∀ request ∈ queue, some (samplingKey request) ≠ s.generatorSamplingKey) :
    takenBy engine store config marks queue batch s = [] := by
  induction queue generalizing s with
  | nil => rfl
  | cons request rest ih =>
      rw [takenBy, if_pos (h request List.mem_cons_self)]
      split
      · rfl
      · exact ih fun other hother => h other (List.mem_cons_of_mem _ hother)

/-- What the choice of a generator leaves, and what it answers. -/
structure Chosen (s : VlmScheduler ρ F κ ξ γ ω) (ready : Bool) (s' : VlmScheduler ρ F κ ξ γ ω) :
    Prop where
  pending : s'.pending = s.pending
  active : s'.active = s.active
  /-- The generator has the settings of the head, or it is the one there was. -/
  settings : ready = true → s'.generatorSamplingKey = s.pending.head?.map samplingKey ∨
    s.active.keys = [] ∧ s.generator ≠ none ∧ s'.generatorSamplingKey = s.generatorSamplingKey
  refused : ready = false → s.pending = [] ∨ s.active.keys ≠ []

variable (gen) in
omit [DecidableEq ρ] in
theorem chosen_ensureGenerator (s : VlmScheduler ρ F κ ξ γ ω) :
    (ensureGenerator gen : Call ρ F κ ξ γ ω Bool).wp (Chosen s)
      (fun _ s' => s'.pending = s.pending) s := by
  rw [ensureGenerator, wp_bind, wp_get]
  cases hgenerator : s.generator with
  | none =>
      cases hhead : s.pending.head? with
      | none =>
          exact ⟨rfl, rfl, fun h => absurd h Bool.false_ne_true,
            fun _ => .inl (List.head?_eq_none_iff.mp hhead)⟩
      | some head =>
          simp only [Option.map_some, wp_bind, wp_modify]
          rw [generate, wp_call]
          constructor
          · intro _ g _
            exact ⟨rfl, rfl, fun _ => .inl (by rw [hhead]; rfl), fun h => absurd h.symm
              Bool.false_ne_true⟩
          · intro _ g _
            rfl
  | some key =>
      dsimp only
      by_cases hnone : s.generatorSamplingKey = none
      · rw [if_pos hnone, wp_bind, wp_modify]
        exact ⟨rfl, rfl, fun _ => .inl rfl, fun h => absurd h.symm Bool.false_ne_true⟩
      · rw [if_neg hnone]
        refine ⟨rfl, rfl, fun h => ?_, fun h => ?_⟩
        · rcases of_decide_eq_true h with hactive | ⟨-, hnext⟩
          · exact .inr ⟨hactive, by rw [hgenerator]; exact Option.some_ne_none _, rfl⟩
          · exact .inl hnext.symm
        · exact .inr fun hactive => of_decide_eq_false h (.inl hactive)

/-- What an admission has done: `taken` are the requests that it took. -/
structure Admits (config : V1Config) (a : VlmScheduler ρ F κ ξ γ ω)
    (taken : List (ChatRequest ρ F)) (s' : VlmScheduler ρ F κ ξ γ ω) : Prop where
  takes : Takes a.pending taken s'.pending
  /-- Where the head fits, it is taken first. -/
  first : a.HeadFits → taken ≠ [] →
    taken.head? = a.pending.head? ∧ s'.pending.Sublist a.pending.tail

omit [DecidableEq ρ] [DecidableEq F] in
theorem admits_nothing (a : VlmScheduler ρ F κ ξ γ ω) {s' : VlmScheduler ρ F κ ξ γ ω}
    (h : s'.pending = a.pending) : Admits config a [] s' := by
  refine ⟨?_, fun _ hne => absurd rfl hne⟩
  rw [h]
  exact .stop _

/-- Without a generator, the head is taken first. -/
theorem admitted_of_none (hroom : 0 < config.decodeConcurrency) (hgenerator : a.generator = none)
    (hactive : a.active.keys = []) {head : ChatRequest ρ F} (hhead : a.pending.head? = some head)
    (hok : ((admitPending engine gen store config marks).run a).1 = .ok ()) :
    (admitted engine gen store config marks a).head? = some head := by
  obtain ⟨rest, hpending⟩ := List.head?_eq_some_iff.mp hhead
  have hbusy : ¬ (a.pending = [] ∨ config.decodeConcurrency ≤ a.active.keys.length) := by
    rw [hpending, hactive]
    simp only [List.cons_ne_nil, List.length_nil, Nat.le_zero, false_or]
    omega
  rw [admitPending, run_bind] at hok
  simp only [run_get] at hok
  rw [if_neg hbusy, run_bind] at hok
  rw [admitted, if_neg hbusy]
  -- `_make_batch_generator` returned, for the admission did
  rcases hconstruct : gen.construct (samplingKey head) a.library with ⟨e | _, g⟩
  · have hrun : (ensureGenerator gen : Call ρ F κ ξ γ ω Bool).run a = (.error e, { a with
        generatorSamplingKey := some (samplingKey head), library := g }) := by
      rw [ensureGenerator, run_bind]
      simp only [run_get, hgenerator, hhead, Option.map_some, run_bind, run_modify, generate,
        run_call, hconstruct]
    rw [hrun] at hok
    cases hok
  · have hrun : (ensureGenerator gen : Call ρ F κ ξ γ ω Bool).run a = (.ok true, { a with
        generator := some (samplingKey head)
        generatorSamplingKey := some (samplingKey head)
        library := g }) := by
      rw [ensureGenerator, run_bind]
      simp only [run_get, hgenerator, hhead, Option.map_some, run_bind, run_modify, generate,
        run_call, hconstruct]
      rfl
    rw [hrun]
    dsimp only
    rw [hpending]
    refine takenBy_head ?_ rfl
    rw [hactive]
    simp only [List.length_nil]
    omega

omit [DecidableEq ρ] [DecidableEq F] in
/-- What an admission does with a batch leaves the queue. -/
theorem queued_insertBatch (batch : List (ScheduledVlmRequest ρ F κ ξ))
    {queue : List (ChatRequest ρ F)} (h : Queued queue s) :
    (insertBatch gen store batch : Call ρ F κ ξ γ ω Unit).wp (fun _ => Queued queue)
      (fun _ => Queued queue) s := by
  rw [insertBatch, wp_bind]
  refine (queued_generate _ h).mono (fun uids s' hs' => ?_) fun _ _ => id
  split
  · exact hs'
  · exact hs'

variable (engine gen store config marks) in
/-- **An admission** takes the requests of `admitted`; when it takes none and nothing runs, there is
no generator after it. -/
theorem admits_admitPending (a : VlmScheduler ρ F κ ξ γ ω) :
    (admitPending engine gen store config marks).wp
      (fun _ s' => Admits config a (admitted engine gen store config marks a) s' ∧
        (0 < config.decodeConcurrency → a.pending ≠ [] → a.active.keys = [] →
          admitted engine gen store config marks a = [] →
          s'.generator = none ∧ s'.active = a.active))
      (fun _ => Admits config a (admitted engine gen store config marks a)) a := by
  rw [admitPending, wp_bind, wp_get]
  by_cases hbusy : a.pending = [] ∨ config.decodeConcurrency ≤ a.active.keys.length
  · have hnothing : admitted engine gen store config marks a = [] := by
      rw [admitted, if_pos hbusy]
    rw [if_pos hbusy, hnothing]
    refine ⟨admits_nothing a rfl, fun hroom hpending hactive _ => ?_⟩
    rcases hbusy with hnil | hfull
    · exact absurd hnil hpending
    · rw [hactive] at hfull
      exact absurd hfull (Nat.not_le.mpr hroom)
  rw [if_neg hbusy, wp_bind]
  have hchosen := chosen_ensureGenerator gen a
  unfold wp at hchosen
  rcases hrun : (ensureGenerator gen : Call ρ F κ ξ γ ω Bool).run a with ⟨e | ready, s₁⟩
  · have hnothing : admitted engine gen store config marks a = [] := by
      rw [admitted, if_neg hbusy, hrun]
    rw [hrun] at hchosen
    unfold wp
    rw [hrun, hnothing]
    exact admits_nothing a hchosen
  rw [hrun] at hchosen
  dsimp only at hchosen
  refine wp_of_run hrun (wp_when.mpr ⟨fun hready => ?_, fun hready => ?_⟩)
  · subst hready
    have hadmitted : admitted engine gen store config marks a =
        takenBy engine store config marks a.pending [] s₁ := by
      rw [admitted, if_neg hbusy, hrun]
      dsimp only
      rw [hchosen.pending]
    rw [wp_bind]
    refine (taken_takeBatch engine store config marks [] [] hchosen.pending).mono
      (fun r s₂ h => ?_) fun _ _ => False.elim
    rw [← hadmitted] at h
    obtain ⟨rest, heq, htakes, hsublist⟩ := h.takes
    rw [List.nil_append] at heq
    have hadmits : ∀ s' : VlmScheduler ρ F κ ξ γ ω, s'.pending = rest →
        Admits config a (admitted engine gen store config marks a) s' := by
      intro s' hs'
      refine ⟨hs' ▸ htakes, fun hfits hne => ?_⟩
      obtain ⟨head, tail, hcons⟩ := List.exists_cons_of_ne_nil (not_or.mp hbusy).1
      have hkey : some (samplingKey head) = s₁.generatorSamplingKey := by
        rcases hchosen.settings rfl with hhead | ⟨hactive, hgenerator, hsame⟩
        · rw [hhead, hcons]
          rfl
        · rcases hfits hactive (not_or.mp hbusy).1 with hnone | hhead | hother
          · exact absurd hnone hgenerator
          · rw [hsame, ← hhead, hcons]
            rfl
          · rw [hadmitted, takenBy_eq_nil (hsame ▸ hother)] at hne
            exact absurd rfl hne
      have hroom : ¬ config.decodeConcurrency ≤ s₁.active.keys.length + 0 := by
        rw [hchosen.active]
        exact (not_or.mp hbusy).2
      refine ⟨?_, ?_⟩
      · rw [hadmitted, hcons]
        exact takenBy_head hroom hkey
      · rw [hs', hcons]
        exact hsublist head tail hcons hne hkey
    rw [wp_bind, wp_modify]
    by_cases hbatch : r.2 = []
    · rw [if_pos hbatch, wp_bind, wp_get]
      refine wp_when.mpr ⟨fun _ => ⟨hadmits _ heq, fun _ _ _ _ => ⟨rfl, ?_⟩⟩,
        fun hrunning => ⟨hadmits _ heq, fun _ _ hactive _ => absurd ?_ hrunning⟩⟩
      · exact h.active.trans hchosen.active
      · show s₂.active.keys = []
        rw [h.active, hchosen.active, hactive]
    · rw [if_neg hbatch]
      refine (queued_insertBatch r.2 heq).mono (fun _ s' hs' => ⟨hadmits s' hs', ?_⟩)
        fun _ s' hs' => hadmits s' hs'
      intro _ _ _ hnothing
      exact absurd (h.nothing hnothing) hbatch
  · have hfalse : ready = false := Bool.eq_false_iff.mpr hready
    subst hfalse
    have hnothing : admitted engine gen store config marks a = [] := by
      rw [admitted, if_neg hbusy, hrun]
    rw [hnothing]
    refine ⟨admits_nothing a hchosen.pending, fun _ hpending hactive _ => ?_⟩
    rcases hchosen.refused rfl with hnil | hrunning
    · exact absurd hnil hpending
    · exact absurd hactive hrunning

/-! ## Runs -/

/-- The request that an operation submits. -/
def Op.submission : Op ρ F → Option (ChatRequest ρ F)
  | .submit request => some request
  | .cancel _ | .tick _ => none

/-- The operation is a tick. -/
def Op.isTick : Op ρ F → Bool
  | .tick _ => true
  | .submit _ | .cancel _ => false

variable (engine gen store config) in
/-- The requests that an operation admits. -/
def admittedBy (s : VlmScheduler ρ F κ ξ γ ω) : Op ρ F → List (ChatRequest ρ F)
  | .submit _ | .cancel _ => []
  | .tick marks =>
      match admissionState engine gen store config s with
      | some a => admitted engine gen store config marks a
      | none => []

variable (engine gen store config) in
/-- The number of operations of a run that admit requests. -/
def admissions : VlmScheduler ρ F κ ξ γ ω → List (Op ρ F) → ℕ
  | _, [] => 0
  | s, op :: ops => (if admittedBy engine gen store config s op = [] then 0 else 1) +
      admissions (step engine gen store config s op).2 ops

/-- What a cancellation does: the request leaves the queue, if it was in it. -/
structure Cancels (requestId : ρ) (s s' : VlmScheduler ρ F κ ξ γ ω) : Prop where
  pending : s'.pending = s.pending.eraseP fun request => request.requestId = requestId
  generator : s'.generator = s.generator
  idle : s.active.keys = [] → s'.active.keys = []

omit [DecidableEq F] in
theorem cancels_cancel (requestId : ρ) (s : VlmScheduler ρ F κ ξ γ ω) :
    (cancel engine gen store config requestId : Call ρ F κ ξ γ ω Bool).wp
      (fun _ => Cancels requestId s) (fun _ => Cancels requestId s) s := by
  rw [cancel, wp_bind, wp_get]
  cases hfind : s.pending.find? fun request => request.requestId = requestId with
  | some request => exact ⟨rfl, rfl, id⟩
  | none =>
      have hsame : s.pending.eraseP (fun request => request.requestId = requestId) = s.pending :=
        List.eraseP_of_forall_not fun request hrequest =>
          List.find?_eq_none.mp hfind request hrequest
      cases hentry : s.active.entries.find? fun entry => entry.2.request.requestId = requestId with
      | none =>
          dsimp only
          rw [wp_bind, wp_when]
          exact ⟨fun _ => ⟨hsame.symm, rfl, id⟩, fun _ => ⟨hsame.symm, rfl, id⟩⟩
      | some entry =>
          have hpop : s.active.keys = [] → (s.active.pop entry.1).keys = [] := fun hnil =>
            List.eq_nil_of_length_eq_zero (Nat.le_zero.mp
              ((Dict.length_keys_pop_le entry.1).trans (by rw [hnil]; rfl)))
          simp only [wp_bind, wp_modify, countCancellation, respond, emit, wp_get]
          rw [wp_when]
          refine ⟨fun _ => ?_, fun _ => ⟨hsame.symm, rfl, hpop⟩⟩
          rw [generate, wp_call]
          exact ⟨fun _ _ _ => ⟨hsame.symm, rfl, hpop⟩, fun _ _ _ => ⟨hsame.symm, rfl, hpop⟩⟩

/-- What a tick does to the queue. -/
theorem pending_tick (marks : ρ → ℕ → Bool) (s : VlmScheduler ρ F κ ξ γ ω)
    (hfits : Fits engine gen store config s (.tick marks)) :
    (step engine gen store config s (.tick marks)).2.pending.Sublist
      (if admittedBy engine gen store config s (.tick marks) = [] then s.pending
        else s.pending.tail) := by
  have hqueued := queued_beforeAdmission engine gen store config
    (show Queued s.pending s from rfl)
  rw [step, run_tick, admittedBy, admissionState]
  unfold Fits at hfits
  rw [admissionState] at hfits
  unfold wp at hqueued
  generalize (beforeAdmission engine gen store config).run s = before at hqueued hfits ⊢
  obtain ⟨_ | _ | _, a⟩ := before
  · exact hqueued ▸ List.Sublist.refl _
  · exact hqueued ▸ List.Sublist.refl _
  · have hpending : a.pending = s.pending := hqueued
    have hadmits : Admits config a (admitted engine gen store config marks a)
        ((admitPending engine gen store config marks).run a).2 :=
      ((admits_admitPending engine gen store config marks a).mono (fun _ _ h => h.1) fun _ _ => id).after
    dsimp only
    rw [← hpending]
    split
    · exact hadmits.takes.sublist
    · exact (hadmits.first (hfits a rfl) ‹_›).2

/-- What an operation does to the queue: the first request leaves it when requests are admitted,
and one that is submitted is put at its end. -/
theorem pending_step (op : Op ρ F) (s : VlmScheduler ρ F κ ξ γ ω)
    (hfits : Fits engine gen store config s op) :
    ∃ kept added, (step engine gen store config s op).2.pending = kept ++ added ∧
      kept.Sublist (if admittedBy engine gen store config s op = [] then s.pending
        else s.pending.tail) ∧ added.Sublist op.submission.toList := by
  cases op with
  | submit request =>
      rw [step, run_bind]
      rcases run_submit engine request s with ⟨message, n, hrun⟩ | hrun
      · simp only [hrun]
        exact ⟨s.pending, [], (List.append_nil _).symm, List.Sublist.refl _, List.nil_sublist _⟩
      · simp only [hrun]
        exact ⟨s.pending, [request], rfl, List.Sublist.refl _, List.Sublist.refl _⟩
  | cancel requestId =>
      have hcancels : Cancels requestId s
          (step engine gen store config s (.cancel requestId)).2 := by
        refine wp.after (m := do let _ ← cancel engine gen store config requestId) ?_
        rw [wp_bind]
        exact (cancels_cancel requestId s).mono (fun _ _ => id) fun _ _ => id
      refine ⟨_, [], (List.append_nil _).symm, ?_, List.nil_sublist _⟩
      rw [hcancels.pending]
      exact List.eraseP_sublist
  | tick marks =>
      exact ⟨_, [], (List.append_nil _).symm, pending_tick marks s hfits, List.nil_sublist _⟩

/-- **No request waits for later ones**: after as many admissions, the first requests of the queue
have left it. -/
theorem pending_exec {ops : List (Op ρ F)} {s : VlmScheduler ρ F κ ξ γ ω}
    (hops : Run.Each (step engine gen store config) (Fits engine gen store config) s ops)
    {queue kept added : List (ChatRequest ρ F)} (hpending : s.pending = kept ++ added)
    (hkept : kept.Sublist queue) :
    ∃ kept' added', (Run.exec (step engine gen store config) s ops).pending = kept' ++ added' ∧
      kept'.Sublist (queue.drop (admissions engine gen store config s ops)) ∧
      added'.Sublist (added ++ ops.filterMap Op.submission) := by
  induction ops generalizing s queue kept added with
  | nil => exact ⟨kept, added, hpending, hkept, by simp⟩
  | cons op ops ih =>
      obtain ⟨kept₁, added₁, hpending₁, hkept₁, hadded₁⟩ := pending_step op s hops.1
      have hsplit : ∃ kept₂ added₂, kept₁ = kept₂ ++ added₂ ∧ added₂.Sublist added ∧
          kept₂.Sublist (queue.drop
            (if admittedBy engine gen store config s op = [] then 0 else 1)) := by
        rw [hpending] at hkept₁
        split at hkept₁
        · rename_i hnothing
          obtain ⟨kept₂, added₂, heq, h₁, h₂⟩ := List.sublist_append_iff.mp hkept₁
          rw [if_pos hnothing]
          exact ⟨kept₂, added₂, heq, h₂, h₁.trans hkept⟩
        · rename_i hsome
          rw [if_neg hsome, List.drop_one]
          cases kept with
          | nil =>
              exact ⟨[], kept₁, rfl, hkept₁.trans (List.tail_sublist _), List.nil_sublist _⟩
          | cons x kept =>
              obtain ⟨kept₂, added₂, heq, h₁, h₂⟩ := List.sublist_append_iff.mp hkept₁
              exact ⟨kept₂, added₂, heq, h₂, h₁.trans hkept.tail⟩
      obtain ⟨kept₂, added₂, rfl, hadded₂, hkept₂⟩ := hsplit
      rw [List.append_assoc] at hpending₁
      obtain ⟨kept', added', heq, hkept', hadded'⟩ := ih hops.2 hpending₁ hkept₂
      refine ⟨kept', added', heq, ?_, hadded'.trans ?_⟩
      · rwa [List.drop_drop] at hkept'
      · have hcons : (op :: ops).filterMap Op.submission =
            op.submission.toList ++ ops.filterMap Op.submission := by
          rw [List.filterMap_cons]
          cases op.submission <;> rfl
        rw [hcons, ← List.append_assoc]
        exact (hadded₂.append hadded₁).append (List.Sublist.refl _)

/-- A request is at the head of the queue, with nothing to run and no generator. -/
structure Awaits (head : ChatRequest ρ F) (s : VlmScheduler ρ F κ ξ γ ω) : Prop where
  generator : s.generator = none
  idle : s.active.keys = []
  head : s.pending.head? = some head

/-- It is still there after an operation that neither admits nor cancels it. -/
theorem Awaits.step {head : ChatRequest ρ F} (h : Awaits head s) {op : Op ρ F}
    (htick : op.isTick = false) (hcancel : op ≠ .cancel head.requestId) :
    Awaits head (step engine gen store config s op).2 := by
  obtain ⟨rest, hpending⟩ := List.head?_eq_some_iff.mp h.head
  cases op with
  | tick marks => cases htick
  | submit request =>
      rw [VlmScheduler.step, run_bind]
      rcases run_submit engine request s with ⟨message, n, hrun⟩ | hrun
      · simp only [hrun]
        exact ⟨h.generator, h.idle, h.head⟩
      · simp only [hrun]
        refine ⟨h.generator, h.idle, ?_⟩
        show (s.pending ++ [request]).head? = some head
        rw [hpending]
        rfl
  | cancel requestId =>
      have hcancels : Cancels requestId s
          (VlmScheduler.step engine gen store config s (.cancel requestId)).2 := by
        refine wp.after (m := do let _ ← cancel engine gen store config requestId) ?_
        rw [wp_bind]
        exact (cancels_cancel requestId s).mono (fun _ _ => id) fun _ _ => id
      refine ⟨hcancels.generator.trans h.generator, hcancels.idle h.idle, ?_⟩
      have hne : ¬ head.requestId = requestId := fun heq => hcancel (by rw [heq])
      rw [hcancels.pending, hpending, List.eraseP_cons_of_neg (by simpa using hne)]
      rfl

theorem Awaits.exec {head : ChatRequest ρ F} {ops : List (Op ρ F)} (h : Awaits head s)
    (htick : ∀ op ∈ ops, op.isTick = false) (hcancel : .cancel head.requestId ∉ ops) :
    Awaits head (Run.exec (VlmScheduler.step engine gen store config) s ops) := by
  induction ops generalizing s with
  | nil => exact h
  | cons op ops ih =>
      refine ih (h.step (htick op List.mem_cons_self) ?_)
        (fun other hother => htick other (List.mem_cons_of_mem _ hother))
        fun hmem => hcancel (List.mem_cons_of_mem _ hmem)
      rintro rfl
      exact hcancel List.mem_cons_self

/-- It is admitted first by the next tick. -/
theorem Awaits.tick {head : ChatRequest ρ F} (h : Awaits head s)
    (hroom : 0 < config.decodeConcurrency) (marks : ρ → ℕ → Bool)
    (hok : (VlmScheduler.step engine gen store config s (.tick marks)).1 = .ok ()) :
    ∃ a, admissionState engine gen store config s = some a ∧
      (admitted engine gen store config marks a).head? = some head := by
  obtain ⟨rest, hpending⟩ := List.head?_eq_some_iff.mp h.head
  have hbefore : (beforeAdmission engine gen store config : Call ρ F κ ξ γ ω Bool).run s =
      (.ok true, s) := by
    have hbusy : ¬ (s.generator = none ∧ s.pending = []) := by
      rw [hpending]
      exact fun hnil => absurd hnil.2 (List.cons_ne_nil _ _)
    have hstep : ¬ (s.active.keys ≠ [] ∧ s.generator.isSome = true) := by
      rw [h.generator]
      exact fun hsome => Bool.false_ne_true hsome.2
    have hclose : ¬ (s.generator.isSome = true ∧ s.active.keys = [] ∧ s.pending = []) := by
      rw [h.generator]
      exact fun hsome => Bool.false_ne_true hsome.1
    rw [beforeAdmission, run_bind]
    simp only [run_get]
    rw [if_neg hbusy, run_bind, when, if_neg hstep, run_pure]
    dsimp only
    rw [run_bind, run_get]
    dsimp only
    rw [run_bind, when, if_neg hclose]
    rfl
  rw [VlmScheduler.step, run_tick, hbefore] at hok
  refine ⟨s, by rw [admissionState, hbefore], ?_⟩
  exact admitted_of_none hroom h.generator h.idle h.head hok

/-- **The head of the queue is not passed**: in a run whose admissions all find a head that fits,
an admission with nothing to run takes the head first, or it takes nothing and the next one does;
and after as many admissions, the first requests of a queue have left it. -/
theorem head_not_passed (engine : VlmEngine γ ρ F κ ξ ι) (gen : VlmGenerator γ F κ ξ)
    (store : VlmCaches ω κ ξ) {config : V1Config} (hroom : 0 < config.decodeConcurrency)
    (s : VlmScheduler ρ F κ ξ γ ω) {ops : List (Op ρ F)}
    (hops : Run.Each (step engine gen store config) (Fits engine gen store config) s ops) :
    let after (ops : List (Op ρ F)) := Run.exec (step engine gen store config) s ops
    let returns (s : VlmScheduler ρ F κ ξ γ ω) (op : Op ρ F) :=
      (step engine gen store config s op).1 = .ok ()
    (∀ pre marks mid marks' post a head, ops = pre ++ .tick marks :: (mid ++ .tick marks' :: post) →
      (∀ op ∈ mid, op.isTick = false) →
      admissionState engine gen store config (after pre) = some a → a.active.keys = [] →
      a.pending.head? = some head → returns (after pre) (.tick marks) →
      (admitted engine gen store config marks a).head? = some head ∨
      admitted engine gen store config marks a = [] ∧ (.cancel head.requestId ∈ mid ∨
        (returns (after (pre ++ .tick marks :: mid)) (.tick marks') →
          ∃ a', admissionState engine gen store config (after (pre ++ .tick marks :: mid)) =
              some a' ∧ (admitted engine gen store config marks' a').head? = some head))) ∧
    ∀ pre mid post, ops = pre ++ (mid ++ post) →
      ∃ kept added, (after (pre ++ mid)).pending = kept ++ added ∧
        kept.Sublist ((after pre).pending.drop
          (admissions engine gen store config (after pre) mid)) ∧
        added.Sublist (mid.filterMap Op.submission) := by
  intro after returns
  constructor
  · rintro pre marks mid marks' post a head rfl hmid hadmission hidle hhead hok
    have hfits : a.HeadFits := hops.at a hadmission
    have hadmits := admits_admitPending engine gen store config marks a
    -- the tick is the admission, for what comes before it leaves `a`
    have hstep : step engine gen store config (after pre) (.tick marks) =
        (admitPending engine gen store config marks).run a := by
      rw [step, run_tick]
      rw [admissionState] at hadmission
      generalize (beforeAdmission engine gen store config).run (after pre) = before at hadmission ⊢
      obtain ⟨_ | _ | _, a'⟩ := before
      · cases hadmission
      · cases hadmission
      · obtain rfl := Option.some.inj hadmission
        rfl
    by_cases hnothing : admitted engine gen store config marks a = []
    · refine .inr ⟨hnothing, ?_⟩
      by_cases hcancel : Op.cancel head.requestId ∈ mid
      · exact .inl hcancel
      · refine .inr fun hok' => ?_
        have hawaits : Awaits head (step engine gen store config (after pre) (.tick marks)).2 := by
          unfold wp at hadmits
          have hok : (step engine gen store config (after pre) (.tick marks)).1 = .ok () := hok
          rw [hstep] at hok ⊢
          generalize (admitPending engine gen store config marks).run a = r at hok hadmits ⊢
          obtain ⟨_ | _, s'⟩ := r
          · cases hok
          · have hpending : a.pending ≠ [] := by
              intro hnil
              rw [hnil] at hhead
              cases hhead
            obtain ⟨hgenerator, hactive⟩ := hadmits.2 hroom hpending hidle hnothing
            have htakes := hadmits.1.takes
            rw [hnothing] at htakes
            exact ⟨hgenerator, hactive ▸ hidle, htakes.rest_eq ▸ hhead⟩
        have hafter : after (pre ++ .tick marks :: mid) = Run.exec (step engine gen store config)
            (step engine gen store config (after pre) (.tick marks)).2 mid := by
          rw [show after (pre ++ .tick marks :: mid) = Run.exec _ s _ from rfl, Run.exec_append,
            Run.exec_cons]
        rw [hafter] at hok' ⊢
        exact (hawaits.exec hmid hcancel).tick hroom marks' hok'
    · left
      have hadmits : Admits config a (admitted engine gen store config marks a)
          ((admitPending engine gen store config marks).run a).2 :=
        (hadmits.mono (fun _ _ h => h.1) fun _ _ => id).after
      rw [(hadmits.first hfits hnothing).1, hhead]
  · rintro pre mid post rfl
    have hmid : Run.Each (step engine gen store config) (Fits engine gen store config)
        (after pre) mid := hops.after.of_append
    obtain ⟨kept, added, hpending, hkept, hadded⟩ := pending_exec hmid
      (List.append_nil (after pre).pending).symm (List.Sublist.refl _)
    refine ⟨kept, added, ?_, hkept, hadded⟩
    rw [show after (pre ++ mid) = Run.exec _ s _ from rfl, Run.exec_append]
    exact hpending

/-- A request with a temperature. -/
def requestAt (requestId temperature : ℕ) : ChatRequest ℕ ℕ :=
  { plainRequest requestId "vlm" with temperature := temperature }

/-- Nothing is marked as cancelled. -/
def noMarks : ℕ → ℕ → Bool := fun _ _ => false

/-- The scheduler after operations. -/
def sampleRun (ops : List (Op ℕ ℕ)) : VlmScheduler ℕ ℕ Unit Unit ℕ Unit :=
  Run.exec (step plainEngine countingVlm noVlmCaches {}) (.start 0 ()) ops

/-- A request with other settings waits alone for the end of the one that runs: the admission
takes nothing, and the next one takes it. -/
theorem head_not_passed_alone :
    let pre : List (Op ℕ ℕ) := [.submit (requestAt 1 0), .tick noMarks, .submit (requestAt 2 1)]
    ∃ a, admissionState plainEngine countingVlm noVlmCaches {} (sampleRun pre) = some a ∧
      ((admitted plainEngine countingVlm noVlmCaches {} noMarks a).head? = some (requestAt 2 1) ∨
      admitted plainEngine countingVlm noVlmCaches {} noMarks a = [] ∧
        (.cancel 2 ∈ ([] : List (Op ℕ ℕ)) ∨
          ((step plainEngine countingVlm noVlmCaches {} (sampleRun (pre ++ [.tick noMarks]))
            (.tick noMarks)).1 = .ok () →
          ∃ a', admissionState plainEngine countingVlm noVlmCaches {}
              (sampleRun (pre ++ [.tick noMarks])) = some a' ∧
            (admitted plainEngine countingVlm noVlmCaches {} noMarks a').head? =
              some (requestAt 2 1)))) := by
  have hops : Run.Each (step plainEngine countingVlm noVlmCaches {})
      (Fits plainEngine countingVlm noVlmCaches {}) (.start 0 ())
      ([.submit (requestAt 1 0), .tick noMarks, .submit (requestAt 2 1)] ++
        .tick noMarks :: ([] ++ .tick noMarks :: [])) := by decide
  exact ⟨_, rfl, (head_not_passed plainEngine countingVlm noVlmCaches (by decide) (.start 0 ())
    hops).1 _ noMarks [] noMarks [] _ (requestAt 2 1) rfl (fun _ h => absurd h List.not_mem_nil)
    rfl rfl rfl rfl⟩

/-- A request with the settings of the one that has just ended passes the head of the queue. -/
theorem head_passed :
    let pre : List (Op ℕ ℕ) := [.submit (requestAt 1 0), .tick noMarks, .submit (requestAt 2 1),
      .submit (requestAt 3 0)]
    ∃ a, admissionState plainEngine countingVlm noVlmCaches {} (sampleRun pre) = some a ∧
      a.active.keys = [] ∧ a.pending.head? = some (requestAt 2 1) ∧
      admitted plainEngine countingVlm noVlmCaches {} noMarks a = [requestAt 3 0] ∧
      (sampleRun (pre ++ [.tick noMarks])).pending = [requestAt 2 1] :=
  ⟨_, rfl, rfl, rfl, rfl, rfl⟩

end VlmScheduler
end MlxRuntime
