import MlxRuntime.Scheduler.Phases

/-!
# A scheduler with one request

The tick of a scheduler whose only request waits or is in its prompt.  The two modes do the same:
nothing is reaped or in flight, a batch of prefills is executed at once, and an executor that fails
is caught and made an event.

## Main definitions

* `execute` — the executor, asked for a batch of prefills.
* `failsQuietly` — the next tick fails the request, and does not raise.
* `Alone`, `Runs`, `Ending`, `Empty` — a scheduler with one request, in its prompt, or with none.
* `Alone.tick_failed`, `Alone.tick_served` — its tick.
-/

namespace MlxRuntime

variable {ρ σ π φ : Type} [DecidableEq ρ]

namespace NativeScheduler

variable (svc : SchedulerServices ρ σ π φ) (config : SchedulerConfig)

/-- The executor's answer to a batch of prefills, which is there at once. -/
def execute (batch : ExecutionBatch ρ) (world : σ) : Except PyError (StepResult ρ) × σ :=
  if config.overlap then
    match svc.prepareBatch batch world with
    | (.error e, world) => (.error e, world)
    | (.ok prepared, world) =>
        if svc.hasWork prepared then svc.executePreparedSerial prepared world
        else svc.executePrepared prepared world
  else svc.executeBatch batch world

/-- The cache of a request can be released. -/
def releases (handle : Option ℕ) (world : σ) : Bool := (svc.release handle world).1.isOk

/-- The chunk of a result is published, and then the cache of the request is released. -/
def closes (item : StepRequestResult ρ) (st : ScheduledState ρ) (world : σ) : Bool :=
  match svc.publishCommitted item.cacheHandle st.work.promptTokenIds item.cacheLength world with
  | (.error _, _) => false
  | (.ok (), world) => releases svc st.cacheHandle world

/-- The executor fails the request of the next tick, and the tick does not raise: the executor
raises, or has no result for the request, or one of another phase or with an error, or no token at
the end of the prompt; and the cache of the request is released. -/
def failsQuietly (s : NativeScheduler ρ σ φ) : Bool :=
  match selectWork svc config { s with schedulerRound := s.schedulerRound + 1 } with
  | .error _ | .ok ([], _) => false
  | .ok (request :: rest, s) =>
      let st := s.states request.requestId
      match execute svc config ⟨request :: rest⟩ s.world with
      | (.error _, world) => releases svc st.cacheHandle world
      | (.ok result, world) =>
          match judge result request with
          | .error _ => releases svc st.cacheHandle world
          | .ok item =>
              item.nextTokenId.isNone &&
                st.promptCursor + request.tokenIds.length = st.promptLength &&
                closes svc item st world

/-- The scheduler has one request, and it waits or is in its prompt. -/
structure Alone (id : ρ) (s : NativeScheduler ρ σ φ) : Prop where
  inFlight : s.inFlight = none
  place : s.waiting = [id] ∧ s.running = [] ∧ (s.states id).cacheHandle = none ∨
    s.waiting = [] ∧ s.running = [id] ∧ (s.states id).cacheHandle ≠ none
  requestId : (s.states id).work.requestId = id
  notCancelled : (s.states id).cancelRequested = false
  notFinished : (s.states id).finishRequested = false
  lastTokenId : (s.states id).lastTokenId = none

/-- The one request runs. -/
structure Runs (id : ρ) (s : NativeScheduler ρ σ φ) : Prop extends Alone id s where
  waiting : s.waiting = []
  running : s.running = [id]

variable {svc config} {s s₁ s' : NativeScheduler ρ σ φ} {id : ρ} {ids protectedIds : List ρ}
  {request : ExecutionRequest ρ} {world : σ}

/-! ## One request -/

theorem reapCancelledFrom_of_none (h : ∀ id ∈ ids, (s.states id).cancelRequested = false) :
    reapCancelledFrom svc protectedIds ids s = .ok ([], s) := by
  induction ids with
  | nil => rfl
  | cons id ids ih =>
    rw [reapCancelledFrom, h id List.mem_cons_self, ih fun x hx => h x (List.mem_cons_of_mem _ hx)]
    rfl

theorem reapFinishedFrom_of_none (h : ∀ id ∈ ids, (s.states id).finishRequested = false) :
    reapFinishedFrom svc protectedIds ids s = .ok s := by
  induction ids with
  | nil => rfl
  | cons id ids ih =>
    rw [reapFinishedFrom, h id List.mem_cons_self, ih fun x hx => h x (List.mem_cons_of_mem _ hx)]
    rfl

omit [DecidableEq ρ] in
theorem Alone.all (h : Alone id s) : s.waiting ++ s.running = [id] := by
  rcases h.place with ⟨hwaiting, hrunning, -⟩ | ⟨hwaiting, hrunning, -⟩
  · rw [hwaiting, hrunning, List.append_nil]
  · rw [hwaiting, hrunning, List.nil_append]

theorem reapCancelled_of_all (hall : s.waiting ++ s.running = [id])
    (hnot : (s.states id).cancelRequested = false) :
    s.reapCancelled svc protectedIds = .ok ([], s) := by
  rw [reapCancelled, hall]
  exact reapCancelledFrom_of_none fun x hx => List.mem_singleton.mp hx ▸ hnot

theorem reapFinished_of_all (hall : s.waiting ++ s.running = [id])
    (hnot : (s.states id).finishRequested = false) :
    s.reapFinished svc protectedIds = .ok s := by
  rw [reapFinished, hall]
  exact reapFinishedFrom_of_none fun x hx => List.mem_singleton.mp hx ▸ hnot

omit [DecidableEq ρ] in
theorem Alone.nextRound (h : Alone id s) :
    Alone id { s with schedulerRound := s.schedulerRound + 1 } :=
  ⟨h.inFlight, h.place, h.requestId, h.notCancelled, h.notFinished, h.lastTokenId⟩

omit [DecidableEq ρ] in
theorem Runs.withWorld (h : Runs id s) (world : σ) : Runs id { s with world := world } :=
  ⟨⟨h.inFlight, h.place, h.requestId, h.notCancelled, h.notFinished, h.lastTokenId⟩, h.waiting,
    h.running⟩

/-- Nothing is selected, or a chunk of the prompt. -/
theorem Alone.selectWork (h : Alone id s) {selected : List (ExecutionRequest ρ)}
    (hselect : s.selectWork svc config = .ok (selected, s')) :
    selected = [] ∧ Alone id s' ∨
      selected = [prefillWork config (s'.states id)] ∧ Runs id s' := by
  have hnodup : (s.waiting ++ s.running).Nodup := by
    rw [h.all]
    exact List.nodup_singleton id
  have hwaiting : ∀ x ∈ s.waiting, (s.states x).cacheHandle = none := by
    rcases h.place with ⟨hwaiting, -, hnone⟩ | ⟨hwaiting, -, -⟩
    · intro x hx
      rw [hwaiting, List.mem_singleton] at hx
      rw [hx, hnone]
    · rw [hwaiting]
      exact fun x hx => absurd hx List.not_mem_nil
  have hrunning : ∀ x ∈ s.running, (s.states x).cacheHandle ≠ none := by
    rcases h.place with ⟨-, hrunning, -⟩ | ⟨-, hrunning, hsome⟩
    · rw [hrunning]
      exact fun x hx => absurd hx List.not_mem_nil
    · intro x hx
      rw [hrunning, List.mem_singleton] at hx
      rw [hx]
      exact hsome
  obtain ⟨probes, ids, admissions, world, hids, hmem, rfl, rfl⟩ :=
    selectWork_eq_ok hnodup hwaiting hrunning hselect
  have hdecode : (s.running.filterMap fun x => decodeWork (s.states x)) = [] := by
    rcases h.place with ⟨-, hrunning, -⟩ | ⟨-, hrunning, -⟩
    · rw [hrunning, List.filterMap_nil]
    · rw [hrunning]
      simp [decodeWork, h.lastTokenId]
  have hall : ∀ x ∈ ids, x = id := by
    intro x hx
    have hplace : x ∈ s.waiting ++ s.running := by
      rcases (mem_prefillStates.mp (hmem x hx)).2 with ⟨hrunning, -⟩ | hwaiting
      · exact List.mem_append_right _ hrunning
      · exact List.mem_append_left _ hwaiting
    rwa [h.all, List.mem_singleton] at hplace
  rw [hdecode, List.nil_append]
  cases ids with
  | nil =>
    refine .inl ⟨rfl, h.inFlight, ?_, ?_, ?_, ?_, ?_⟩
    · simpa [admittedAll, probed] using h.place
    · simpa [admittedAll, probed] using h.requestId
    · simpa [admittedAll, probed] using h.notCancelled
    · simpa [admittedAll, probed] using h.notFinished
    · simpa [admittedAll, probed] using h.lastTokenId
  | cons x rest =>
    obtain rfl := hall x List.mem_cons_self
    cases rest with
    | cons y rest =>
      obtain rfl := hall y (List.mem_cons_of_mem _ List.mem_cons_self)
      simp at hids
    | nil =>
      refine .inr ⟨rfl, ?_⟩
      rcases h.place with ⟨hwaiting, hrunning, hnone⟩ | ⟨hwaiting, hrunning, hsome⟩
      · refine ⟨⟨h.inFlight, .inr ⟨?_, ?_, ?_⟩, ?_, ?_, ?_, ?_⟩, ?_, ?_⟩ <;>
          simp [admittedAll, probed, admitted, hwaiting, hrunning, h.requestId, h.notCancelled,
            h.notFinished, h.lastTokenId]
      · refine ⟨⟨h.inFlight, .inr ⟨?_, ?_, ?_⟩, ?_, ?_, ?_, ?_⟩, ?_, ?_⟩ <;>
          simp [admittedAll, probed, hwaiting, hrunning, h.requestId, h.notCancelled,
            h.notFinished, h.lastTokenId, hsome]

/-! ## Its tick -/

omit [DecidableEq ρ] in
theorem startBatch_eq (hoverlap : config.overlap = true) (hphase : request.phase = .prefill) :
    startBatch svc ⟨[request]⟩ s = ((execute svc config ⟨[request]⟩ s.world).1.map some,
      { s with world := (execute svc config ⟨[request]⟩ s.world).2 }) := by
  have hmode : (ExecutionBatch.mk [request]).forwardMode = .ok .prefill := by
    rw [ExecutionBatch.forwardMode, List.map_singleton, hphase]
    rfl
  rw [startBatch, execute, if_pos hoverlap]
  generalize svc.prepareBatch ⟨[request]⟩ s.world = prepared
  obtain ⟨_ | prepared, world⟩ := prepared
  · rfl
  · dsimp only
    by_cases hwork : svc.hasWork prepared
    · rw [if_pos hwork, if_pos hwork, hmode]
    · rw [if_neg hwork, if_neg hwork]

theorem launch_eq (hoverlap : config.overlap = true) (hphase : request.phase = .prefill) :
    launch svc [request] s = match execute svc config ⟨[request]⟩ s.world with
      | (.error e, world) => ([.executionError request.requestId (batchErrorCode e) e.message],
          none, { s with world := world }.markFinished [request])
      | (.ok result, world) => ([], some result, { s with world := world }) := by
  rw [launch, startBatch_eq hoverlap hphase]
  generalize execute svc config ⟨[request]⟩ s.world = executed
  obtain ⟨_ | _, world⟩ := executed <;> rfl

/-- No step was resolved. -/
theorem emitResolved_none (selected : List (ExecutionRequest ρ))
    (immediate : Option (StepResult ρ)) (s : NativeScheduler ρ σ φ) :
    emitResolved svc config none selected immediate s =
      applyStep? svc config selected immediate s := by
  rw [emitResolved, emitStep?, ok_bind]
  dsimp only
  generalize applyStep? svc config selected immediate s = applied
  cases applied <;> rfl

/-- Nothing is reaped before the work of a serial tick is selected. -/
theorem Alone.tickSerial_eq (h : Alone id s) : s.tickSerial svc config = (do
    let (selected, s₁) ← NativeScheduler.selectWork svc config
      { s with schedulerRound := s.schedulerRound + 1 }
    if selected.isEmpty then return ([], s₁)
    let (events, s₂) ← runStep svc config selected s₁
    let (reaped, s₂) ← reapCancelled svc [] s₂
    return (events ++ reaped, s₂)) := by
  rw [tickSerial, reapCancelled_of_all h.nextRound.all h.notCancelled, ok_bind]
  rfl

/-- Nothing is reaped or resolved before the work of an overlapping tick is selected. -/
theorem Alone.tickOverlap_eq (h : Alone id s) : s.tickOverlap svc config = (do
    let (selected, s₁) ← NativeScheduler.selectWork svc config
      { s with schedulerRound := s.schedulerRound + 1 }
    let (launched, immediate, s₂) := launch svc selected s₁
    let (events, s₂) ← applyStep? svc config selected immediate s₂
    let s₂ ← reapFinished svc s₂.inFlightIds s₂
    return (launched ++ events, s₂)) := by
  have hresolve : resolveInFlight svc config { s with schedulerRound := s.schedulerRound + 1 } =
      .ok ([], none, { s with schedulerRound := s.schedulerRound + 1 }) := by
    rw [resolveInFlight, h.nextRound.inFlight]
  rw [tickOverlap]
  dsimp only
  rw [reapCancelled_of_all h.nextRound.all h.notCancelled, ok_bind]
  dsimp only
  rw [reapFinished_of_all h.nextRound.all h.notFinished, ok_bind, hresolve, ok_bind]
  simp only [emitResolved_none]
  rfl

/-- A serial tick, once its work is selected. -/
theorem Alone.tickSerial (h : Alone id s) (hselect : NativeScheduler.selectWork svc config
      { s with schedulerRound := s.schedulerRound + 1 } = .ok ([request], s₁)) :
    s.tickSerial svc config = (do
      let (events, s₂) ← runStep svc config [request] s₁
      let (reaped, s₂) ← reapCancelled svc [] s₂
      return (events ++ reaped, s₂)) := by
  rw [h.tickSerial_eq, hselect, ok_bind]
  rfl

/-- An overlapping tick, once its work is selected. -/
theorem Alone.tickOverlap (h : Alone id s) (hselect : NativeScheduler.selectWork svc config
      { s with schedulerRound := s.schedulerRound + 1 } = .ok ([request], s₁)) :
    s.tickOverlap svc config = (do
      let (launched, immediate, s₂) := launch svc [request] s₁
      let (events, s₂) ← applyStep? svc config [request] immediate s₂
      let s₂ ← reapFinished svc s₂.inFlightIds s₂
      return (launched ++ events, s₂)) := by
  rw [h.tickOverlap_eq, hselect, ok_bind]

/-- Without work the tick does nothing. -/
theorem Alone.tick_nothing (h : Alone id s) (hselect : NativeScheduler.selectWork svc config
      { s with schedulerRound := s.schedulerRound + 1 } = .ok ([], s₁)) (h₁ : Alone id s₁) :
    s.tick svc config = .ok ([], s₁) := by
  rw [tick]
  split
  · rw [h.tickOverlap_eq, hselect, ok_bind]
    have hlaunch : launch svc [] s₁ = ([], none, s₁) := rfl
    dsimp only
    rw [hlaunch, applyStep?, ok_bind]
    dsimp only
    rw [reapFinished_of_all h₁.all h₁.notFinished]
    rfl
  · rw [h.tickSerial_eq, hselect, ok_bind]
    rfl

/-- What the selection raises ends the tick. -/
theorem Alone.tick_raises (h : Alone id s) {e : PyError} (hselect : NativeScheduler.selectWork svc
      config { s with schedulerRound := s.schedulerRound + 1 } = .error e) :
    s.tick svc config = .error e := by
  rw [tick]
  split
  · rw [h.tickOverlap_eq, hselect]
    rfl
  · rw [h.tickSerial_eq, hselect]
    rfl

/-- What the executor answers to the request, if it fails it. -/
def FailsWith (answer : Except PyError (StepResult ρ)) (request : ExecutionRequest ρ)
    (code message : String) : Prop :=
  match answer with
  | .error e => code = batchErrorCode e ∧ message = e.message
  | .ok result => judge result request = .error (code, message)

theorem Runs.applyStepResult_failed (h : Runs id s) (hid : request.requestId = id)
    {result : StepResult ρ} {code message : String}
    (hjudge : judge result request = .error (code, message)) :
    applyStepResult svc config [request] result s =
      .ok ([.executionError id code message], s.markFinished [request]) := by
  have hopen : (s.states id).open = true := by
    rw [ScheduledState.open, h.notCancelled, h.notFinished]
    rfl
  subst hid
  have hadvance : advanceStepState config result [request] s =
      ([.executionError request.requestId code message], [], s.markFinished [request]) := by
    rw [advanceStepState, if_pos hopen, hjudge]
    rfl
  have hmetrics : ∀ phase, phaseMetrics [request] (s.markFinished [request]) phase = [] := by
    intro phase
    simp [phaseMetrics, ScheduledState.open, markFinished]
  rw [applyStepResult, hadvance]
  dsimp only
  rw [emitStepResult, emitResults, ok_bind]
  dsimp only
  rw [hmetrics, hmetrics]
  rfl

/-- What a result that counts makes of the scheduler. -/
def served (config : SchedulerConfig) (request : ExecutionRequest ρ) (item : StepRequestResult ρ)
    (world : σ) (s : NativeScheduler ρ σ φ) : NativeScheduler ρ σ φ :=
  { s.modify request.requestId (applyResult config request item) with world := world }

/-- The metrics of a step. -/
def stepMetrics (request : ExecutionRequest ρ) (s : NativeScheduler ρ σ φ) :
    List (SchedulerEvent ρ) :=
  phaseMetrics [request] s .decode ++ phaseMetrics [request] s .prefill

variable (svc config) in
theorem Runs.applyStepResult_served (h : Runs id s) (hid : request.requestId = id)
    (hphase : request.phase = .prefill) {result : StepResult ρ} {item : StepRequestResult ρ}
    (hjudge : judge result request = .ok item) :
    applyStepResult svc config [request] result s =
      match svc.publishCommitted item.cacheHandle (s.states id).work.promptTokenIds
        item.cacheLength s.world with
      | (.error e, _) => .error e
      | (.ok (), world) => .ok (resultEvents result request item
          (applyResult config request item (s.states id)) ++
            stepMetrics request (served config request item world s),
          served config request item world s) := by
  have hopen : (s.states id).open = true := by
    rw [ScheduledState.open, h.notCancelled, h.notFinished]
    rfl
  subst hid
  have hwork : (applyResult config request item (s.states request.requestId)).work =
      (s.states request.requestId).work := by
    rw [applyResult, hphase]
    dsimp only
    split <;> rfl
  have hadvance : advanceStepState config result [request] s =
      ([], [(request, item)], s.modify request.requestId (applyResult config request item)) := by
    rw [advanceStepState, if_pos hopen, hjudge]
    rfl
  rw [applyStepResult, hadvance]
  dsimp only
  rw [emitStepResult, emitResults, publishResult, hphase, modify_states, Function.update_self, hwork]
  dsimp only [modify_world]
  generalize svc.publishCommitted item.cacheHandle (s.states request.requestId).work.promptTokenIds
    item.cacheLength s.world = published
  obtain ⟨_ | _, world⟩ := published
  · rfl
  · have hstate : (served config request item world s).states request.requestId =
        applyResult config request item (s.states request.requestId) := Function.update_self ..
    show Except.ok ([] ++ (resultEvents result request item
      ((served config request item world s).states request.requestId) ++ [] ++
      phaseMetrics [request] (served config request item world s) .decode ++
      phaseMetrics [request] (served config request item world s) .prefill),
      served config request item world s) = _
    rw [hstate, List.nil_append, List.append_nil, List.append_assoc]
    rfl

/-! ## The end of the request -/

/-- The one request runs, and is about to leave; its cache and the world are given. -/
structure Ending (id : ρ) (handle : Option ℕ) (world : σ) (s : NativeScheduler ρ σ φ) : Prop where
  inFlight : s.inFlight = none
  waiting : s.waiting = []
  running : s.running = [id]
  cacheHandle : (s.states id).cacheHandle = handle
  world : s.world = world

/-- Nothing is left. -/
structure Empty (s : NativeScheduler ρ σ φ) : Prop where
  inFlight : s.inFlight = none
  waiting : s.waiting = []
  running : s.running = []

omit [DecidableEq ρ] in
theorem Empty.idle (h : Empty s) : s.idle = true := by
  rw [NativeScheduler.idle, h.inFlight, h.waiting, h.running]
  rfl

omit [DecidableEq ρ] in
variable (svc) in
/-- It leaves if its cache is released. -/
theorem Ending.releaseCache {handle : Option ℕ} (h : Ending id handle world s) :
    (releases svc handle world = true →
      ∃ s', { s with running := [] }.releaseCache svc id = .ok s' ∧ Empty s') ∧
    (releases svc handle world = false →
      ∃ e, { s with running := [] }.releaseCache svc id = .error e) := by
  have hrelease : { s with running := [] }.releaseCache svc id =
      match svc.release handle world with
      | (.error e, _) => .error e
      | (.ok (), world) => .ok { s with running := [], world := world } := by
    rw [← h.cacheHandle, ← h.world]
    rfl
  rw [releases, hrelease]
  generalize svc.release handle world = released
  obtain ⟨e | _, world⟩ := released
  · exact ⟨(fun hyes => by cases hyes), fun _ => ⟨e, rfl⟩⟩
  · exact ⟨fun _ => ⟨_, rfl, h.inFlight, h.waiting, rfl⟩, fun hno => by cases hno⟩

/-- The request that runs is finished. -/
theorem Ending.finish {handle : Option ℕ} (h : Ending id handle world s) :
    s.finish svc id = { s with running := [] }.releaseCache svc id := by
  have hids : id ∉ s.inFlightIds := by
    rw [inFlightIds, h.inFlight]
    exact List.not_mem_nil
  have hmem : id ∈ s.running := by
    rw [h.running]
    exact List.mem_singleton_self id
  rw [NativeScheduler.finish, if_neg hids, if_pos hmem, h.running, List.erase_cons_head]

/-- A request that has left is finished. -/
theorem Empty.finish (h : Empty s) : s.finish svc id = .ok s := by
  rw [NativeScheduler.finish, inFlightIds, h.inFlight, h.waiting, h.running]
  rfl

omit [DecidableEq ρ] in
theorem Ending.all {handle : Option ℕ} (h : Ending id handle world s) :
    s.waiting ++ s.running = [id] := by
  rw [h.waiting, h.running, List.nil_append]

/-- A request that failed is about to leave. -/
theorem Runs.markFinished (h : Runs id s) (hid : request.requestId = id) (world : σ) :
    Ending id (s.states id).cacheHandle world ({ s with world := world }.markFinished [request]) ∧
      (({ s with world := world }.markFinished [request]).states id).cancelRequested = false ∧
      (({ s with world := world }.markFinished [request]).states id).finishRequested = true := by
  subst hid
  refine ⟨⟨h.inFlight, h.waiting, h.running, ?_, rfl⟩, ?_, ?_⟩
  · simp [NativeScheduler.markFinished]
  · simpa [NativeScheduler.markFinished] using h.notCancelled
  · simp [NativeScheduler.markFinished]

variable (svc) in
/-- The request that runs is reaped. -/
theorem Ending.reapFinished {handle : Option ℕ} (h : Ending id handle world s)
    (hfinished : (s.states id).finishRequested = true) :
    s.reapFinished svc s.inFlightIds = { s with running := [] }.releaseCache svc id := by
  have hids : s.inFlightIds = [] := by rw [inFlightIds, h.inFlight]
  have hdiscard : s.discard svc id = { s with running := [] }.releaseCache svc id := by
    rw [discard, h.waiting, h.running, List.erase_cons_head, List.erase_nil, ← h.waiting]
  rw [NativeScheduler.reapFinished, h.all, hids, reapFinishedFrom, if_pos (by simp [hfinished]),
    hdiscard]
  generalize { s with running := [] }.releaseCache svc id = left
  cases left <;> rfl

/-- A serial tick ends the request with an error. -/
theorem Alone.tickSerial_failed (h : Alone id s) (hselect : NativeScheduler.selectWork svc config
      { s with schedulerRound := s.schedulerRound + 1 } = .ok ([request], s₁))
    (hruns : Runs id s₁) (hid : request.requestId = id)
    {answer : Except PyError (StepResult ρ)} {code message : String}
    (hexecute : svc.executeBatch ⟨[request]⟩ s₁.world = (answer, world))
    (hfails : FailsWith answer request code message) :
    ∃ s₂, s.tickSerial svc config = .ok ([.executionError id code message], s₂) ∧
      Ending id (s₁.states id).cacheHandle world s₂ := by
  rw [h.tickSerial hselect, runStep, hexecute]
  cases answer with
  | error e =>
    obtain ⟨rfl, rfl⟩ := hfails
    refine ⟨{ s₁ with world := world }, ?_, hruns.inFlight, hruns.waiting, hruns.running, rfl, rfl⟩
    rw [ok_bind]
    dsimp only
    rw [reapCancelled_of_all (hruns.withWorld world).all hruns.notCancelled, emitFailures,
      List.map_singleton, hid]
    rfl
  | ok result =>
    obtain ⟨hending, hnot, -⟩ := hruns.markFinished hid world
    refine ⟨_, ?_, hending⟩
    dsimp only
    rw [(hruns.withWorld world).applyStepResult_failed hid hfails, ok_bind]
    dsimp only
    rw [reapCancelled_of_all hending.all hnot]
    rfl

/-- An overlapping tick ends the request with an error, and reaps it. -/
theorem Alone.tickOverlap_failed (h : Alone id s) (hoverlap : config.overlap = true)
    (hselect : NativeScheduler.selectWork svc config
      { s with schedulerRound := s.schedulerRound + 1 } = .ok ([request], s₁))
    (hruns : Runs id s₁) (hid : request.requestId = id) (hphase : request.phase = .prefill)
    {answer : Except PyError (StepResult ρ)} {code message : String}
    (hexecute : execute svc config ⟨[request]⟩ s₁.world = (answer, world))
    (hfails : FailsWith answer request code message) :
    ∃ s₂, Ending id (s₁.states id).cacheHandle world s₂ ∧
      s.tickOverlap svc config = ({ s₂ with running := [] }.releaseCache svc id).map
        fun s₃ => ([.executionError id code message], s₃) := by
  obtain ⟨hending, -, hfinished⟩ := hruns.markFinished hid world
  have hreap := hending.reapFinished svc hfinished
  refine ⟨_, hending, ?_⟩
  rw [h.tickOverlap hselect, launch_eq hoverlap hphase, hexecute]
  cases answer with
  | error e =>
    obtain ⟨rfl, rfl⟩ := hfails
    dsimp only
    rw [applyStep?, ok_bind]
    dsimp only
    rw [hreap, hid]
    generalize NativeScheduler.releaseCache svc id _ = left
    cases left <;> rfl
  | ok result =>
    dsimp only
    rw [applyStep?, (hruns.withWorld world).applyStepResult_failed hid hfails, ok_bind]
    dsimp only
    rw [hreap]
    generalize NativeScheduler.releaseCache svc id _ = left
    cases left <;> rfl

/-- The tick ends the request with an error, and it leaves; or something raises. -/
theorem Alone.tick_failed (h : Alone id s) (hselect : NativeScheduler.selectWork svc config
      { s with schedulerRound := s.schedulerRound + 1 } = .ok ([request], s₁))
    (hruns : Runs id s₁) (hid : request.requestId = id) (hphase : request.phase = .prefill)
    {answer : Except PyError (StepResult ρ)} {code message : String}
    (hexecute : execute svc config ⟨[request]⟩ s₁.world = (answer, world))
    (hfails : FailsWith answer request code message) :
    (releases svc (s₁.states id).cacheHandle world = true →
      ∃ s₂ s₃, s.tick svc config = .ok ([.executionError id code message], s₂) ∧
        s₂.finish svc id = .ok s₃ ∧ Empty s₃) ∧
    (releases svc (s₁.states id).cacheHandle world = false →
      (∃ e, s.tick svc config = .error e) ∨
        ∃ s₂ e, s.tick svc config = .ok ([.executionError id code message], s₂) ∧
          s₂.finish svc id = .error e) := by
  cases hoverlap : config.overlap with
  | false =>
    have hexecuteBatch : svc.executeBatch ⟨[request]⟩ s₁.world = (answer, world) := by
      rw [← hexecute, execute, hoverlap]
      rfl
    have htick : s.tick svc config = s.tickSerial svc config := by
      rw [tick, hoverlap]
      rfl
    obtain ⟨s₂, hserial, hending⟩ := h.tickSerial_failed hselect hruns hid hexecuteBatch hfails
    obtain ⟨hleaves, hraises⟩ := hending.releaseCache svc
    rw [← hending.finish] at hleaves hraises
    constructor
    · intro hyes
      obtain ⟨s₃, hfinish, hempty⟩ := hleaves hyes
      exact ⟨s₂, s₃, htick.trans hserial, hfinish, hempty⟩
    · intro hno
      obtain ⟨e, hfinish⟩ := hraises hno
      exact .inr ⟨s₂, e, htick.trans hserial, hfinish⟩
  | true =>
    have htick : s.tick svc config = s.tickOverlap svc config := by
      rw [tick, hoverlap]
      rfl
    obtain ⟨s₂, hending, hticked⟩ :=
      h.tickOverlap_failed hoverlap hselect hruns hid hphase hexecute hfails
    obtain ⟨hleaves, hraises⟩ := hending.releaseCache svc
    rw [← htick] at hticked
    constructor
    · intro hyes
      obtain ⟨s₃, hleft, hempty⟩ := hleaves hyes
      rw [hleft] at hticked
      exact ⟨s₃, s₃, hticked, hempty.finish, hempty⟩
    · intro hno
      obtain ⟨e, hleft⟩ := hraises hno
      rw [hleft] at hticked
      exact .inl ⟨e, hticked⟩

/-! ## A tick that serves the request -/

/-- What a chunk of the prompt leaves as it was. -/
structure Served (request : ExecutionRequest ρ) (st st' : ScheduledState ρ) : Prop where
  work : st'.work = st.work
  cacheHandle : st'.cacheHandle = st.cacheHandle
  notCancelled : st'.cancelRequested = st.cancelRequested
  notFinished : st'.finishRequested = st.finishRequested
  promptCursor : st'.promptCursor = st.promptCursor + request.tokenIds.length
  lastTokenId : st'.promptCursor ≠ st'.promptLength → st'.lastTokenId = st.lastTokenId

omit [DecidableEq ρ] in
variable (config) in
theorem served_applyResult (hphase : request.phase = .prefill) (item : StepRequestResult ρ)
    (st : ScheduledState ρ) : Served request st (applyResult config request item st) := by
  rw [applyResult, hphase]
  dsimp only
  split
  · rename_i hcomplete
    exact ⟨rfl, rfl, rfl, rfl, rfl, fun hnot => absurd hcomplete hnot⟩
  · exact ⟨rfl, rfl, rfl, rfl, rfl, fun _ => rfl⟩

variable (config) in
/-- The state of the request that was served. -/
theorem Runs.served (h : Runs id s) (hid : request.requestId = id)
    (hphase : request.phase = .prefill) (item : StepRequestResult ρ) (world : σ) :
    (served config request item world s).states id =
        applyResult config request item (s.states id) ∧
      Ending id (s.states id).cacheHandle world (served config request item world s) ∧
      (applyResult config request item (s.states id)).cancelRequested = false ∧
      (applyResult config request item (s.states id)).finishRequested = false := by
  subst hid
  have hstate : (NativeScheduler.served config request item world s).states request.requestId =
      applyResult config request item (s.states request.requestId) := Function.update_self ..
  have hserved := served_applyResult config hphase item (s.states request.requestId)
  exact ⟨hstate, ⟨h.inFlight, h.waiting, h.running, hstate ▸ hserved.cacheHandle, rfl⟩,
    hserved.notCancelled.trans h.notCancelled, hserved.notFinished.trans h.notFinished⟩

variable (config) in
/-- The request goes on with its prompt. -/
theorem Runs.served_runs (h : Runs id s) (hid : request.requestId = id)
    (hphase : request.phase = .prefill) (item : StepRequestResult ρ) (world : σ)
    (hmore : (s.states id).promptCursor + request.tokenIds.length ≠ (s.states id).promptLength) :
    Runs id (NativeScheduler.served config request item world s) := by
  obtain ⟨hstate, hending, hcancel, hfinish⟩ := h.served config hid hphase item world
  have hserved := served_applyResult config hphase item (s.states id)
  have hnot : (applyResult config request item (s.states id)).promptCursor ≠
      (applyResult config request item (s.states id)).promptLength := by
    rw [hserved.promptCursor, ScheduledState.promptLength, hserved.work]
    exact hmore
  have hhandle : (s.states id).cacheHandle ≠ none := by
    rcases h.place with ⟨-, hrunning, -⟩ | ⟨-, -, hsome⟩
    · rw [h.running] at hrunning
      cases hrunning
    · exact hsome
  refine ⟨⟨hending.inFlight, .inr ⟨hending.waiting, hending.running, ?_⟩, ?_, ?_, ?_, ?_⟩,
    hending.waiting, hending.running⟩
  · rw [hending.cacheHandle]
    exact hhandle
  · rw [hstate, hserved.work]
    exact h.requestId
  · rw [hstate, hcancel]
  · rw [hstate, hfinish]
  · rw [hstate, hserved.lastTokenId hnot]
    exact h.lastTokenId

/-- The tick serves the request, or something raises. -/
theorem Alone.tick_served (h : Alone id s) (hselect : NativeScheduler.selectWork svc config
      { s with schedulerRound := s.schedulerRound + 1 } = .ok ([request], s₁))
    (hruns : Runs id s₁) (hid : request.requestId = id) (hphase : request.phase = .prefill)
    {result : StepResult ρ} {item : StepRequestResult ρ}
    (hexecute : execute svc config ⟨[request]⟩ s₁.world = (.ok result, world))
    (hjudge : judge result request = .ok item) :
    s.tick svc config =
      match svc.publishCommitted item.cacheHandle (s₁.states id).work.promptTokenIds
        item.cacheLength world with
      | (.error e, _) => .error e
      | (.ok (), world) => .ok (resultEvents result request item
          (applyResult config request item (s₁.states id)) ++
            stepMetrics request (NativeScheduler.served config request item world s₁),
          NativeScheduler.served config request item world s₁) := by
  have happly := (hruns.withWorld world).applyStepResult_served svc config hid hphase hjudge
  have hserved := hruns.served config hid hphase item
  cases hoverlap : config.overlap with
  | false =>
    have hexecuteBatch : svc.executeBatch ⟨[request]⟩ s₁.world = (.ok result, world) := by
      rw [← hexecute, execute, hoverlap]
      rfl
    rw [tick, hoverlap, if_neg Bool.false_ne_true, h.tickSerial hselect, runStep, hexecuteBatch]
    dsimp only
    rw [happly]
    dsimp only
    generalize svc.publishCommitted item.cacheHandle (s₁.states id).work.promptTokenIds
      item.cacheLength world = published
    obtain ⟨_ | _, world'⟩ := published
    · rfl
    · obtain ⟨hstate, hending, hcancel, -⟩ := hserved world'
      rw [ok_bind]
      dsimp only
      change (do
        let (reaped, s₂) ← reapCancelled svc []
          (NativeScheduler.served config request item world' s₁)
        return (_ ++ reaped, s₂)) = _
      rw [reapCancelled_of_all hending.all (hstate ▸ hcancel), ok_bind]
      dsimp only
      rw [List.append_nil]
      rfl
  | true =>
    rw [tick, if_pos hoverlap, h.tickOverlap hselect, launch_eq hoverlap hphase, hexecute]
    dsimp only
    rw [applyStep?, happly]
    dsimp only
    generalize svc.publishCommitted item.cacheHandle (s₁.states id).work.promptTokenIds
      item.cacheLength world = published
    obtain ⟨_ | _, world'⟩ := published
    · rfl
    · obtain ⟨hstate, hending, -, hfinished⟩ := hserved world'
      rw [ok_bind]
      dsimp only
      change (do
        let s₂ ← reapFinished svc _ (NativeScheduler.served config request item world' s₁)
        return ([] ++ _, s₂)) = _
      rw [reapFinished_of_all hending.all (hstate ▸ hfinished), ok_bind, List.nil_append]
      rfl

end NativeScheduler
end MlxRuntime
