import MlxRuntime.Scheduler.State
import Mathlib.Algebra.GroupWithZero.Nat

/-!
# A tick of the native scheduler

A serial tick reaps what was cancelled, selects work, and runs it.  An overlapping tick first
resolves the step that is in flight, then selects and launches the next one, and emits the
events of the resolved step last.

An exception that the scheduler does not catch ends the tick, and the worker with it.

## Main definitions

* `selectWork` — `_select_work`, with the policies.
* `advanceStepState`, `emitStepResult` — what a result changes, and what is said about it.
* `reapCancelled`, `reapFinished` — requests that leave.
* `tickSerial`, `tickOverlap`, `tick` — the tick.
-/

namespace MlxRuntime

variable {ρ σ π φ : Type}

/-- `len(state.work.prompt_token_ids)`. -/
def ScheduledState.promptLength (st : ScheduledState ρ) : ℕ := st.work.promptTokenIds.length

/-- The request does not wait for its end. -/
def ScheduledState.open (st : ScheduledState ρ) : Bool :=
  !st.cancelRequested && !st.finishRequested

namespace NativeScheduler

variable [DecidableEq ρ] (svc : SchedulerServices ρ σ π φ) (config : SchedulerConfig)

/-! ## Selection -/

/-- The decode request of a state, if it is selected. -/
def decodeWork (st : ScheduledState ρ) : Option (ExecutionRequest ρ) :=
  match st.lastTokenId with
  | some token =>
      if st.open && !st.generationComplete then some {
        requestId := st.work.requestId
        phase := .decode
        tokenIds := [token]
        positions := [st.cacheLength]
        cacheHandle := st.cacheHandle }
      else none
  | none => none

/-- The prefill request of a state. -/
def prefillWork (st : ScheduledState ρ) : ExecutionRequest ρ :=
  let start := st.promptCursor
  let stop := min st.promptLength (start + config.prefillStepSize)
  { requestId := st.work.requestId
    phase := .prefill
    tokenIds := (st.work.promptTokenIds.take stop).drop start
    positions := List.range' start (stop - start)
    cacheHandle := st.cacheHandle }

/-- The requests with a prompt to run. -/
def prefillStates (s : NativeScheduler ρ σ φ) : List ρ :=
  (s.running.filter fun id =>
    (s.states id).open && (s.states id).promptCursor < (s.states id).promptLength) ++
  s.waiting.filter fun id => (s.states id).open

/-- `_score`, with the value of the policy. -/
def score (round : ℕ) (value : ScheduledState ρ → ℤ) (st : ScheduledState ρ) :
    ℤ ×ₗ ℤ ×ₗ ℤ ×ₗ ℤ :=
  let ageRounds : ℤ := max 0 ((round : ℤ) - st.arrivalOrder)
  toLex (if 3 ≤ ageRounds then 1 else 0, toLex (value st, toLex (ageRounds, -st.arrivalOrder)))

/-- `sorted(…, reverse=True)`, which keeps the order of equals. -/
def sortByScore (s : NativeScheduler ρ σ φ) (value : ScheduledState ρ → ℤ) (ids : List ρ) :
    List ρ :=
  ids.mergeSort fun a b =>
    score s.schedulerRound value (s.states b) ≤ score s.schedulerRound value (s.states a)

/-- The probe of a state, kept in it. -/
def probeState (s : NativeScheduler ρ σ φ) (id : ρ) : NativeScheduler ρ σ φ :=
  s.modify id fun st =>
    { st with cachedProbe := some (svc.probe st.work.promptTokenIds s.world) }

/-- `policy.order`. -/
def order (ids : List ρ) (s : NativeScheduler ρ σ φ) : List ρ × NativeScheduler ρ σ φ :=
  match config.policy with
  | .fcfs => (ids, s)
  | .lof => (s.sortByScore (fun st => st.work.maxTokens) ids, s)
  | .priority => (s.sortByScore (fun st => st.work.priority) ids, s)
  | .lpm =>
      let s := ids.foldl (probeState svc) s
      (s.sortByScore (fun st => ((st.cachedProbe.map PrefixProbe.matchedTokens).getD 0 : ℕ)) ids, s)

/-- The state of a request that was given a cache. -/
def admitted (admission : CacheAdmission) (st : ScheduledState ρ) : ScheduledState ρ :=
  { st with
    cachedProbe := none
    cacheHandle := some admission.cacheHandle
    cacheLength := admission.cacheLength
    reusedPromptTokens := admission.reusedTokens
    promptCursor := admission.reusedTokens }

/-- A waiting request gets its cache and runs. -/
def admitWaiting (id : ρ) (s : NativeScheduler ρ σ φ) : Except PyError (NativeScheduler ρ σ φ) :=
  let st := s.states id
  let probe := st.cachedProbe.getD (svc.probe st.work.promptTokenIds s.world)
  match svc.acquire id st.work.promptTokenIds probe s.world with
  | (.error e, _) => .error e
  | (.ok admission, world) => .ok { s with
      world := world
      waiting := s.waiting.erase id
      running := if id ∈ s.running then s.running else s.running ++ [id]
      states := Function.update s.states id (admitted admission st) }

/-- A selected request runs, if it does not yet. -/
def ensureRunning (id : ρ) (s : NativeScheduler ρ σ φ) : Except PyError (NativeScheduler ρ σ φ) :=
  if (s.states id).cacheHandle.isNone then s.admitWaiting svc id else .ok s

/-- The prefill work of the states that the policy prefers. -/
def selectPrefill : List ρ → NativeScheduler ρ σ φ →
    Except PyError (List (ExecutionRequest ρ) × NativeScheduler ρ σ φ)
  | [], s => .ok ([], s)
  | id :: ids, s => do
      let s ← s.ensureRunning svc id
      let (requests, s') ← selectPrefill ids s
      return (prefillWork config (s.states id) :: requests, s')

/-- `_select_work`. -/
def selectWork (s : NativeScheduler ρ σ φ) :
    Except PyError (List (ExecutionRequest ρ) × NativeScheduler ρ σ φ) := do
  let decode := s.running.filterMap fun id => decodeWork (s.states id)
  let limit := if !decode.isEmpty && config.prioritizeDecode then 1 else config.prefillBatchSize
  let (ids, s) := s.order svc config s.prefillStates
  let (prefill, s) ← selectPrefill svc config (ids.take limit) s
  return (decode ++ prefill, s)

/-! ## Results -/

/-- The result of a request, or the code and the text of its failure. -/
def judge (result : StepResult ρ) (request : ExecutionRequest ρ) :
    Except (String × String) (StepRequestResult ρ) :=
  match result.results.reverse.find? fun item => item.requestId = request.requestId with
  | none => .error ("INCOMPLETE_EXECUTION_RESULT", "missing executor result")
  | some item =>
      if item.phase ≠ request.phase then
        .error ("INVALID_EXECUTION_RESULT", "executor result phase does not match scheduled work")
      else
        match item.errorCode with
        | some code =>
            .error (code,
              (item.errorMessage.filter (· ≠ "")).getD "native execution request failed")
        | none => .ok item

/-- `_mark_generated`. -/
def markGenerated (token : Option Token) (st : ScheduledState ρ) : ScheduledState ρ :=
  { st with
    generatedTokens := st.generatedTokens + 1
    generationComplete :=
      if config.overlap then
        st.work.maxTokens ≤ (st.generatedTokens + 1 : ℕ) ||
          token.any fun token => token ∈ config.terminalTokenIds
      else st.generationComplete }

/-- The state after a result. -/
def applyResult (request : ExecutionRequest ρ) (item : StepRequestResult ρ)
    (st : ScheduledState ρ) : ScheduledState ρ :=
  match request.phase with
  | .prefill =>
      let st := { st with
        cacheLength := item.cacheLength
        promptCursor := st.promptCursor + request.tokenIds.length }
      if st.promptCursor = st.promptLength then
        markGenerated config item.nextTokenId { st with lastTokenId := item.nextTokenId }
      else st
  | .decode =>
      markGenerated config item.nextTokenId
        { st with cacheLength := item.cacheLength, lastTokenId := item.nextTokenId }

/-- `_advance_step_state`: the events of the failures, and the results that count. -/
def advanceStepState (result : StepResult ρ) : List (ExecutionRequest ρ) →
    NativeScheduler ρ σ φ → List (SchedulerEvent ρ) ×
      List (ExecutionRequest ρ × StepRequestResult ρ) × NativeScheduler ρ σ φ
  | [], s => ([], [], s)
  | request :: rest, s =>
      if (s.states request.requestId).open then
        match judge result request with
        | .error (code, message) =>
            let (events, applied, s) := advanceStepState result rest
              (s.modify request.requestId fun st => { st with finishRequested := true })
            (.executionError request.requestId code message :: events, applied, s)
        | .ok item =>
            let (events, applied, s) := advanceStepState result rest
              (s.modify request.requestId (applyResult config request item))
            (events, (request, item) :: applied, s)
      else advanceStepState result rest s

/-- The number of results of a phase. -/
def phaseCount (result : StepResult ρ) (phase : ExecutionPhase) : ℕ :=
  result.results.countP fun item => item.phase = phase

/-- The events of a result that counts. -/
def resultEvents (result : StepResult ρ) (request : ExecutionRequest ρ)
    (item : StepRequestResult ρ) (st : ScheduledState ρ) : List (SchedulerEvent ρ) :=
  match request.phase with
  | .prefill =>
      let complete : Bool := st.promptCursor = st.promptLength
      .prefillProgress request.requestId item.cacheLength (phaseCount result .prefill)
          request.tokenIds.length st.reusedPromptTokens complete ::
        if complete then [.token request.requestId item.nextTokenId item.cacheLength .prefill none]
        else []
  | .decode =>
      [.token request.requestId item.nextTokenId item.cacheLength .decode
        (some (phaseCount result .decode))]

/-- A prefill that counts is published. -/
def publishResult (request : ExecutionRequest ρ) (item : StepRequestResult ρ)
    (s : NativeScheduler ρ σ φ) : Except PyError (NativeScheduler ρ σ φ) :=
  match request.phase with
  | .decode => .ok s
  | .prefill =>
      match svc.publishCommitted item.cacheHandle
          (s.states request.requestId).work.promptTokenIds item.cacheLength s.world with
      | (.error e, _) => .error e
      | (.ok (), world) => .ok { s with world := world }

/-- The results that count, published and said. -/
def emitResults (result : StepResult ρ) : List (ExecutionRequest ρ × StepRequestResult ρ) →
    NativeScheduler ρ σ φ → Except PyError (List (SchedulerEvent ρ) × NativeScheduler ρ σ φ)
  | [], s => .ok ([], s)
  | (request, item) :: rest, s => do
      let s ← s.publishResult svc request item
      let (events, s') ← emitResults result rest s
      return (resultEvents result request item (s.states request.requestId) ++ events, s')

/-- `_emit_metrics` for a phase, when there is work of it. -/
def phaseMetrics (selected : List (ExecutionRequest ρ)) (s : NativeScheduler ρ σ φ)
    (phase : ExecutionPhase) : List (SchedulerEvent ρ) :=
  let work := selected.filter fun request =>
    request.phase = phase && (s.states request.requestId).open
  if work.isEmpty then []
  else [.metrics phase work.length (work.map fun request => request.tokenIds.length).sum
    s.waiting.length s.running.length]

/-- `_emit_step_result`. -/
def emitStepResult (selected : List (ExecutionRequest ρ)) (result : StepResult ρ)
    (applied : List (ExecutionRequest ρ × StepRequestResult ρ)) (s : NativeScheduler ρ σ φ) :
    Except PyError (List (SchedulerEvent ρ) × NativeScheduler ρ σ φ) := do
  let (events, s) ← emitResults svc result applied s
  return (events ++ phaseMetrics selected s .decode ++ phaseMetrics selected s .prefill, s)

/-- `_apply_step_result`. -/
def applyStepResult (selected : List (ExecutionRequest ρ)) (result : StepResult ρ)
    (s : NativeScheduler ρ σ φ) :
    Except PyError (List (SchedulerEvent ρ) × NativeScheduler ρ σ φ) := do
  let (failures, applied, s) := advanceStepState config result selected s
  let (events, s) ← emitStepResult svc selected result applied s
  return (failures ++ events, s)

/-- The code of a batch that raised. -/
def batchErrorCode : PyError → String
  | .batchExecutionError code _ => code
  | _ => "WORKER_ERROR"

/-- `_emit_failures`, for a batch that raised. -/
def emitFailures (selected : List (ExecutionRequest ρ)) (e : PyError) :
    List (SchedulerEvent ρ) :=
  selected.map fun request => .executionError request.requestId (batchErrorCode e) e.message

/-- `_mark_finished`. -/
def markFinished (selected : List (ExecutionRequest ρ)) (s : NativeScheduler ρ σ φ) :
    NativeScheduler ρ σ φ :=
  selected.foldl (fun s request =>
    s.modify request.requestId fun st => { st with finishRequested := true }) s

/-! ## Requests that leave -/

/-- The stage of a request that is cancelled. -/
def cancellationStage (s : NativeScheduler ρ σ φ) (id : ρ) : CancellationStage :=
  if id ∈ s.waiting then .pythonWaiting
  else if (s.states id).lastTokenId.isSome then .decode else .prefill

/-- `_reap_cancelled`, over the requests that there were. -/
def reapCancelledFrom (protectedIds : List ρ) : List ρ → NativeScheduler ρ σ φ →
    Except PyError (List (SchedulerEvent ρ) × NativeScheduler ρ σ φ)
  | [], s => .ok ([], s)
  | id :: ids, s =>
      if (s.states id).cancelRequested && id ∉ protectedIds then do
        let s' ← s.discard svc id
        let (events, s') ← reapCancelledFrom protectedIds ids s'
        return (.cancelled id (s.cancellationStage id) :: events, s')
      else reapCancelledFrom protectedIds ids s

/-- `_reap_cancelled`. -/
def reapCancelled (protectedIds : List ρ) (s : NativeScheduler ρ σ φ) :
    Except PyError (List (SchedulerEvent ρ) × NativeScheduler ρ σ φ) :=
  reapCancelledFrom svc protectedIds (s.waiting ++ s.running) s

/-- `_reap_finished`, over the requests that there were. -/
def reapFinishedFrom (protectedIds : List ρ) : List ρ → NativeScheduler ρ σ φ →
    Except PyError (NativeScheduler ρ σ φ)
  | [], s => .ok s
  | id :: ids, s =>
      if (s.states id).finishRequested && id ∉ protectedIds then do
        reapFinishedFrom protectedIds ids (← s.discard svc id)
      else reapFinishedFrom protectedIds ids s

/-- `_reap_finished`. -/
def reapFinished (protectedIds : List ρ) (s : NativeScheduler ρ σ φ) :
    Except PyError (NativeScheduler ρ σ φ) :=
  reapFinishedFrom svc protectedIds (s.waiting ++ s.running) s

/-! ## The tick -/

/-- `_run_step`. -/
def runStep (selected : List (ExecutionRequest ρ)) (s : NativeScheduler ρ σ φ) :
    Except PyError (List (SchedulerEvent ρ) × NativeScheduler ρ σ φ) :=
  match svc.executeBatch ⟨selected⟩ s.world with
  | (.error e, world) => .ok (emitFailures selected e, { s with world := world })
  | (.ok result, world) => applyStepResult svc config selected result { s with world := world }

/-- `_tick_serial`. -/
def tickSerial (s : NativeScheduler ρ σ φ) :
    Except PyError (List (SchedulerEvent ρ) × NativeScheduler ρ σ φ) := do
  let (events, s) ← reapCancelled svc [] { s with schedulerRound := s.schedulerRound + 1 }
  let (selected, s) ← selectWork svc config s
  if selected.isEmpty then return (events, s)
  let (stepEvents, s) ← runStep svc config selected s
  let (reaped, s) ← reapCancelled svc [] s
  return (events ++ stepEvents ++ reaped, s)

/-- A step that was resolved, and its results that count. -/
structure ResolvedStep (ρ : Type) where
  selected : List (ExecutionRequest ρ)
  result : StepResult ρ
  applied : List (ExecutionRequest ρ × StepRequestResult ρ)

/-- The step in flight, resolved. -/
def resolveStep (step : SchedulerInFlight ρ φ) (s : NativeScheduler ρ σ φ) :
    List (SchedulerEvent ρ) × Option (ResolvedStep ρ) × NativeScheduler ρ σ φ :=
  match svc.resolveBatch step.executorStep s.world with
  | (.error e, world) =>
      (emitFailures step.selected e, none,
        { s with world := world, inFlight := none }.markFinished step.selected)
  | (.ok result, world) =>
      let (events, applied, s) :=
        advanceStepState config result step.selected { s with world := world, inFlight := none }
      (events, some ⟨step.selected, result, applied⟩, s)

/-- The first part of `_tick_overlap`: the step in flight is resolved. -/
def resolveInFlight (s : NativeScheduler ρ σ φ) :
    Except PyError (List (SchedulerEvent ρ) × Option (ResolvedStep ρ) ×
      NativeScheduler ρ σ φ) :=
  match s.inFlight with
  | none => .ok ([], none, s)
  | some step => do
      let (events, resolved, s) := resolveStep svc config step s
      let (reaped, s) ← reapCancelled svc [] s
      let s ← reapFinished svc [] s
      return (events ++ reaped, resolved, s)

/-- The batch is prepared, and executed or dispatched; the result is there at once, or the
step is in flight. -/
def startBatch (batch : ExecutionBatch ρ) (s : NativeScheduler ρ σ φ) :
    Except PyError (Option (StepResult ρ)) × NativeScheduler ρ σ φ :=
  match svc.prepareBatch batch s.world with
  | (.error e, world) => (.error e, { s with world := world })
  | (.ok prepared, world) =>
      if svc.hasWork prepared then
        match batch.forwardMode with
        | .error e => (.error e, { s with world := world })
        | .ok .prefill =>
            let (result, world) := svc.executePreparedSerial prepared world
            (result.map some, { s with world := world })
        | .ok .decode | .ok .mixed =>
            match svc.dispatchBatch prepared world with
            | (.error e, world) => (.error e, { s with world := world })
            | (.ok step, world) =>
                (.ok none, { s with world := world, inFlight := some ⟨batch.requests, step⟩ })
      else
        let (result, world) := svc.executePrepared prepared world
        (result.map some, { s with world := world })

/-- The second part of `_tick_overlap`: the selected work is launched. -/
def launch (selected : List (ExecutionRequest ρ)) (s : NativeScheduler ρ σ φ) :
    List (SchedulerEvent ρ) × Option (StepResult ρ) × NativeScheduler ρ σ φ :=
  if selected.isEmpty then ([], none, s)
  else
    match startBatch svc ⟨selected⟩ s with
    | (.error e, s) => (emitFailures selected e, none, s.markFinished selected)
    | (.ok immediate, s) => ([], immediate, s)

/-- The events of the resolved step, if there is one. -/
def emitStep? (resolved : Option (ResolvedStep ρ)) (s : NativeScheduler ρ σ φ) :
    Except PyError (List (SchedulerEvent ρ) × NativeScheduler ρ σ φ) :=
  match resolved with
  | some r => emitStepResult svc r.selected r.result r.applied s
  | none => .ok ([], s)

/-- The result that is there at once, if there is one. -/
def applyStep? (selected : List (ExecutionRequest ρ)) (immediate : Option (StepResult ρ))
    (s : NativeScheduler ρ σ φ) :
    Except PyError (List (SchedulerEvent ρ) × NativeScheduler ρ σ φ) :=
  match immediate with
  | some result => applyStepResult svc config selected result s
  | none => .ok ([], s)

/-- The third part of `_tick_overlap`: the events of the resolved step, then those of a
result that is there at once. -/
def emitResolved (resolved : Option (ResolvedStep ρ)) (selected : List (ExecutionRequest ρ))
    (immediate : Option (StepResult ρ)) (s : NativeScheduler ρ σ φ) :
    Except PyError (List (SchedulerEvent ρ) × NativeScheduler ρ σ φ) := do
  let (events, s) ← emitStep? svc resolved s
  let (more, s) ← applyStep? svc config selected immediate s
  return (events ++ more, s)

/-- `_tick_overlap`. -/
def tickOverlap (s : NativeScheduler ρ σ φ) :
    Except PyError (List (SchedulerEvent ρ) × NativeScheduler ρ σ φ) := do
  let protectedIds := s.inFlightIds
  let (reaped, s) ← reapCancelled svc protectedIds
    { s with schedulerRound := s.schedulerRound + 1 }
  let s ← reapFinished svc protectedIds s
  let (resolveEvents, resolved, s) ← resolveInFlight svc config s
  let (selected, s) ← selectWork svc config s
  let (launchEvents, immediate, s) := launch svc selected s
  let (events, s) ← emitResolved svc config resolved selected immediate s
  let s ← reapFinished svc s.inFlightIds s
  return (reaped ++ resolveEvents ++ launchEvents ++ events, s)

/-- `tick`. -/
def tick (s : NativeScheduler ρ σ φ) :
    Except PyError (List (SchedulerEvent ρ) × NativeScheduler ρ σ φ) :=
  if config.overlap then tickOverlap svc config s else tickSerial svc config s

end NativeScheduler
end MlxRuntime
