import MlxRuntime.Interfaces
import Mathlib.Data.Prod.Lex
import Mathlib.Data.Int.Order.Basic
import Mathlib.Data.List.Sort
import Mathlib.Logic.Function.Basic

/-!
# The state of the native scheduler

`NativeContinuousScheduler` has two ordered dictionaries of its requests, and steps that
mutate the objects in them.  Here the dictionaries are the lists of their keys, and the
objects are in `states`, under the ids of their requests: a request that was taken out of the
dictionaries is still read by the step that it was part of, and its id is given to another
request only afterwards.

The executor and the cache coordinator are parameters, with a state of their own.

## Main definitions

* `SchedulerServices` — the executor and the coordinator.
* `ScheduledState`, `SchedulerEvent` — a request, and what the scheduler says about it.
* `NativeScheduler` — the scheduler, with `submit`, `cancel`, `finish` and `idle`.
-/

namespace MlxRuntime

/-- `SchedulingPolicy`. -/
inductive SchedulingPolicy
  | fcfs
  | lpm
  | lof
  | priority
  deriving DecidableEq, Repr

/-- `SchedulableRequest`. -/
structure SchedulableRequest (ρ : Type) where
  requestId : ρ
  promptTokenIds : List Token
  maxTokens : ℤ := 0
  priority : ℤ := 0
  deriving DecidableEq

/-- `_ScheduledState`. -/
structure ScheduledState (ρ : Type) where
  work : SchedulableRequest ρ
  arrivalOrder : ℕ
  promptCursor : ℕ := 0
  cacheHandle : Option ℕ := none
  cacheLength : ℕ := 0
  reusedPromptTokens : ℕ := 0
  lastTokenId : Option Token := none
  generatedTokens : ℕ := 0
  generationComplete : Bool := false
  cancelRequested : Bool := false
  finishRequested : Bool := false
  cachedProbe : Option PrefixProbe := none

/-- The stages in which a request is cancelled. -/
inductive CancellationStage
  | pythonWaiting
  | prefill
  | decode
  deriving DecidableEq, Repr

/-- `SchedulerEvent`, by kind. -/
inductive SchedulerEvent (ρ : Type)
  | prefillProgress (requestId : ρ)
      (cacheLength batchSize scheduledTokens cachedTokens : ℕ) (promptComplete : Bool)
  | token (requestId : ρ) (tokenId : Option Token) (cacheLength : ℕ) (phase : ExecutionPhase)
      (batchSize : Option ℕ)
  | cancelled (requestId : ρ) (stage : CancellationStage)
  | executionError (requestId : ρ) (code message : String)
  | metrics (phase : ExecutionPhase) (batchSize scheduledTokens waiting running : ℕ)
  deriving DecidableEq

/-- `event.request_id`. -/
def SchedulerEvent.requestId? {ρ : Type} : SchedulerEvent ρ → Option ρ
  | .prefillProgress id _ _ _ _ _ | .token id _ _ _ _ | .cancelled id _
  | .executionError id _ _ => some id
  | .metrics _ _ _ _ _ => none

/-- The parameters of the constructor, checked. -/
structure SchedulerConfig where
  prefillBatchSize : ℕ := 4
  prefillStepSize : ℕ := 256
  prioritizeDecode : Bool := true
  policy : SchedulingPolicy := .fcfs
  /-- `execution_mode` is `overlap`, not `serial`. -/
  overlap : Bool := false
  terminalTokenIds : List Token := []
  prefillBatchSize_pos : 0 < prefillBatchSize := by decide
  prefillStepSize_pos : 0 < prefillStepSize := by decide

/-- The executor and the cache coordinator; `π` are prepared steps and `φ` steps in flight. -/
structure SchedulerServices (ρ σ π φ : Type) where
  probe : List Token → σ → PrefixProbe
  acquire : ρ → List Token → PrefixProbe → σ → Except PyError CacheAdmission × σ
  /-- `none` is the handle `""`. -/
  publishCommitted : Option ℕ → List Token → ℕ → σ → Except PyError Unit × σ
  release : Option ℕ → σ → Except PyError Unit × σ
  executeBatch : ExecutionBatch ρ → σ → Except PyError (StepResult ρ) × σ
  prepareBatch : ExecutionBatch ρ → σ → Except PyError π × σ
  hasWork : π → Bool
  executePrepared : π → σ → Except PyError (StepResult ρ) × σ
  executePreparedSerial : π → σ → Except PyError (StepResult ρ) × σ
  dispatchBatch : π → σ → Except PyError φ × σ
  resolveBatch : φ → σ → Except PyError (StepResult ρ) × σ

/-- `_SchedulerInFlight`. -/
structure SchedulerInFlight (ρ φ : Type) where
  selected : List (ExecutionRequest ρ)
  executorStep : φ

/-- `NativeContinuousScheduler`; `world` is the state of the executor and the coordinator. -/
structure NativeScheduler (ρ σ φ : Type) where
  world : σ
  states : ρ → ScheduledState ρ
  waiting : List ρ := []
  running : List ρ := []
  arrivalCounter : ℕ := 0
  schedulerRound : ℕ := 0
  inFlight : Option (SchedulerInFlight ρ φ) := none

variable {ρ σ π φ : Type}

/-- What is under an id before its first request; nothing reads it. -/
def ScheduledState.blank (id : ρ) : ScheduledState ρ where
  work := { requestId := id, promptTokenIds := [] }
  arrivalOrder := 0

namespace NativeScheduler

variable [DecidableEq ρ]

/-- A scheduler without requests. -/
def new (world : σ) : NativeScheduler ρ σ φ where
  world := world
  states := ScheduledState.blank

/-- A write to the fields of a request. -/
def modify (id : ρ) (f : ScheduledState ρ → ScheduledState ρ) (s : NativeScheduler ρ σ φ) :
    NativeScheduler ρ σ φ :=
  { s with states := Function.update s.states id (f (s.states id)) }

/-- A request is in one of the dictionaries. -/
def Present (s : NativeScheduler ρ σ φ) (id : ρ) : Prop := id ∈ s.waiting ∨ id ∈ s.running

instance (s : NativeScheduler ρ σ φ) (id : ρ) : Decidable (s.Present id) :=
  inferInstanceAs (Decidable (_ ∨ _))

/-- `submit`. -/
def submit (request : SchedulableRequest ρ) (s : NativeScheduler ρ σ φ) :
    Except PyError (NativeScheduler ρ σ φ) :=
  if s.Present request.requestId then .error (.valueError "duplicate native request")
  else .ok { s with
    arrivalCounter := s.arrivalCounter + 1
    waiting := s.waiting ++ [request.requestId]
    states := Function.update s.states request.requestId
      { work := request, arrivalOrder := s.arrivalCounter + 1 } }

/-- `cancel`. -/
def cancel (id : ρ) (s : NativeScheduler ρ σ φ) : Bool × NativeScheduler ρ σ φ :=
  if s.Present id then (true, s.modify id fun st => { st with cancelRequested := true })
  else (false, s)

/-- The ids of the step in flight. -/
def inFlightIds (s : NativeScheduler ρ σ φ) : List ρ :=
  match s.inFlight with
  | some step => step.selected.map ExecutionRequest.requestId
  | none => []

/-- `self._cache_coordinator.release(state.cache_handle)`. -/
def releaseCache (svc : SchedulerServices ρ σ π φ) (id : ρ) (s : NativeScheduler ρ σ φ) :
    Except PyError (NativeScheduler ρ σ φ) :=
  match svc.release (s.states id).cacheHandle s.world with
  | (.error e, _) => .error e
  | (.ok (), world) => .ok { s with world := world }

/-- A request leaves the dictionaries, and its cache is released. -/
def discard (svc : SchedulerServices ρ σ π φ) (id : ρ) (s : NativeScheduler ρ σ φ) :
    Except PyError (NativeScheduler ρ σ φ) :=
  { s with waiting := s.waiting.erase id, running := s.running.erase id }.releaseCache svc id

/-- `finish`. -/
def finish (svc : SchedulerServices ρ σ π φ) (id : ρ) (s : NativeScheduler ρ σ φ) :
    Except PyError (NativeScheduler ρ σ φ) :=
  if id ∈ s.inFlightIds then
    .ok (if s.Present id then s.modify id fun st => { st with finishRequested := true } else s)
  else if id ∈ s.running then { s with running := s.running.erase id }.releaseCache svc id
  else if id ∈ s.waiting then { s with waiting := s.waiting.erase id }.releaseCache svc id
  else .ok s

/-- `idle`. -/
def idle (s : NativeScheduler ρ σ φ) : Bool :=
  s.waiting.isEmpty && s.running.isEmpty && s.inFlight.isNone

end NativeScheduler
end MlxRuntime
