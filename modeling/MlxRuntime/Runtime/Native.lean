import MlxRuntime.Lib.Dict
import MlxRuntime.Runtime.Response
import MlxRuntime.Scheduler.Tick

/-!
# The native runtime

`NativeRuntime` keeps the text of each request beside the scheduler, which knows of its tokens
only.  It hears of a request through the events of a tick, and tells the scheduler when the
request ends.

## Main definitions

* `RuntimeEvent` — what the worker is told.
* `NativeRuntimeState.applyEvent` — an event of a request.
* `NativeRuntime`, with `submit`, `cancel`, `tick` and `idle`.
-/

namespace MlxRuntime

/-- `RuntimeEvent`, by kind. -/
inductive RuntimeEvent (ρ : Type)
  | text (event : TextEvent ρ)
  | error (code : String) (requestId : ρ) (message : String)
  | metrics (phase : ExecutionPhase) (batchSize scheduledTokens waiting running : ℕ)
  deriving DecidableEq

/-- The text of a stage. -/
def CancellationStage.text : CancellationStage → String
  | .pythonWaiting => "python_waiting"
  | .prefill => "prefill"
  | .decode => "decode"

namespace NativeRuntimeState

variable {ρ δ : Type} (svc : TextServices δ)

/-- The stage in which a request is when `cancel` is called; `prefillTimeMs` is measured. -/
def stageNow (prefillTimeMs : ℕ) (st : NativeRuntimeState ρ δ) : CancellationStage :=
  if st.completionTokenIds ≠ [] then .decode
  else if prefillTimeMs = 0 ∧ st.promptBatchSize = none then .pythonWaiting
  else .prefill

/-- What `cancel` writes. -/
def markCancelled (prefillTimeMs : ℕ) (st : NativeRuntimeState ρ δ) : NativeRuntimeState ρ δ :=
  { st with cancellationStage := some (st.stageNow prefillTimeMs).text }

/-- `_fail`, but for the scheduler. -/
def fail (code message : String) (st : NativeRuntimeState ρ δ) : List (RuntimeEvent ρ) :=
  [.error code st.request.requestId message]

/-- `_apply_scheduler_event`, for an event of this request; without a state the request has
ended. -/
def applyEvent (counters : RuntimeCounters) (event : SchedulerEvent ρ)
    (st : NativeRuntimeState ρ δ) :
    List (RuntimeEvent ρ) × Option (NativeRuntimeState ρ δ) × RuntimeCounters :=
  let failed (code message : String) :
      List (RuntimeEvent ρ) × Option (NativeRuntimeState ρ δ) × RuntimeCounters :=
    (st.fail code message, none, { counters with errorCount := counters.errorCount + 1 })
  match event with
  | .prefillProgress _ _ batchSize _ cachedTokens _ =>
      ([], some { st with
        cachedTokens := max st.cachedTokens cachedTokens
        promptBatchSize := some batchSize }, counters)
  | .token _ token _ _ batchSize =>
      let st := { st with decodeBatchSize := batchSize <|> st.decodeBatchSize }
      match token with
      | none => failed "WORKER_ERROR" "model step returned no token"
      | some token =>
          let (events, st) := st.acceptToken svc counters token
          (events.map .text, st, counters)
  | .cancelled _ stage =>
      let st := { st with cancellationStage := some stage.text }
      let counters := { counters with cancellationCount := counters.cancellationCount + 1 }
      ((st.finish svc counters .cancelled).map .text, none, counters)
  | .executionError _ code message =>
      failed (if code = "" then "WORKER_ERROR" else code)
        (if message = "" then "native execution failed" else message)
  | .metrics _ _ _ _ _ => ([], some st, counters)

end NativeRuntimeState

/-- `NativeRuntime`. -/
structure NativeRuntime (ρ σ φ δ : Type) where
  scheduler : NativeScheduler ρ σ φ
  requests : Dict ρ (NativeRuntimeState ρ δ) := .empty
  counters : RuntimeCounters := {}

namespace NativeRuntime

variable {ρ σ π φ δ : Type} [DecidableEq ρ] (svc : SchedulerServices ρ σ π φ)
  (text : TextServices δ) (config : SchedulerConfig)

/-- The request that the scheduler is given. -/
def schedulable (request : TextRequest ρ) (prompt : List Token) : SchedulableRequest ρ where
  requestId := request.requestId
  promptTokenIds := prompt
  maxTokens := request.maxTokens
  priority := 0

/-- `submit`, of a request that passes its checks. -/
def submit (request : TextRequest ρ) (prompt : List Token) (r : NativeRuntime ρ σ φ δ) :
    Except PyError Unit × NativeRuntime ρ σ φ δ :=
  let r := { r with
    requests := r.requests.set request.requestId (.ofRequest text request prompt) }
  match r.scheduler.submit (schedulable request prompt) with
  | .error e => (.error e, r)
  | .ok scheduler => (.ok (), { r with scheduler := scheduler })

/-- `cancel`. -/
def cancel (id : ρ) (prefillTimeMs : ℕ) (r : NativeRuntime ρ σ φ δ) :
    Bool × NativeRuntime ρ σ φ δ :=
  let requests := match r.requests.get? id with
    | some st => r.requests.set id (st.markCancelled prefillTimeMs)
    | none => r.requests
  let (handled, scheduler) := r.scheduler.cancel id
  (handled, { r with requests := requests, scheduler := scheduler })

/-- `_apply_scheduler_event`. -/
def applySchedulerEvent (event : SchedulerEvent ρ) (r : NativeRuntime ρ σ φ δ) :
    Except PyError (List (RuntimeEvent ρ) × NativeRuntime ρ σ φ δ) :=
  match event with
  | .metrics phase batchSize scheduledTokens waiting running =>
      .ok ([.metrics phase batchSize scheduledTokens waiting running], r)
  | .prefillProgress id _ _ _ _ _ | .token id _ _ _ _ | .cancelled id _
  | .executionError id _ _ =>
      match r.requests.get? id with
      | none => .ok ([], r)
      | some st =>
          match st.applyEvent text r.counters event with
          | (events, some st, counters) =>
              .ok (events, { r with requests := r.requests.set id st, counters := counters })
          | (events, none, counters) => do
              let scheduler ← r.scheduler.finish svc id
              return (events, { scheduler := scheduler, requests := r.requests.pop id, counters })

/-- The events of a tick, one after the other. -/
def applySchedulerEvents : List (SchedulerEvent ρ) → NativeRuntime ρ σ φ δ →
    Except PyError (List (RuntimeEvent ρ) × NativeRuntime ρ σ φ δ)
  | [], r => .ok ([], r)
  | event :: events, r => do
      let (output, r) ← r.applySchedulerEvent svc text event
      let (more, r) ← applySchedulerEvents events r
      return (output ++ more, r)

/-- `tick`. -/
def tick (r : NativeRuntime ρ σ φ δ) :
    Except PyError (List (RuntimeEvent ρ) × NativeRuntime ρ σ φ δ) := do
  let (events, scheduler) ← r.scheduler.tick svc config
  { r with scheduler := scheduler }.applySchedulerEvents svc text events

/-- `idle`. -/
def idle (r : NativeRuntime ρ σ φ δ) : Bool := r.scheduler.idle

end NativeRuntime
end MlxRuntime
