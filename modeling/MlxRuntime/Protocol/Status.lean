import Mathlib.Data.List.DropRight

/-!
# Model status and the bootstrap messages

What a worker tells the gateway before it serves: lines `STATUS`, `READY` and `ERROR`.  The
readers of the JSON in them are derived by a package, so they are parameters, and the times
are inputs of the functions that read the clock.

## Main definitions

* `ModelStatus` — the lifecycle of a model, and its transitions.
* `WorkerMessage`, `decodeWorkerMessage` — the lines.
-/

namespace MlxRuntime

/-- `ModelState`. -/
inductive ModelState
  | notLoaded
  | downloading
  | verifying
  | loadingWeights
  | initializingRuntime
  | warmingUp
  | ready
  | degraded
  | failed
  | unloading
  deriving DecidableEq

/-- `ModelError`. -/
structure ModelError where
  code : String
  message : String
  at_ : ℕ
  backend : Option String := none
  stage : Option String := none
  category : Option String := none
  detail : Option String := none
  deriving DecidableEq

/-- `ModelLoadProgress`. -/
structure ModelLoadProgress where
  downloadedBytes : Option ℕ
  totalBytes : Option ℕ
  loadedTensors : Option ℕ
  totalTensors : Option ℕ
  currentPhase : Option String
  deriving DecidableEq

/-- `ModelStatus`. -/
structure ModelStatus where
  model : String
  revision : Option String
  state : ModelState := .notLoaded
  ready : Bool := false
  servable : Bool := false
  progress : Option ModelLoadProgress := none
  device : Option String := none
  dtype : Option String := none
  loadedAt : Option ℕ := none
  startedLoadingAt : Option ℕ := none
  lastTransitionAt : ℕ
  lastError : Option ModelError := none
  warmupPassed : Bool := false
  lastWarmupAt : Option ℕ := none
  lastWarmupLatencyMs : Option ℕ := none
  deriving DecidableEq

namespace ModelStatus

/-- `ModelStatus::new`. -/
def new (model : String) (now : ℕ) : ModelStatus :=
  { model := model, revision := some model, lastTransitionAt := now }

/-- `set_state`. -/
def setState (s : ModelStatus) (state : ModelState) (now : ℕ) : ModelStatus :=
  let s := if s.startedLoadingAt.isNone ∧ state ≠ .notLoaded then
    { s with startedLoadingAt := some now } else s
  let s := { s with
    state := state
    lastTransitionAt := now
    ready := state = .ready
    servable := state = .ready ∨ state = .degraded }
  if state = .ready then
    { s with
      loadedAt := some now
      warmupPassed := true
      lastWarmupAt := some now
      lastError := none
      progress := none }
  else s

/-- `mark_failed_with_error`. -/
def markFailedWithError (s : ModelStatus) (error : ModelError) (now : ℕ) : ModelStatus :=
  { s with
    state := .failed
    ready := false
    servable := false
    lastTransitionAt := now
    lastError := some error }

/-- `mark_failed`. -/
def markFailed (s : ModelStatus) (code message : String) (now : ℕ) : ModelStatus :=
  s.markFailedWithError { code := code, message := message, at_ := now } now

/-- `mark_ready`. -/
def markReady (s : ModelStatus) (device dtype : Option String) (warmupLatencyMs now : ℕ) :
    ModelStatus :=
  { s.setState .ready now with
    device := device
    dtype := dtype
    warmupPassed := true
    lastWarmupAt := some now
    lastWarmupLatencyMs := some warmupLatencyMs
    lastTransitionAt := now
    lastError := none
    progress := none }

@[simp] theorem ready_new (model : String) (now : ℕ) : (new model now).ready = false := rfl

@[simp] theorem ready_setState (s : ModelStatus) (state : ModelState) (now : ℕ) :
    (s.setState state now).ready = decide (state = .ready) := by
  simp only [setState]
  split <;> rfl

@[simp] theorem ready_markFailed (s : ModelStatus) (code message : String) (now : ℕ) :
    (s.markFailed code message now).ready = false := rfl

@[simp] theorem ready_markFailedWithError (s : ModelStatus) (error : ModelError) (now : ℕ) :
    (s.markFailedWithError error now).ready = false := rfl

@[simp] theorem ready_markReady (s : ModelStatus) (device dtype : Option String)
    (latency now : ℕ) : (s.markReady device dtype latency now).ready = true := by
  simp [markReady]

end ModelStatus

/-- `WorkerError`. -/
structure WorkerError where
  message : String
  error : Option ModelError := none
  deriving DecidableEq

/-- `WorkerMessage`. -/
inductive WorkerMessage
  | status (status : ModelStatus)
  | ready
  | error (error : WorkerError)
  deriving DecidableEq

/-- The derived readers of the JSON in a line. -/
structure BootstrapJson where
  modelStatus : List Char → Option ModelStatus
  workerError : List Char → Option WorkerError

/-- `char::is_whitespace`: the Unicode property `White_Space`. -/
def isWhitespace (c : Char) : Bool :=
  (0x09 ≤ c.toNat && c.toNat ≤ 0x0d) || c.toNat = 0x20 || c.toNat = 0x85 || c.toNat = 0xa0 ||
    c.toNat = 0x1680 || (0x2000 ≤ c.toNat && c.toNat ≤ 0x200a) || c.toNat = 0x2028 ||
    c.toNat = 0x2029 || c.toNat = 0x202f || c.toNat = 0x205f || c.toNat = 0x3000

/-- `str::trim`. -/
def trim (text : List Char) : List Char :=
  (text.dropWhile isWhitespace).rdropWhile isWhitespace

/-- `str::split_once`. -/
def splitOnce (sep : Char) : List Char → Option (List Char × List Char)
  | [] => none
  | c :: cs =>
      if c = sep then some ([], cs)
      else (splitOnce sep cs).map fun (before, after) => (c :: before, after)

theorem splitOnce_append {sep : Char} {before : List Char} (h : sep ∉ before)
    (after : List Char) : splitOnce sep (before ++ sep :: after) = some (before, after) := by
  induction before with
  | nil => simp [splitOnce]
  | cons c cs ih =>
      rw [List.mem_cons, not_or] at h
      rw [List.cons_append, splitOnce, if_neg (Ne.symm h.1), ih h.2]
      rfl

/-- `decode_worker_message`. -/
def decodeWorkerMessage (json : BootstrapJson) (line : List Char) : Option WorkerMessage :=
  let trimmed := trim line
  if trimmed = "READY".toList then some .ready
  else
    match splitOnce '\t' trimmed with
    | none => none
    | some (head, payload) =>
        if head = "STATUS".toList then (json.modelStatus payload).map .status
        else if head = "ERROR".toList then
          match json.workerError payload with
          | some error => some (.error error)
          | none => some (.error { message := String.ofList payload })
        else none

end MlxRuntime
