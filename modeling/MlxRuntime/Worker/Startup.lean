import MlxRuntime.Protocol.Status
import MlxRuntime.Runtime.Warmup

/-!
# The start of the native worker

`run_native_worker` tells the gateway the stages of its start, builds the runtime, warms it up, and
says that it is ready; whatever is raised on the way is told as a failure, and the worker ends.

## Main definitions

* `NativeStartup`, `runNativeWorker` — the frames up to the loop over commands.
* `NativeStartup.Truthful` — ready means that the warm-up was answered.
* `runNativeWorker_truthful_iff` — when it does.
-/

namespace MlxRuntime

/-- What the start raises: `NativeBootstrapFailure`, or any other exception. -/
inductive StartupFailure
  | bootstrap (error : ModelError)
  | raised (e : PyError)

/-- What the start reads of the clock. -/
structure StartupTimes where
  started : ℕ
  stagedAt : String → ℕ
  failedAt : ℕ
  loadedAt : ℕ
  warmupLatencyMs : ℕ

/-- What was sent, and what the function returned; without a code the loop over commands goes on. -/
structure NativeStartup where
  frames : List WorkerMessage
  exitCode : Option ℕ := none

section Frames

variable (model : String) (times : StartupTimes)

/-- `_stage_emitter`. -/
def stageFrame (stage : String) (state : ModelState) : WorkerMessage :=
  .status {
    model := model
    revision := some model
    state := state
    progress := some ⟨none, none, none, none, some stage⟩
    startedLoadingAt := some times.started
    lastTransitionAt := times.stagedAt stage }

/-- The error of an exception. -/
def StartupFailure.error : StartupFailure → ModelError
  | .bootstrap error => error
  | .raised e => {
      code := "NATIVE_STARTUP_FAILED"
      message := e.message ++ ". Default v1 backend remains available."
      at_ := times.failedAt
      backend := some "native-mlx"
      stage := some "native_executor_construction"
      category := some "supported_class_bug"
      detail := some model }

/-- `_emit_failure`. -/
def failureFrames (error : ModelError) : List WorkerMessage :=
  [.status {
      model := model
      revision := some model
      state := .failed
      startedLoadingAt := some times.started
      lastTransitionAt := times.failedAt
      lastError := some error },
    .error { message := error.message, error := some error }]

/-- The frames of a worker that is ready. -/
def readyFrames : List WorkerMessage :=
  [.status {
      model := model
      revision := some model
      state := .ready
      ready := true
      servable := true
      progress := some ⟨none, none, none, none, some "deterministic_warmup"⟩
      device := some "mps"
      dtype := some "float16"
      loadedAt := some times.loadedAt
      startedLoadingAt := some times.started
      lastTransitionAt := times.loadedAt
      warmupPassed := true
      lastWarmupAt := some times.loadedAt
      lastWarmupLatencyMs := some times.warmupLatencyMs },
    .ready]

end Frames

section Startup

variable {σ π φ δ F : Type} (svc : SchedulerServices String σ π φ) (config : SchedulerConfig)
  (model : ModelServices F) (text : TextServices δ) (zero one : F) (times : StartupTimes)
  (stages : List (String × ModelState)) (factory : Except StartupFailure σ)
  (profiled : Except PyError Unit) (fuel : ℕ)

/-- `run_native_worker`, up to its loop, and the events of the warm-up; the factory tells `stages`
and makes a runtime without requests. -/
def runNativeWorker : Option (List (RuntimeEvent String) × NativeStartup) :=
  let failed (frames : List WorkerMessage) (failure : StartupFailure) : NativeStartup := {
    frames := frames ++
      failureFrames model.modelRef times (failure.error model.modelRef times)
    exitCode := some 1 }
  let frames := stageFrame model.modelRef times "architecture_detection" .verifying ::
    stages.map fun stage => stageFrame model.modelRef times stage.1 stage.2
  match factory with
  | .error failure => some ([], failed frames failure)
  | .ok world =>
      let frames := frames ++ [stageFrame model.modelRef times "deterministic_warmup" .warmingUp]
      (NativeRuntime.warmup svc config model text zero one profiled fuel
        { scheduler := .new world }).map fun (events, result) =>
          match result with
          | .error e => (events, failed frames (.raised e))
          | .ok _ => (events, { frames := frames ++ readyFrames model.modelRef times })

/-- The worker says that it is ready. -/
def NativeStartup.TellsReady (start : NativeStartup) : Prop :=
  .ready ∈ start.frames ∨ ∃ status, .status status ∈ start.frames ∧ status.ready = true

/-- It says that it failed. -/
def NativeStartup.TellsFailed (start : NativeStartup) : Prop :=
  (∃ status, .status status ∈ start.frames ∧ status.state = .failed ∧ status.ready = false) ∧
    ∃ error, .error error ∈ start.frames

/-- The worker is ready only if the request of the warm-up got its response, and an error of that
request is a failure, with which the worker ends. -/
structure NativeStartup.Truthful (events : List (RuntimeEvent String)) (start : NativeStartup) :
    Prop where
  ready : start.TellsReady → NativeRuntime.Responds "warmup" events
  failed : NativeRuntime.Errs "warmup" events → start.TellsFailed ∧ start.exitCode = some 1

/-- At no tick of the warm-up does the executor fail its request without an exception. -/
def WarmsUp : Prop :=
  ∀ world, factory = .ok world → ∀ r : NativeRuntime String σ φ δ,
    NativeRuntime.submitRequest model text (NativeRuntime.warmupRequest model.modelRef zero one)
      profiled { scheduler := .new world } = (.ok (), r) →
    r.EachTick svc config text (fun r => r.scheduler.failsQuietly svc config = false) fuel

/-! ## What the frames tell -/

variable {model times} {modelRef : String} {frames : List WorkerMessage} {error : ModelError}
  {events : List (RuntimeEvent String)}

/-- No frame of a list says that the worker is ready. -/
def Unready (frames : List WorkerMessage) : Prop :=
  ∀ frame ∈ frames, frame ≠ .ready ∧ ∀ status, frame = .status status → status.ready = false

variable (modelRef times) in
theorem unready_stageFrame (stage : String) (state : ModelState) :
    Unready [stageFrame modelRef times stage state] := by
  intro frame hframe
  rw [List.mem_singleton.mp hframe]
  refine ⟨WorkerMessage.noConfusion, fun status heq => ?_⟩
  rw [← WorkerMessage.status.inj heq]

theorem Unready.append {more : List WorkerMessage} (h : Unready frames) (hmore : Unready more) :
    Unready (frames ++ more) := fun frame hframe =>
  (List.mem_append.mp hframe).elim (h frame) (hmore frame)

theorem unready_stages (stages : List (String × ModelState)) :
    Unready (stages.map fun stage => stageFrame modelRef times stage.1 stage.2) := by
  intro frame hframe
  obtain ⟨stage, -, rfl⟩ := List.mem_map.mp hframe
  exact unready_stageFrame times modelRef stage.1 stage.2 _ (List.mem_singleton_self _)

theorem unready_failureFrames : Unready (failureFrames modelRef times error) := by
  intro frame hframe
  rcases List.mem_cons.mp hframe with rfl | hframe
  · refine ⟨WorkerMessage.noConfusion, fun status heq => ?_⟩
    rw [← WorkerMessage.status.inj heq]
  · rw [List.mem_singleton.mp hframe]
    exact ⟨WorkerMessage.noConfusion, fun status heq => WorkerMessage.noConfusion heq⟩

theorem Unready.not_tellsReady {start : NativeStartup} (h : Unready start.frames) :
    ¬ start.TellsReady := by
  rintro (hready | ⟨status, hstatus, hready⟩)
  · exact (h _ hready).1 rfl
  · rw [(h _ hstatus).2 status rfl] at hready
    cases hready

/-- A failure is told, and nothing else. -/
theorem truthful_of_failed (h : Unready frames) :
    NativeStartup.Truthful events
      ⟨frames ++ failureFrames modelRef times error, some 1⟩ where
  ready hready := absurd hready (Unready.not_tellsReady (h.append unready_failureFrames))
  failed _ := ⟨⟨⟨_, List.mem_append_right _ List.mem_cons_self, rfl, rfl⟩, _,
    List.mem_append_right _ (List.mem_cons_of_mem _ (List.mem_singleton_self _))⟩, rfl⟩

/-- A worker that says it is ready tells the truth just when its warm-up was answered. -/
theorem truthful_of_ready_iff : NativeStartup.Truthful events
      { frames := frames ++ readyFrames modelRef times } ↔
    NativeRuntime.Responds "warmup" events ∧ ¬ NativeRuntime.Errs "warmup" events := by
  constructor
  · intro h
    refine ⟨h.ready (.inl (List.mem_append_right _
      (List.mem_cons_of_mem _ (List.mem_singleton_self _)))), fun herrs => ?_⟩
    cases (h.failed herrs).2
  · rintro ⟨hresponds, herrs⟩
    exact ⟨fun _ => hresponds, fun hyes => absurd hyes herrs⟩

/-! ## The start -/

/-- The warm-up is honest just when no tick of it fails quietly. -/
theorem warmup_honest_iff (svc : SchedulerServices String σ π φ) (config : SchedulerConfig)
    (model : ModelServices F) (text : TextServices δ) (zero one : F)
    (profiled : Except PyError Unit) (fuel : ℕ) (world : σ) :
    (∀ events result, NativeRuntime.warmup svc config model text zero one profiled fuel
        { scheduler := .new world } = some (events, result) →
      NativeRuntime.Honest "warmup" events result) ↔
      WarmsUp svc config model text zero one (.ok world) profiled fuel := by
  have hwarms : WarmsUp svc config model text zero one (.ok world) profiled fuel ↔
      ∀ r : NativeRuntime String σ φ δ, NativeRuntime.submitRequest model text
        (NativeRuntime.warmupRequest model.modelRef zero one) profiled { scheduler := .new world } =
          (.ok (), r) →
        r.EachTick svc config text (fun r => r.scheduler.failsQuietly svc config = false) fuel := by
    constructor
    · intro h
      exact h world rfl
    · intro h world' heq
      obtain rfl := Except.ok.inj heq
      exact h
  rw [hwarms, NativeRuntime.warmup]
  cases hsubmit : NativeRuntime.submitRequest model text
      (NativeRuntime.warmupRequest model.modelRef zero one) profiled
      ({ scheduler := .new world } : NativeRuntime String σ φ δ) with
  | mk submitted r =>
    cases submitted with
    | error e =>
      refine iff_of_true (fun events result heq => ?_) (fun r' heq => by cases heq)
      obtain ⟨rfl, rfl⟩ := Prod.mk.inj (Option.some.inj heq)
      exact ⟨(fun r hr => by cases hr), fun herrs => absurd herrs NativeRuntime.not_errs_nil⟩
    | ok _ =>
      have hwarming : NativeRuntime.Warming "warmup" r :=
        NativeRuntime.warming_submitRequest (Int.le_refl 1) hsubmit
      refine (hwarming.honest_iff fuel).trans ⟨fun h r' heq => ?_, fun h => h r rfl⟩
      obtain ⟨-, rfl⟩ := Prod.mk.inj heq
      exact h

/-- **When ready means warmed up.**  The worker is ready only with a response to its warm-up, and
fails with every error of it, if and only if no tick of the warm-up drops a failure of the
executor. -/
theorem runNativeWorker_truthful_iff (svc : SchedulerServices String σ π φ)
    (config : SchedulerConfig) (model : ModelServices F) (text : TextServices δ) (zero one : F)
    (times : StartupTimes) (stages : List (String × ModelState))
    (factory : Except StartupFailure σ) (profiled : Except PyError Unit) (fuel : ℕ) :
    (∀ events start, runNativeWorker svc config model text zero one times stages factory profiled
        fuel = some (events, start) → start.Truthful events) ↔
      WarmsUp svc config model text zero one factory profiled fuel := by
  have hstages : Unready (stageFrame model.modelRef times "architecture_detection" .verifying ::
      stages.map fun stage => stageFrame model.modelRef times stage.1 stage.2) :=
    (unready_stageFrame _ _ _ _).append (unready_stages stages)
  cases factory with
  | error failure =>
    refine iff_of_true (fun events start heq => ?_) (fun world heq => by cases heq)
    obtain ⟨rfl, rfl⟩ := Prod.mk.inj (Option.some.inj heq)
    exact truthful_of_failed hstages
  | ok world =>
    have hframes := hstages.append
      (unready_stageFrame times model.modelRef "deterministic_warmup" .warmingUp)
    rw [← warmup_honest_iff, runNativeWorker]
    dsimp only
    generalize NativeRuntime.warmup svc config model text zero one profiled fuel
      { scheduler := .new world } = warmed
    cases warmed with
    | none => exact iff_of_true (fun _ _ heq => by cases heq) (fun _ _ heq => by cases heq)
    | some outcome =>
      obtain ⟨events, result⟩ := outcome
      have hsame : (∀ e s, some (events, result) = some (e, s) → NativeRuntime.Honest "warmup" e s) ↔
          NativeRuntime.Honest "warmup" events result := by
        constructor
        · intro h
          exact h events result rfl
        · intro h e s heq
          obtain ⟨rfl, rfl⟩ := Prod.mk.inj (Option.some.inj heq)
          exact h
      rw [hsame]
      cases result with
      | error e =>
        refine iff_of_true (fun events' start heq => ?_)
          ⟨(fun r hr => by cases hr), fun _ => ⟨e, rfl⟩⟩
        obtain ⟨rfl, rfl⟩ := Prod.mk.inj (Option.some.inj heq)
        exact truthful_of_failed hframes
      | ok r =>
        constructor
        · intro h
          obtain ⟨hresponds, herrs⟩ := truthful_of_ready_iff.mp (h _ _ rfl)
          exact ⟨fun _ _ => hresponds, fun hyes => absurd hyes herrs⟩
        · intro h events' start heq
          obtain ⟨rfl, rfl⟩ := Prod.mk.inj (Option.some.inj heq)
          refine truthful_of_ready_iff.mpr ⟨h.responds r rfl, fun hyes => ?_⟩
          obtain ⟨e, he⟩ := h.raises hyes
          cases he

end Startup

/-! ## An executor that fails -/

/-- An executor out of memory. -/
def failingExecutor : SchedulerServices String Unit Unit Unit where
  probe _ _ := {}
  acquire _ _ _ world := (.ok ⟨0, 0, 0, 0⟩, world)
  publishCommitted _ _ _ world := (.ok (), world)
  release _ world := (.ok (), world)
  executeBatch _ world := (.error (.external "out of memory"), world)
  prepareBatch _ world := (.error (.external "out of memory"), world)
  hasWork _ := true
  executePrepared _ world := (.error (.external "out of memory"), world)
  executePreparedSerial _ world := (.error (.external "out of memory"), world)
  dispatchBatch _ world := (.error (.external "out of memory"), world)
  resolveBatch _ world := (.error (.external "out of memory"), world)

/-- The warm-up ends in an error, and the worker says that it is ready. -/
theorem not_truthful_failingExecutor : ¬ ∀ events start,
    runNativeWorker failingExecutor {} NativeRuntime.countingModel NativeRuntime.letterTokenizer
      () () ⟨0, fun _ => 0, 0, 0, 1⟩ [] (.ok ()) (.ok ()) 1 = some (events, start) →
    start.Truthful events := by
  intro h
  obtain ⟨response, hmem, -⟩ := (h [.error "WORKER_ERROR" "warmup" "out of memory"] _ rfl).ready
    (.inl (by decide))
  cases List.mem_singleton.mp hmem

end MlxRuntime
