import MlxRuntime.Lib.Dict
import MlxRuntime.Lib.Method
import MlxRuntime.V1.Requests

/-!
# The scheduler of the text model

`ContinuousBatchScheduler` keeps requests in a queue, puts some of them into a batch generator, and
passes on what that generates.  The generator and the tokenizer are parameters that may raise, and
so is the store of prompt caches.

## Main definitions

* `TextContext`, `TextGenerator`, `PromptCaches` — the parameters.
* `ScheduledRequest`, `TextScheduler` — a request, and the scheduler.
* `TextScheduler.submit`, `TextScheduler.cancel`, `TextScheduler.tick` — its methods.
-/

namespace MlxRuntime

/-- `BatchBackendContext`. -/
structure TextContext (ρ F : Type) where
  modelId : String
  decode : List Token → Except PyError Text
  buildPromptTokens : ChatRequest ρ F → Except PyError (List Token)
  validateTokenLimits : ChatRequest ρ F → List Token → Except PyError Unit

/-- A prompt for the generator. -/
structure TextInsert (F κ : Type) where
  prompt : List Token
  maxTokens : ℤ
  cache : Option κ
  /-- The tokens in the cache. -/
  allTokens : List Token
  temperature : F
  topP : F

/-- A response of the generator. -/
structure GenerationResponse (κ : Type) where
  uid : ℕ
  token : Token
  finishReason : Option String
  promptCache : Option κ
  allTokens : Option (List Token)

/-- `mlx_lm.BatchGenerator`, with whatever its calls depend on. -/
structure TextGenerator (γ F κ : Type) where
  construct : γ → Except PyError Unit × γ
  nextGenerated : γ → Except PyError (List (GenerationResponse κ)) × γ
  insert : List (TextInsert F κ) → γ → Except PyError (List ℕ) × γ
  remove : ℕ → γ → Except PyError Unit × γ
  promptCacheNbytes : γ → ℕ

/-- The store of prompt caches, and the budget that it shares. -/
structure PromptCaches (ω κ : Type) where
  lookup : List Token → ω → Option (CachedPrompt κ) × ω
  remember : List Token → κ → ω → ω
  /-- `_trim_mlx_prompt_cache`. -/
  trim : κ → ℕ → Option κ
  entries : ω → ℕ
  evictions : ω → ℕ
  setActiveBatchBytes : ℕ → ω → ω

/-- `_ScheduledRequest`. -/
structure ScheduledRequest (ρ F κ : Type) where
  request : ChatRequest ρ F
  stream : Bool
  promptTokens : List Token
  cachedPrompt : Option (CachedPrompt κ)
  promptBatchSize : ℕ := 0
  decodeBatchSize : ℕ := 0
  uid : Option ℕ := none
  generatedTokens : List Token := []
  renderedText : Text := []
  stage : Stage := .pending
  cancelledStage : Option Stage := none
  /-- `timing.decode_started_at` is set. -/
  decodeStarted : Bool := false

/-- The settings of a v1 scheduler. -/
structure V1Config where
  promptConcurrency : ℕ := 4
  decodeConcurrency : ℕ := 4
  configuredPromptBatchSize : ℕ := promptConcurrency
  configuredDecodeBatchSize : ℕ := decodeConcurrency

/-- `ContinuousBatchScheduler`, with what its sink was told. -/
structure TextScheduler (ρ F κ γ ω : Type) where
  pending : List (ScheduledRequest ρ F κ) := []
  active : Dict ℕ (ScheduledRequest ρ F κ) := .empty
  /-- There is a generator. -/
  generator : Bool := false
  library : γ
  caches : ω
  workerCancellationCount : ℕ := 0
  workerErrorCount : ℕ := 0
  sink : List (SinkEvent ρ) := []

namespace TextScheduler

variable {ρ F κ γ ω : Type}

/-- A method of the scheduler. -/
abbrev Call (ρ F κ γ ω α : Type) := Method PyError (TextScheduler ρ F κ γ ω) α

variable (ctx : TextContext ρ F) (gen : TextGenerator γ F κ) (store : PromptCaches ω κ)
  (config : V1Config)

/-- Tell the sink. -/
def emit (event : SinkEvent ρ) : Call ρ F κ γ ω Unit :=
  .modify fun s => { s with sink := s.sink ++ [event] }

/-- A call of the generator. -/
def generate {α : Type} (f : γ → Except PyError α × γ) : Call ρ F κ γ ω α :=
  .call library (fun g s => { s with library := g }) f

/-- A write to a request that runs. -/
def putJob (uid : ℕ) (job : ScheduledRequest ρ F κ) : Call ρ F κ γ ω Unit :=
  .modify fun s => { s with active := s.active.set uid job }

/-- `set_active_batch_bytes`. -/
def reportActiveBatch : Call ρ F κ γ ω Unit :=
  .modify fun s =>
    { s with caches := store.setActiveBatchBytes (gen.promptCacheNbytes s.library) s.caches }

/-- An error for a request that is refused. -/
def refuse (requestId : ρ) (message : String) : Call ρ F κ γ ω Unit := do
  .modify fun s => { s with workerErrorCount := s.workerErrorCount + 1 }
  emit (.error requestId "INVALID_REQUEST" message)

/-- The prompt of a request. -/
def promptOf (request : ChatRequest ρ F) : Except PyError (List Token) := do
  let tokens ← ctx.buildPromptTokens request
  ctx.validateTokenLimits request tokens
  return tokens

/-- A request whose prompt is built waits. -/
def enqueue (request : ChatRequest ρ F) (stream : Bool) (tokens : List Token) :
    Call ρ F κ γ ω Unit :=
  .modify fun s =>
    { s with
      pending := s.pending ++ [{
        request := request
        stream := stream
        promptTokens := tokens
        cachedPrompt := (store.lookup tokens s.caches).1 }]
      caches := (store.lookup tokens s.caches).2 }

/-- `submit`. -/
def submit (request : ChatRequest ρ F) (stream : Bool) : Call ρ F κ γ ω Unit :=
  if request.model ≠ ctx.modelId then
    refuse request.requestId (modelMismatch request.model ctx.modelId)
  else
    match promptOf ctx request with
    | .error (.valueError message) => refuse request.requestId message
    | .error e => .ofExcept (.error e)
    | .ok tokens => enqueue store request stream tokens

/-- The response for a request. -/
def responseOf (s : TextScheduler ρ F κ γ ω) (job : ScheduledRequest ρ F κ)
    (finishReason : String) : V1Response ρ where
  requestId := job.request.requestId
  model := ctx.modelId
  text := job.renderedText
  finishReason := finishReason
  promptTokens := job.promptTokens.length
  completionTokens := job.generatedTokens.length
  backend := "text"
  modality := "text"
  apcMode := "none"
  schedulerStage := job.stage
  cancellationStage := job.cancelledStage
  promptCacheHit := some job.cachedPrompt.isSome
  cachedTokens := job.cachedPrompt.map fun cached => cached.tokens.length
  promptCacheBytes := job.cachedPrompt.map fun cached => cached.cacheBytes
  promptBatchSize := orNone job.promptBatchSize
  decodeBatchSize := orNone job.decodeBatchSize
  configuredPromptBatchSize := config.configuredPromptBatchSize
  configuredDecodeBatchSize := config.configuredDecodeBatchSize
  workerCancellationCount := s.workerCancellationCount
  workerErrorCount := s.workerErrorCount
  promptCacheEntries := some (store.entries s.caches)
  promptCacheEvictions := some (store.evictions s.caches)

/-- A response for a request, as the scheduler is now. -/
def respond (job : ScheduledRequest ρ F κ) (finishReason : String) : Call ρ F κ γ ω Unit := do
  let s ← .get
  emit (.response (responseOf ctx store config s job finishReason))

/-- The end of `cancel`. -/
def emitCancelled (job : ScheduledRequest ρ F κ) : Call ρ F κ γ ω Unit := do
  .modify fun s => { s with workerCancellationCount := s.workerCancellationCount + 1 }
  respond ctx store config
    { job with cancelledStage := some job.stage, stage := .cancelled } "cancelled"

/-- `cancel`; the answer is whether a request was cancelled. -/
def cancel [DecidableEq ρ] (requestId : ρ) : Call ρ F κ γ ω Bool := do
  let s ← .get
  match s.pending.find? fun job => job.request.requestId = requestId with
  | some job =>
      .modify fun s =>
        { s with pending := s.pending.eraseP fun job => job.request.requestId = requestId }
      emitCancelled ctx store config job
      return true
  | none =>
      match s.active.entries.find? fun entry => entry.2.request.requestId = requestId with
      | some (uid, job) =>
          .modify fun s => { s with active := s.active.pop uid }
          emitCancelled ctx store config job
          .when s.generator (generate (gen.remove uid))
          return true
      | none => return false

/-- `_emit_delta`. -/
def emitDelta (uid : ℕ) (job : ScheduledRequest ρ F κ) : Call ρ F κ γ ω Unit := do
  let decoded ← .ofExcept (ctx.decode job.generatedTokens)
  .when (job.stream ∧ deltaOf job.renderedText decoded ≠ [])
    (emit (.delta job.request.requestId (deltaOf job.renderedText decoded)))
  putJob uid { job with renderedText := decoded }

/-- What `_finish` stores. -/
def rememberPrompt (job : ScheduledRequest ρ F κ) (promptCache : Option κ)
    (allTokens : Option (List Token)) : Call ρ F κ γ ω Unit :=
  match promptCache with
  | none => pure ()
  | some promptCache =>
      let cachedPrefixTokens := (job.cachedPrompt.map CachedPrompt.tokens).getD []
      let fullPromptTokens := cachedPrefixTokens ++ job.promptTokens
      let sequenceTokens := allTokens.getD fullPromptTokens
      match promptCacheForPromptTokens store.trim promptCache sequenceTokens fullPromptTokens with
      | none => pure ()
      | some value =>
          .modify fun s => { s with caches := store.remember fullPromptTokens value s.caches }

/-- `_finish`. -/
def finish (job : ScheduledRequest ρ F κ) (finishReason : String) (promptCache : Option κ)
    (allTokens : Option (List Token)) : Call ρ F κ γ ω Unit := do
  let rendered ← .ofExcept (if job.stream then .ok job.renderedText
    else ctx.decode job.generatedTokens)
  rememberPrompt store job promptCache allTokens
  respond ctx store config { job with renderedText := rendered, stage := .completed } finishReason

/-- A request on a response of the generator, before its token. -/
def ScheduledRequest.decoding (job : ScheduledRequest ρ F κ) (batchSize : ℕ) :
    ScheduledRequest ρ F κ :=
  { job with
    stage := if job.decodeStarted then job.stage else .decoding
    decodeStarted := true
    decodeBatchSize := max job.decodeBatchSize batchSize }

/-- A token for a request. -/
def appendToken (uid : ℕ) (job : ScheduledRequest ρ F κ) (token : Token) :
    Call ρ F κ γ ω Unit := do
  let job := { job with generatedTokens := job.generatedTokens ++ [token] }
  putJob uid job
  emitDelta ctx uid job

/-- The request that runs under `uid` ends. -/
def finishActive (response : GenerationResponse κ) (finishReason : String) :
    Call ρ F κ γ ω Unit := do
  let s ← .get
  match s.active.get? response.uid with
  | none => pure ()
  | some job =>
      finish ctx store config job finishReason response.promptCache response.allTokens
      .modify fun s => { s with active := s.active.pop response.uid }

/-- A response of the generator. -/
def acceptResponse (response : GenerationResponse κ) : Call ρ F κ γ ω Unit := do
  let s ← .get
  match s.active.get? response.uid with
  | none => pure ()
  | some job =>
      let job := ScheduledRequest.decoding job s.active.keys.length
      putJob response.uid job
      .when (response.finishReason ≠ some "stop")
        (appendToken ctx response.uid job response.token)
      match response.finishReason with
      | none => pure ()
      | some finishReason => finishActive ctx store config response finishReason

/-- `_step_generator`. -/
def stepGenerator : Call ρ F κ γ ω Unit := do
  let responses ← generate gen.nextGenerated
  responses.forM (acceptResponse ctx store config)

/-- What the generator is given for a request, and the request then. -/
def insertOf (job : ScheduledRequest ρ F κ) : TextInsert F κ × ScheduledRequest ρ F κ :=
  let whole (job : ScheduledRequest ρ F κ) : TextInsert F κ × ScheduledRequest ρ F κ :=
    ({ prompt := job.promptTokens, maxTokens := job.request.maxTokens, cache := none,
       allTokens := [], temperature := job.request.temperature, topP := job.request.topP }, job)
  match job.cachedPrompt with
  | none => whole job
  | some cached =>
      let suffix := job.promptTokens.drop cached.tokens.length
      if suffix = [] then whole { job with cachedPrompt := none }
      else
        ({ prompt := suffix, maxTokens := job.request.maxTokens, cache := some cached.promptCache,
           allTokens := cached.tokens, temperature := job.request.temperature,
           topP := job.request.topP }, job)

/-- How many requests the loop of `_admit_pending` takes: `active` run, `taken` are in the batch. -/
def room (active : ℕ) : ℕ → List (ScheduledRequest ρ F κ) → ℕ
  | _, [] => 0
  | taken, _ :: rest =>
      if taken < config.promptConcurrency ∧ active + taken < config.decodeConcurrency then
        room active (taken + 1) rest + 1
      else 0

/-- The requests of a batch run. -/
def activate (batch : List (ScheduledRequest ρ F κ)) (uids : List ℕ) : Call ρ F κ γ ω Unit :=
  .modify fun s =>
    { s with
      active := s.active.setAll (fun active uid job =>
        { job with
          uid := some uid
          promptBatchSize := batch.length
          decodeBatchSize := active.keys.length + batch.length
          stage := .promptProcessing }) (batch.zip uids) }

/-- A batch goes to the generator. -/
def insertBatch (batch : List (ScheduledRequest ρ F κ)) : Call ρ F κ γ ω Unit := do
  let inserts := batch.map insertOf
  let uids ← generate (gen.insert (inserts.map Prod.fst))
  match uidsError uids batch.length with
  | some e => .ofExcept (.error e)
  | none =>
      activate (inserts.map Prod.snd) uids
      reportActiveBatch gen store

/-- `_admit_pending`. -/
def admitPending : Call ρ F κ γ ω Unit := do
  let s ← .get
  if s.pending = [] then pure ()
  else do
    .when (¬ s.generator) do
      generate gen.construct
      .modify fun s => { s with generator := true }
    if config.decodeConcurrency ≤ s.active.keys.length then pure ()
    else do
      let n := room config s.active.keys.length 0 s.pending
      .modify fun s => { s with pending := s.pending.drop n }
      .when (s.pending.take n ≠ []) (insertBatch gen store (s.pending.take n))

/-- `tick`. -/
def tick : Call ρ F κ γ ω Unit := do
  let s ← .get
  if ¬ s.generator ∧ s.pending = [] then pure ()
  else do
    .when (s.active.keys ≠ [] ∧ s.generator) do
      stepGenerator ctx gen store config
      reportActiveBatch gen store
    admitPending gen store config

/-- `idle`. -/
def idle (s : TextScheduler ρ F κ γ ω) : Bool := s.pending.isEmpty && s.active.keys.isEmpty

end TextScheduler
end MlxRuntime
