import MlxRuntime.Lib.Dict
import MlxRuntime.Lib.Method
import MlxRuntime.V1.TextScheduler

/-!
# The scheduler of the VLM

`VlmContinuousBatchScheduler` prepares a request when it takes it from its queue: the images are
read and embedded, and before each of these parts it asks whether the request was cancelled.  A
generator has one sampler, so only requests with its temperature and top-p are taken, and the
others stay in the queue.

The engine and the generator are parameters that may raise, and so are the caches.

## Main definitions

* `VlmEngine`, `VlmGenerator`, `VlmCaches` — the parameters.
* `ApcCacheKey` — the namespace of a prompt among the stored prompt caches.
* `ScheduledVlmRequest`, `VlmScheduler` — a request, and the scheduler.
* `VlmScheduler.submit`, `VlmScheduler.cancel`, `VlmScheduler.tick` — its methods.
-/

namespace MlxRuntime

/-- `prompt_kwargs`; `ξ` is what is neither of the two entries. -/
structure PromptKwargs (κ ξ : Type) where
  inputs : ξ
  promptCache : Option κ
  allTokens : Option (List Token)

/-- What `_vlm_apc_cache_key` returns. -/
structure ApcCacheKey where
  modelId : String
  processorType : String
  templateName : Option String
  adapterIdentity : Option String
  promptTokens : List Token
  imageCacheKey : List String
  apcImageHash : ℤ
  tenantScope : String
  deriving DecidableEq

/-- `MlxVlmEngine`, with whatever its calls depend on; `ι` are the inputs of the model. -/
structure VlmEngine (γ ρ F κ ξ ι : Type) where
  modelId : String
  /-- `type(processor).__name__`. -/
  processorType : String
  /-- `chat_template` of the processor, when it is a string. -/
  chatTemplate : Option String
  adapterName : Option String
  tenantScope : Option String
  /-- The tokenizer of the processor, if it has one. -/
  decode : Option (List Token → Except PyError Text)
  extractChatAndImage : ChatRequest ρ F → γ → Except PyError (List String) × γ
  buildPromptStr : ChatRequest ρ F → ℕ → γ → Except PyError String × γ
  buildPromptTokens : String → γ → Except PyError (List Token) × γ
  validateTokenLimits : ChatRequest ρ F → List Token → Except PyError Unit
  prepareInputs : String → List String → γ → Except PyError ι × γ
  /-- What `get_input_embeddings` answers; it may lack the embeddings. -/
  getInputEmbeddings : ι → γ → Except PyError (Option (PromptKwargs κ ξ)) × γ
  /-- `_image_cache_key`, which reads the files. -/
  imageCacheKey : List String → γ → List String
  /-- `_image_apc_hash`. -/
  imageApcHash : List String → ι → ℤ
  promptSignature : String → List Token → String
  imageDimensions : ι → Option ℕ × Option ℕ

/-- `_vlm_apc_cache_key`. -/
def VlmEngine.apcCacheKey {γ ρ F κ ξ ι : Type} (engine : VlmEngine γ ρ F κ ξ ι)
    (promptTokens : List Token) (imagePaths : List String) (inputs : ι) (library : γ) :
    ApcCacheKey where
  modelId := engine.modelId
  processorType := engine.processorType
  templateName := engine.chatTemplate
  adapterIdentity := engine.adapterName
  promptTokens := promptTokens
  imageCacheKey := engine.imageCacheKey imagePaths library
  apcImageHash := engine.imageApcHash imagePaths inputs
  tenantScope := match engine.tenantScope with
    | none | some "" => "default"
    | some scope => scope

/-- A prompt for the generator. -/
structure VlmInsert (κ ξ : Type) where
  prompt : List Token
  maxTokens : ℤ
  promptKwargs : PromptKwargs κ ξ

/-- The progress of a prompt. -/
structure VlmProgress (κ : Type) where
  uid : ℕ
  promptCache : Option κ
  cachedTokens : ℕ

/-- A response of the generator. -/
structure VlmGeneration (κ : Type) where
  uid : ℕ
  token : Option Token
  text : Text
  finishReason : Option String
  promptCache : Option κ
  allTokens : Option (List Token)
  promptTokens : Option ℕ
  generationTokens : Option ℕ
  completionTokens : Option ℕ

/-- `mlx_vlm.BatchGenerator`; `construct` is given the sampler's settings. -/
structure VlmGenerator (γ F κ ξ : Type) where
  construct : F × F → γ → Except PyError Unit × γ
  next : γ → Except PyError (List (VlmProgress κ) × List (VlmGeneration κ)) × γ
  insert : List (VlmInsert κ ξ) → γ → Except PyError (List ℕ) × γ
  remove : ℕ → γ → Except PyError Unit × γ
  promptCacheNbytes : γ → ℕ

/-- The prompt caches and the vision features, and the budget that they share. -/
structure VlmCaches (ω κ ξ : Type) where
  lookup : List Token → ApcCacheKey → ω → Option (CachedPrompt κ) × ω
  remember : List Token → κ → ApcCacheKey → ω → ω
  /-- `_trim_mlx_prompt_cache`. -/
  trim : κ → ℕ → Option κ
  entries : ω → ℕ
  evictions : ω → ℕ
  visionGet : String → String → ω → Option (PromptKwargs κ ξ) × ω
  visionPut : String → String → PromptKwargs κ ξ → ω → ℕ × ω
  visionEntries : ω → ℕ
  visionEvictions : ω → ℕ
  setActiveBatchBytes : ℕ → ω → ω
  /-- There is an APC manager. -/
  apcManager : Bool

/-- `_ScheduledVlmRequest`. -/
structure ScheduledVlmRequest (ρ F κ ξ : Type) where
  request : ChatRequest ρ F
  stream : Bool
  fullPromptTokens : List Token
  promptTokens : List Token
  prompt : String
  promptKwargs : PromptKwargs κ ξ
  imagePaths : List String
  apcCacheKey : ApcCacheKey
  cachedPrompt : Option (CachedPrompt κ)
  visionFeatureCacheHit : Bool
  visionFeatureCacheBytes : Option ℕ
  imageWidth : Option ℕ
  imageHeight : Option ℕ
  cachedTokens : ℕ := 0
  promptBatchSize : ℕ := 0
  decodeBatchSize : ℕ := 0
  uid : Option ℕ := none
  generatedTokens : List Token := []
  renderedText : Text := []
  stage : Stage := .pending
  cancelledStage : Option Stage := none
  /-- `timing.decode_started_at` is set. -/
  decodeStarted : Bool := false

/-- `VlmContinuousBatchScheduler`, with what its sink was told. -/
structure VlmScheduler (ρ F κ ξ γ ω : Type) where
  pending : List (ChatRequest ρ F) := []
  active : Dict ℕ (ScheduledVlmRequest ρ F κ ξ) := .empty
  preparing : List ρ := []
  cancelledPreparing : List ρ := []
  /-- The generator, as the settings of its sampler. -/
  generator : Option (F × F) := none
  generatorSamplingKey : Option (F × F) := none
  library : γ
  caches : ω
  workerCancellationCount : ℕ := 0
  workerErrorCount : ℕ := 0
  sink : List (SinkEvent ρ) := []

/-- What ends a preparation. -/
inductive PreparationError
  | cancelled
  | raised (e : PyError)

namespace VlmScheduler

variable {ρ F κ ξ ι γ ω : Type}

/-- A method of the scheduler. -/
abbrev Call (ρ F κ ξ γ ω α : Type) := Method PyError (VlmScheduler ρ F κ ξ γ ω) α

variable (engine : VlmEngine γ ρ F κ ξ ι) (gen : VlmGenerator γ F κ ξ)
  (store : VlmCaches ω κ ξ) (config : V1Config)

/-- Tell the sink. -/
def emit (event : SinkEvent ρ) : Call ρ F κ ξ γ ω Unit :=
  .modify fun s => { s with sink := s.sink ++ [event] }

/-- A call of the generator. -/
def generate {α : Type} (f : γ → Except PyError α × γ) : Call ρ F κ ξ γ ω α :=
  .call library (fun g s => { s with library := g }) f

/-- A write to a request that runs. -/
def putJob (uid : ℕ) (job : ScheduledVlmRequest ρ F κ ξ) : Call ρ F κ ξ γ ω Unit :=
  .modify fun s => { s with active := s.active.set uid job }

/-- `set_active_batch_bytes`. -/
def reportActiveBatch : Call ρ F κ ξ γ ω Unit :=
  .modify fun s =>
    let bytes := if s.generator.isSome then gen.promptCacheNbytes s.library else 0
    { s with caches := store.setActiveBatchBytes bytes s.caches }

/-- `close`. -/
def close : Call ρ F κ ξ γ ω Unit :=
  .modify fun s => { s with
    generator := none
    generatorSamplingKey := if s.generator.isSome then none else s.generatorSamplingKey
    caches := store.setActiveBatchBytes 0 s.caches }

/-- `submit`. -/
def submit (request : ChatRequest ρ F) : Call ρ F κ ξ γ ω Bool := do
  if request.model ≠ engine.modelId then
    emit (.error request.requestId "INVALID_REQUEST" (modelMismatch request.model engine.modelId))
    .modify fun s => { s with workerErrorCount := s.workerErrorCount + 1 }
    return false
  else
    .modify fun s => { s with pending := s.pending ++ [request] }
    return true

/-- The response for a request that was not prepared. -/
def unprepared (s : VlmScheduler ρ F κ ξ γ ω) (requestId : ρ) (cancellationStage : Stage) :
    V1Response ρ where
  requestId := requestId
  model := engine.modelId
  text := []
  finishReason := "cancelled"
  promptTokens := 0
  completionTokens := 0
  backend := "vlm"
  modality := "vlm"
  apcMode := if store.apcManager then "apc_manager" else "disabled"
  schedulerStage := .cancelled
  cancellationStage := some cancellationStage
  configuredPromptBatchSize := config.configuredPromptBatchSize
  configuredDecodeBatchSize := config.configuredDecodeBatchSize
  workerCancellationCount := s.workerCancellationCount
  workerErrorCount := s.workerErrorCount

/-- The response for a request that ran. -/
def responseOf (s : VlmScheduler ρ F κ ξ γ ω) (job : ScheduledVlmRequest ρ F κ ξ)
    (finishReason : String) (promptTokens completionTokens : ℕ) : V1Response ρ where
  requestId := job.request.requestId
  model := engine.modelId
  text := job.renderedText
  finishReason := finishReason
  promptTokens := promptTokens
  completionTokens := completionTokens
  backend := "vlm"
  modality := "vlm"
  apcMode := if store.apcManager then "apc_manager" else "disabled"
  schedulerStage := job.stage
  cancellationStage := job.cancelledStage
  promptCacheHit := some (job.cachedPrompt.isSome || decide (0 < job.cachedTokens))
  cachedTokens := match job.cachedPrompt with
    | some cached => some cached.tokens.length
    | none => orNone job.cachedTokens
  promptBatchSize := orNone job.promptBatchSize
  decodeBatchSize := orNone job.decodeBatchSize
  configuredPromptBatchSize := config.configuredPromptBatchSize
  configuredDecodeBatchSize := config.configuredDecodeBatchSize
  workerCancellationCount := s.workerCancellationCount
  workerErrorCount := s.workerErrorCount
  promptCacheEntries := some (store.entries s.caches)
  promptCacheEvictions := some (store.evictions s.caches)
  imageCount := some job.imagePaths.length
  visionFeatureCacheHit := some job.visionFeatureCacheHit
  visionFeatureCacheBytes := job.visionFeatureCacheBytes
  visionFeatureCacheEntries := some (store.visionEntries s.caches)
  visionFeatureCacheEvictions := some (store.visionEvictions s.caches)
  imageWidth := job.imageWidth
  imageHeight := job.imageHeight

/-- A response for a request that ran, as the scheduler is now. -/
def respond (job : ScheduledVlmRequest ρ F κ ξ) (finishReason : String)
    (promptTokens completionTokens : ℕ) : Call ρ F κ ξ γ ω Unit := do
  let s ← .get
  emit (.response (responseOf engine store config s job finishReason promptTokens
    completionTokens))

/-- A response for a request that was not prepared. -/
def respondUnprepared (requestId : ρ) (cancellationStage : Stage) : Call ρ F κ ξ γ ω Unit := do
  let s ← .get
  emit (.response (unprepared engine store config s requestId cancellationStage))

/-- One more cancellation. -/
def countCancellation : Call ρ F κ ξ γ ω Unit :=
  .modify fun s => { s with workerCancellationCount := s.workerCancellationCount + 1 }

/-- `cancel`; the answer is whether a request was cancelled. -/
def cancel [DecidableEq ρ] (requestId : ρ) : Call ρ F κ ξ γ ω Bool := do
  let s ← .get
  match s.pending.find? fun request => request.requestId = requestId with
  | some _ =>
      .modify fun s =>
        { s with pending := s.pending.eraseP fun request => request.requestId = requestId }
      countCancellation
      respondUnprepared engine store config requestId .pending
      return true
  | none =>
      match s.active.entries.find? fun entry => entry.2.request.requestId = requestId with
      | some (uid, job) =>
          .modify fun s => { s with active := s.active.pop uid }
          countCancellation
          respond engine store config
            { job with cancelledStage := some job.stage, stage := .cancelled } "cancelled"
            job.fullPromptTokens.length job.generatedTokens.length
          .when s.generator.isSome (generate (gen.remove uid))
          return true
      | none => do
          .when (requestId ∈ s.preparing) do
            .modify fun s =>
              { s with cancelledPreparing := s.cancelledPreparing ++ [requestId] }
            countCancellation
          return requestId ∈ s.preparing

/-! ## Steps of the generator -/

/-- The progress of a prompt. -/
def acceptProgress (progress : VlmProgress κ) : Call ρ F κ ξ γ ω Unit := do
  let s ← .get
  match s.active.get? progress.uid with
  | none => pure ()
  | some job =>
      putJob progress.uid { job with
        stage := .promptProcessing
        cachedPrompt := job.cachedPrompt.or (progress.promptCache.map fun promptCache =>
          ⟨job.fullPromptTokens, promptCache, 0, .exact⟩)
        cachedTokens := max job.cachedTokens progress.cachedTokens }

/-- A request on a response of the generator, with its token. -/
def ScheduledVlmRequest.decoding (job : ScheduledVlmRequest ρ F κ ξ) (batchSize : ℕ)
    (token : Option Token) : ScheduledVlmRequest ρ F κ ξ :=
  { job with
    stage := if job.decodeStarted then job.stage else .decoding
    decodeStarted := true
    decodeBatchSize := max job.decodeBatchSize batchSize
    generatedTokens := job.generatedTokens ++ token.toList }

/-- The text that a response brings. -/
def deltaText (job : ScheduledVlmRequest ρ F κ ξ) (response : VlmGeneration κ) :
    Except PyError Text :=
  match engine.decode with
  | some decode =>
      if job.generatedTokens ≠ [] then
        (decode job.generatedTokens).map (deltaOf job.renderedText)
      else .ok response.text
  | none => .ok response.text

/-- The text of a response at its end. -/
def finalText (job : ScheduledVlmRequest ρ F κ ξ) (response : VlmGeneration κ) :
    Except PyError Text :=
  let kept := if job.stream ∨ job.renderedText ≠ [] then job.renderedText else response.text
  match engine.decode with
  | some decode => if job.generatedTokens ≠ [] then decode job.generatedTokens else .ok kept
  | none => .ok kept

/-- What `_finish` stores. -/
def rememberPrompt (job : ScheduledVlmRequest ρ F κ ξ) (response : VlmGeneration κ) :
    Call ρ F κ ξ γ ω Unit :=
  match response.promptCache with
  | none => pure ()
  | some promptCache =>
      let sequenceTokens := match response.allTokens with
        | some (token :: tokens) => token :: tokens
        | _ => job.fullPromptTokens ++ job.generatedTokens
      match promptCacheForPromptTokens store.trim promptCache sequenceTokens job.fullPromptTokens with
      | none => pure ()
      | some value =>
          .modify fun s =>
            { s with
              caches := store.remember job.fullPromptTokens value job.apcCacheKey s.caches }

/-- `_finish`. -/
def finish (job : ScheduledVlmRequest ρ F κ ξ) (response : VlmGeneration κ)
    (finishReason : String) : Call ρ F κ ξ γ ω Unit := do
  let rendered ← .ofExcept (finalText engine job response)
  reportActiveBatch gen store
  rememberPrompt store job response
  respond engine store config { job with renderedText := rendered, stage := .completed }
    finishReason (response.promptTokens.getD job.fullPromptTokens.length)
    (response.generationTokens.getD (response.completionTokens.getD job.generatedTokens.length))

/-- The request that runs under `uid` ends. -/
def finishActive (response : VlmGeneration κ) (finishReason : String) :
    Call ρ F κ ξ γ ω Unit := do
  let s ← .get
  match s.active.get? response.uid with
  | none => pure ()
  | some job =>
      finish engine gen store config job response finishReason
      .modify fun s => { s with active := s.active.pop response.uid }

/-- A response of the generator. -/
def acceptResponse (response : VlmGeneration κ) : Call ρ F κ ξ γ ω Unit := do
  let s ← .get
  match s.active.get? response.uid with
  | none => pure ()
  | some job =>
      let job := ScheduledVlmRequest.decoding job s.active.keys.length response.token
      putJob response.uid job
      let delta ← .ofExcept (deltaText engine job response)
      .when (job.stream ∧ delta ≠ []) (emit (.delta job.request.requestId delta))
      putJob response.uid { job with renderedText := job.renderedText ++ delta }
      match response.finishReason with
      | none => pure ()
      | some finishReason => finishActive engine gen store config response finishReason

/-- `_step_generator`. -/
def stepGenerator : Call ρ F κ ξ γ ω Unit := do
  let (prompts, responses) ← generate gen.next
  prompts.forM acceptProgress
  responses.forM (acceptResponse engine gen store config)

/-! ## Preparation and admission -/

/-- A part of a preparation. -/
abbrev Preparing (ρ F κ ξ γ ω α : Type) := Method PreparationError (VlmScheduler ρ F κ ξ γ ω) α

/-- A call of the engine. -/
def prepareCall {α : Type} (f : γ → Except PyError α × γ) : Preparing ρ F κ ξ γ ω α :=
  .call library (fun g s => { s with library := g }) fun g => ((f g).1.mapError .raised, (f g).2)

variable [DecidableEq ρ]

/-- `check_cancelled`; `marked` is what the reader says. -/
def checkCancelled (requestId : ρ) (marked : Bool) : Preparing ρ F κ ξ γ ω Unit := do
  let s ← .get
  .when (requestId ∈ s.cancelledPreparing ∨ marked) (.ofExcept (.error .cancelled))

/-- The embeddings of a request, and what they are stored as. -/
def embed (requestId : ρ) (marked : Bool) (cached : Option (PromptKwargs κ ξ)) (inputs : ι) :
    Preparing ρ F κ ξ γ ω (PromptKwargs κ ξ) :=
  match cached with
  | some kwargs => pure kwargs
  | none => do
      let output ← prepareCall (engine.getInputEmbeddings inputs)
      checkCancelled requestId marked
      .ofExcept (match output with
        | some kwargs => .ok kwargs
        | none => .error (.raised (.runtimeError
            "VLM input embedding output did not include inputs_embeds")))

/-- `_prepare_request`; `marks n` is what the reader says at the `n`th check. -/
def prepareRequest (marks : ℕ → Bool) (request : ChatRequest ρ F) :
    Preparing ρ F κ ξ γ ω (ScheduledVlmRequest ρ F κ ξ) := do
  let id := request.requestId
  checkCancelled id (marks 0)
  let images ← prepareCall (engine.extractChatAndImage request)
  checkCancelled id (marks 1)
  let prompt ← prepareCall (engine.buildPromptStr request images.length)
  let tokens ← prepareCall (engine.buildPromptTokens prompt)
  .ofExcept ((engine.validateTokenLimits request tokens).mapError .raised)
  checkCancelled id (marks 2)
  let inputs ← prepareCall (engine.prepareInputs prompt images)
  checkCancelled id (marks 3)
  let s ← .get
  let key := engine.apcCacheKey tokens images inputs s.library
  let visionKey := "|".intercalate (engine.imageCacheKey images s.library)
  let signature := engine.promptSignature prompt tokens
  let cached ← .call caches (fun w s => { s with caches := w }) fun w =>
    if images ≠ [] then (.ok (store.visionGet visionKey signature w).1,
      (store.visionGet visionKey signature w).2) else (.ok none, w)
  let cachedPrompt ← .call caches (fun w s => { s with caches := w }) fun w =>
    (.ok (store.lookup tokens key w).1, (store.lookup tokens key w).2)
  let kwargs ← embed engine id (marks 4) cached inputs
  let kwargs := { kwargs with
    promptCache := kwargs.promptCache.or (cachedPrompt.map CachedPrompt.promptCache)
    allTokens := kwargs.allTokens.or (cachedPrompt.map CachedPrompt.tokens) }
  let bytes ← .call caches (fun w s => { s with caches := w }) fun w =>
    if images ≠ [] ∧ cached.isNone then (.ok (some (store.visionPut visionKey signature kwargs w).1),
      (store.visionPut visionKey signature kwargs w).2) else (.ok none, w)
  return {
    request := request
    stream := request.stream
    fullPromptTokens := tokens
    promptTokens := tokens
    prompt := prompt
    promptKwargs := kwargs
    imagePaths := images
    apcCacheKey := key
    cachedPrompt := cachedPrompt
    visionFeatureCacheHit := cached.isSome
    visionFeatureCacheBytes := bytes
    imageWidth := (engine.imageDimensions inputs).1
    imageHeight := (engine.imageDimensions inputs).2 }

/-- `_emit_preparing_cancelled`, or the error for what a preparation raised. -/
def endPreparation (requestId : ρ) :
    Except PreparationError (ScheduledVlmRequest ρ F κ ξ) →
      Call ρ F κ ξ γ ω (Option (ScheduledVlmRequest ρ F κ ξ))
  | .ok job => pure (some job)
  | .error .cancelled => do
      respondUnprepared engine store config requestId .promptProcessing
      return none
  | .error (.raised e) => do
      .modify fun s => { s with workerErrorCount := s.workerErrorCount + 1 }
      emit (.error requestId "INVALID_REQUEST" e.message)
      return none

/-- A request is prepared; without a request it has ended. -/
def prepare (marks : ρ → ℕ → Bool) (request : ChatRequest ρ F) :
    Call ρ F κ ξ γ ω (Option (ScheduledVlmRequest ρ F κ ξ)) := do
  let id := request.requestId
  .modify fun s => { s with preparing := id :: s.preparing }
  let result ← .attempt (prepareRequest engine store (marks id) request)
  let job ← endPreparation engine store config id result
  .modify fun s => { s with
    preparing := s.preparing.filter (· ≠ id)
    cancelledPreparing := s.cancelledPreparing.filter (· ≠ id) }
  return job

/-- `_request_sampling_key`. -/
def samplingKey (request : ChatRequest ρ F) : F × F := (request.temperature, request.topP)

/-- The loop of `_admit_pending` over the queue: the requests that are put aside, and the batch. -/
def takeBatch [DecidableEq F] (marks : ρ → ℕ → Bool) :
    List (ChatRequest ρ F) → List (ChatRequest ρ F) → List (ScheduledVlmRequest ρ F κ ξ) →
      Call ρ F κ ξ γ ω (List (ChatRequest ρ F) × List (ScheduledVlmRequest ρ F κ ξ))
  | [], skipped, batch => pure (skipped, batch)
  | request :: rest, skipped, batch => do
      let s ← .get
      if config.decodeConcurrency ≤ s.active.keys.length + batch.length then
        return (skipped, batch)
      else
        .modify fun s => { s with pending := rest }
        if some (samplingKey request) ≠ s.generatorSamplingKey then
          takeBatch marks rest (skipped ++ [request]) batch
        else
          let job ← prepare engine store config marks request
          if config.promptConcurrency ≤ (batch ++ job.toList).length then
            return (skipped, batch ++ job.toList)
          else takeBatch marks rest skipped (batch ++ job.toList)

/-- What the generator is given for a request. -/
def insertOf (job : ScheduledVlmRequest ρ F κ ξ) : VlmInsert κ ξ where
  prompt := match job.cachedPrompt with
    | none => job.promptTokens
    | some cached => job.promptTokens.drop cached.tokens.length
  maxTokens := job.request.maxTokens
  promptKwargs := job.promptKwargs

/-- The requests of a batch run. -/
def activate (batch : List (ScheduledVlmRequest ρ F κ ξ)) (uids : List ℕ) :
    Call ρ F κ ξ γ ω Unit :=
  .modify fun s =>
    { s with
      active := s.active.setAll (fun active uid job =>
        { job with
          uid := some uid
          promptBatchSize := batch.length
          decodeBatchSize := active.keys.length + batch.length
          stage := .promptProcessing }) (batch.zip uids) }

/-- A batch goes to the generator. -/
def insertBatch (batch : List (ScheduledVlmRequest ρ F κ ξ)) : Call ρ F κ ξ γ ω Unit := do
  let uids ← generate (gen.insert (batch.map insertOf))
  match uidsError uids batch.length with
  | some e => .ofExcept (.error e)
  | none =>
      activate batch uids
      reportActiveBatch gen store

/-- A generator for the requests that may be taken; the answer is whether there is one.
`_make_batch_generator` initializes the engine too. -/
def ensureGenerator [DecidableEq F] : Call ρ F κ ξ γ ω Bool := do
  let s ← .get
  -- `_next_sampling_key`
  match s.generator, s.pending.head?.map samplingKey with
  | none, none => return false
  | none, some key => do
      .modify fun s => { s with generatorSamplingKey := some key }
      generate (gen.construct key)
      .modify fun s => { s with generator := some key }
      return true
  | some _, next =>
      if s.generatorSamplingKey = none then
        .modify fun s => { s with generatorSamplingKey := next }
        return true
      else return s.active.keys = [] ∨ next.isSome ∧ next = s.generatorSamplingKey

/-- `_admit_pending`. -/
def admitPending [DecidableEq F] (marks : ρ → ℕ → Bool) : Call ρ F κ ξ γ ω Unit := do
  let s ← .get
  if s.pending = [] ∨ config.decodeConcurrency ≤ s.active.keys.length then pure ()
  else do
    let ready ← ensureGenerator gen
    .when ready do
      let (skipped, batch) ← takeBatch engine store config marks s.pending [] []
      .modify fun s => { s with pending := skipped ++ s.pending }
      if batch = [] then do
        let s ← .get
        .when (s.active.keys = []) (close store)
      else insertBatch gen store batch

/-- `tick`; `marks` is what the reader says while requests are prepared. -/
def tick [DecidableEq F] (marks : ρ → ℕ → Bool) : Call ρ F κ ξ γ ω Unit := do
  let s ← .get
  if s.generator = none ∧ s.pending = [] then pure ()
  else do
    .when (s.active.keys ≠ [] ∧ s.generator.isSome) do
      stepGenerator engine gen store config
      reportActiveBatch gen store
    let s ← .get
    .when (s.generator.isSome ∧ s.active.keys = [] ∧ s.pending = []) (close store)
    admitPending engine gen store config marks

/-- `idle`. -/
def idle (s : VlmScheduler ρ F κ ξ γ ω) : Bool := s.pending.isEmpty && s.active.keys.isEmpty

end VlmScheduler
end MlxRuntime
