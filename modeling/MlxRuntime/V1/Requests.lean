import MlxRuntime.Interfaces
import MlxRuntime.Lib.Custody
import MlxRuntime.Protocol.Commands
import MlxRuntime.Runtime.Response

/-!
# What the v1 schedulers share

The scheduler of the text model and that of the VLM take requests, keep what was generated for
them, and tell a sink.  A request has the types of its annotations here.  Times and memory figures
are left out.

## Main definitions

* `ChatRequest`, `CachedPrompt` — a request, and the part of its prompt that is cached.
* `V1Response`, `SinkEvent` — what a scheduler tells.
* `SinkEvent.note` — the same, for the custody of the request.
* `deltaOf`, `uidsError`, `promptCacheForPromptTokens` — the text that a new decode adds, what the
  uids of a batch must be, and the cache of a prompt alone.
-/

namespace MlxRuntime

/-- `ChatCompletionRequest`. -/
structure ChatRequest (ρ F : Type) where
  requestId : ρ
  model : String
  messages : List (ChatMessage F)
  maxTokens : ℤ
  temperature : F
  topP : F
  maxPromptTokens : ℤ
  maxCompletionTokens : ℤ
  maxTotalTokensPerRequest : ℤ
  stop : List String
  stream : Bool

/-- `CacheMatchKind`. -/
inductive CacheMatchKind
  | exact
  | shorterPrefix
  | trimmedLongerPrefix
  deriving DecidableEq, Repr

/-- `CachedPrompt`; `κ` are the prompt caches of the model. -/
structure CachedPrompt (κ : Type) where
  tokens : List Token
  promptCache : κ
  cacheBytes : ℕ
  matchKind : CacheMatchKind
  deriving DecidableEq

/-- The stage of a request. -/
inductive Stage
  | pending
  | promptProcessing
  | decoding
  | completed
  | cancelled
  deriving DecidableEq, Repr

/-- `ChatCompletionResponse`, as the v1 schedulers fill it. -/
structure V1Response (ρ : Type) where
  requestId : ρ
  model : String
  text : Text
  finishReason : String
  promptTokens : ℕ
  completionTokens : ℕ
  backend : String
  modality : String
  apcMode : String
  schedulerStage : Stage
  cancellationStage : Option Stage := none
  promptCacheHit : Option Bool := none
  cachedTokens : Option ℕ := none
  promptCacheBytes : Option ℕ := none
  promptBatchSize : Option ℕ := none
  decodeBatchSize : Option ℕ := none
  configuredPromptBatchSize : ℕ
  configuredDecodeBatchSize : ℕ
  workerCancellationCount : ℕ
  workerErrorCount : ℕ
  promptCacheEntries : Option ℕ := none
  promptCacheEvictions : Option ℕ := none
  imageCount : Option ℕ := none
  visionFeatureCacheHit : Option Bool := none
  visionFeatureCacheBytes : Option ℕ := none
  visionFeatureCacheEntries : Option ℕ := none
  visionFeatureCacheEvictions : Option ℕ := none
  imageWidth : Option ℕ := none
  imageHeight : Option ℕ := none
  deriving DecidableEq

/-- What `BatchEventSink` is told. -/
inductive SinkEvent (ρ : Type)
  | delta (requestId : ρ) (delta : Text)
  | response (r : V1Response ρ)
  | error (requestId : ρ) (code message : String)
  deriving DecidableEq

/-- A delta is progress, anything else the end. -/
def SinkEvent.note {ρ : Type} : SinkEvent ρ → Note ρ
  | .delta requestId _ => .progress requestId
  | .response r => .ended r.requestId
  | .error requestId _ _ => .ended requestId

/-- The message of a `ValueError` for a request to another model. -/
def modelMismatch (requested loaded : String) : String :=
  s!"requested model '{requested}' does not match loaded model '{loaded}'"

/-- What a decode adds to the text that was rendered before. -/
def deltaOf (rendered decoded : Text) : Text :=
  if rendered <+: decoded then decoded.drop rendered.length else decoded

/-- `_prompt_cache_for_prompt_tokens`; `trim` drops the last tokens of a copy, when it can. -/
def promptCacheForPromptTokens {κ : Type} (trim : κ → ℕ → Option κ) (promptCache : κ)
    (sequenceTokens promptTokens : List Token) : Option κ :=
  if sequenceTokens.length < promptTokens.length then none
  else if sequenceTokens.length = promptTokens.length then some promptCache
  else trim promptCache (sequenceTokens.length - promptTokens.length)

/-- The error for what `insert` returned, if there is one. -/
def uidsError (uids : List ℕ) (batch : ℕ) : Option PyError :=
  let count := uids.length
  if count ≠ batch then
    some (.runtimeError s!"batch generator returned {count} UIDs for {batch} requests")
  else if ¬ uids.Nodup then
    some (.runtimeError s!"batch generator returned duplicate UIDs: {uids}")
  else none

theorem uidsError_eq_none {uids : List ℕ} {batch : ℕ} :
    uidsError uids batch = none ↔ uids.length = batch ∧ uids.Nodup := by
  rw [uidsError]
  split
  · exact iff_of_false (by simp) fun h => absurd h.1 ‹_›
  · split
    · exact iff_of_false (by simp) fun h => absurd h.2 ‹_›
    · exact iff_of_true rfl ⟨not_not.mp ‹_›, not_not.mp ‹_›⟩

/-- `value or None`. -/
def orNone (n : ℕ) : Option ℕ := if n = 0 then none else some n

end MlxRuntime
