import MlxRuntime.Cache.Paged
import MlxRuntime.Interfaces

/-!
# The generation executor

`MlxGenerationExecutor` and its overlap variant: a scheduler's batch is checked
request by request, reserved as a whole, run through the model, and committed or
aborted.  The overlap variant hands the graph to the device after building it and
resolves it later.

What MLX and the model do is outside the repository.  The model is a finite tree of
`append_and_attend` calls: each stages one layer and gets the staged pools, or the
exception, back.  Sampling is a function of the logits.  Every other library call
that may raise is a field of `StepFaults`, the text of what it raises if it does.

## Main definitions

* `ModelCall`, `runModel` — the model and its effect on a reservation.
* `prepare`, `dispatchBatch`, `resolveBatch`, `discardBatch` — the methods.
* `executeBatch`, `executePreparedSerial` — the synchronous paths.
-/

namespace MlxRuntime

variable {ρ κ L : Type}

/-- A model call in progress. -/
inductive ModelCall (κ L : Type)
  /-- The forward pass returns its logits. -/
  | logits (out : L)
  /-- It raises. -/
  | raises (error : PyError)
  /-- A layer's `append_and_attend` stages its keys and values. -/
  | stageLayer (layer : ℕ) (keys values : KVTensor κ)
      (next : Except PyError (PageArray κ × PageArray κ) → ModelCall κ L)

/-- The metadata of one tensor invocation: `ForwardBatch`, with the reservation its
layer contexts share. -/
structure ForwardBatch (κ : Type) where
  forwardMode : ForwardMode
  tokenLengths : List ℕ
  cacheLengths : List ℕ
  attentionMask : Option String
  layerAttention : PagedBatchReservation κ

/-- The model and the sampler. -/
structure MlxModel (κ L : Type) where
  call : (inputIds positions : List (List ℕ)) → ForwardBatch κ → ModelCall κ L
  argmaxAt : L → (index position : ℕ) → Token

/-- What the library calls of one step raise. -/
structure StepFaults where
  /-- `mx.array` of the padded token and position rows. -/
  inputArrays : Option String := none
  /-- `mx.array` in `PagedBatchReservation.__post_init__`. -/
  reservationArrays : Option String := none
  /-- `attention_backend.contexts`. -/
  contexts : Option String := none
  /-- `_sample_last_logits`. -/
  sample : Option String := none
  /-- `mx.async_eval`. -/
  asyncEval : Option String := none
  /-- `mx.eval` of the logits and tokens, and their readback. -/
  eval : Option String := none
  /-- `mx.eval` of the staged arrays inside `commit`. -/
  commitEval : Option String := none
  deriving DecidableEq, Repr

/-- `_BatchLayout`. -/
structure BatchLayout (ρ : Type) where
  requests : List (ExecutionRequest ρ)
  sourceIndices : List ℕ
  requestCaches : List Handle
  tokenLengths : List ℕ
  cacheLengths : List ℕ
  inputIds : List (List ℕ)
  positions : List (List ℕ)
  forwardMode : ForwardMode
  deriving DecidableEq

/-- `PreparedStep`. -/
structure PreparedStep (ρ : Type) where
  batch : ExecutionBatch ρ
  layout : Option (BatchLayout ρ)
  orderedResults : List (Option (StepRequestResult ρ))
  deriving DecidableEq

/-- `PreparedStep.has_work`. -/
def PreparedStep.hasWork (prepared : PreparedStep ρ) : Bool := prepared.layout.isSome

/-- `InFlightStep`: `layout` is the prepared step's, which is there once dispatched. -/
structure InFlightStep (ρ κ : Type) where
  prepared : PreparedStep ρ
  layout : BatchLayout ρ
  reservation : PagedBatchReservation κ
  nextTokens : List Token

/-- A request that passed its checks, with its place in the batch and its cache. -/
structure ValidRequest (ρ : Type) where
  request : ExecutionRequest ρ
  sourceIndex : ℕ
  cache : Handle
  tokenLength : ℕ
  cacheLength : ℕ
  deriving DecidableEq

namespace MlxGenerationExecutor

variable [DecidableEq ρ]

/-! ## Preparing a step -/

/-- `_preflight_cache`. -/
def preflightCache (s : PagedKVCacheBackend ρ κ) (request : ExecutionRequest ρ) :
    Except String Handle :=
  let tokenCount := request.tokenIds.length
  if request.phase = .decode ∧ tokenCount ≠ 1 then .error "decode requires exactly one token"
  else if request.phase = .prefill ∧ tokenCount = 0 then
    .error "prefill requires at least one token"
  else
    match s.get request.cacheHandle request.requestId with
    | .error e => .error e.message
    | .ok cache =>
        let cacheLength := (s.cacheOf cache).size
        if request.phase = .decode ∧ cacheLength = 0 then
          .error "decode requires existing prefill state"
        else if request.positions ≠ (List.range tokenCount).map (cacheLength + ·) then
          .error "positions do not match cache length"
        else .ok cache

/-- `_request_error`. -/
def requestError (s : PagedKVCacheBackend ρ κ) (request : ExecutionRequest ρ)
    (code message : String) : StepRequestResult ρ where
  requestId := request.requestId
  phase := request.phase
  tokenIds := request.tokenIds
  cacheHandle := request.cacheHandle
  cacheLength := s.length request.cacheHandle
  errorCode := some code
  errorMessage := some message

/-- The first loop of `_prepare`: the requests that pass their checks, and the
results of those that do not. -/
def checkRequests (s : PagedKVCacheBackend ρ κ) :
    List (ExecutionRequest ρ × ℕ) → List (Option (StepRequestResult ρ)) →
      List (ValidRequest ρ) × List (Option (StepRequestResult ρ))
  | [], results => ([], results)
  | (request, index) :: rest, results =>
      match preflightCache s request with
      | .error message =>
          checkRequests s rest
            (results.set index
              (some (requestError s request "INVALID_EXECUTION_REQUEST" message)))
      | .ok cache =>
          let (valid, results) := checkRequests s rest results
          (⟨request, index, cache, request.tokenIds.length, (s.cacheOf cache).size⟩ :: valid,
            results)

/-- The second loop: the requests that fit. -/
def keepFitting (s : PagedKVCacheBackend ρ κ) :
    List (ValidRequest ρ × Option String) → List (Option (StepRequestResult ρ)) →
      List (ValidRequest ρ) × List (Option (StepRequestResult ρ))
  | [], results => ([], results)
  | (valid, some message) :: rest, results =>
      keepFitting s rest
        (results.set valid.sourceIndex
          (some (requestError s valid.request "KV_CAPACITY_EXHAUSTED" message)))
  | (valid, none) :: rest, results =>
      let (kept, results) := keepFitting s rest results
      (valid :: kept, results)

/-- The padded token and position rows and the rest of a layout. -/
def buildLayout (valid : List (ValidRequest ρ)) : Except PyError (BatchLayout ρ) :=
  let maxTokens := (valid.map ValidRequest.tokenLength).foldr max 0
  match ForwardMode.fromPhases (valid.map fun v => v.request.phase) with
  | .error e => .error e
  | .ok forwardMode => .ok {
      requests := valid.map ValidRequest.request
      sourceIndices := valid.map ValidRequest.sourceIndex
      requestCaches := valid.map ValidRequest.cache
      tokenLengths := valid.map ValidRequest.tokenLength
      cacheLengths := valid.map ValidRequest.cacheLength
      inputIds := valid.map fun v =>
        v.request.tokenIds ++ List.replicate (maxTokens - v.request.tokenIds.length) 0
      positions := valid.map fun v =>
        v.request.positions ++
          List.replicate (maxTokens - v.request.tokenIds.length) (v.request.positions.getLastD 0)
      forwardMode := forwardMode }

/-- `prepare_batch`, which is `_prepare` with its time taken. -/
def prepareBatch (s : PagedKVCacheBackend ρ κ) (batch : ExecutionBatch ρ)
    (faults : StepFaults) :
    Except PyError (PreparedStep ρ) × PagedKVCacheBackend ρ κ :=
  if batch.requests = [] then
    (.error (.batchExecutionError "INVALID_EXECUTION_BATCH"
      "execution batch must contain at least one request"), s)
  else if ¬ (batch.requests.map ExecutionRequest.requestId).Nodup then
    (.error (.batchExecutionError "INVALID_EXECUTION_BATCH"
      "execution batch contains duplicate request IDs"), s)
  else
    let blank := List.replicate batch.requests.length none
    let (valid, results) := checkRequests s batch.requests.zipIdx blank
    if valid = [] then (.ok ⟨batch, none, results⟩, s)
    else
      match s.preflight (valid.map ValidRequest.cache) (valid.map ValidRequest.tokenLength) with
      | (.error e, s) => (.error e, s)
      | (.ok errors, s) =>
          let (kept, results) := keepFitting s (valid.zip errors) results
          if kept = [] then (.ok ⟨batch, none, results⟩, s)
          else
            match faults.inputArrays with
            | some message => (.error (.external message), s)
            | none =>
                match buildLayout kept with
                | .error e => (.error e, s)
                | .ok layout => (.ok ⟨batch, some layout, results⟩, s)

/-! ## Running a step -/

/-- The effect of a model call on its reservation and the store. -/
def runModel (s : PagedKVCacheBackend ρ κ) (r : PagedBatchReservation κ) :
    ModelCall κ L → Except PyError L × PagedBatchReservation κ × PagedKVCacheBackend ρ κ
  | .logits out => (.ok out, r, s)
  | .raises error => (.error error, r, s)
  | .stageLayer layer keys values next =>
      let (result, r', s') := s.stageLayer r layer keys values
      runModel s' r' (next result)

/-- `reserve_batch` with the arrays its reservation builds: what they raise comes
after the pages are reserved and pinned. -/
def reserve (s : PagedKVCacheBackend ρ κ) (layout : BatchLayout ρ) (faults : StepFaults) :
    Except PyError (PagedBatchReservation κ) × PagedKVCacheBackend ρ κ :=
  match s.reserveBatch layout.requestCaches layout.tokenLengths with
  | (.error e, s) => (.error e, s)
  | (.ok r, s) =>
      match faults.reservationArrays with
      | some message => (.error (.external message), s)
      | none => (.ok r, s)

/-- `_sample_last_logits`: the argmax of each request's last row. -/
def sampleLastLogits (model : MlxModel κ L) (out : L) (tokenLengths : List ℕ) : List Token :=
  tokenLengths.zipIdx.map fun (length, index) => model.argmaxAt out index (length - 1)

/-- The model call and the sampling of `dispatch_batch`, which share one handler. -/
def forward (model : MlxModel κ L) (s : PagedKVCacheBackend ρ κ) (r : PagedBatchReservation κ)
    (layout : BatchLayout ρ) (faults : StepFaults) :
    Except PyError (List Token) × PagedBatchReservation κ × PagedKVCacheBackend ρ κ :=
  let forwardBatch : ForwardBatch κ :=
    ⟨layout.forwardMode, layout.tokenLengths, layout.cacheLengths, some "causal", r⟩
  match runModel s r (model.call layout.inputIds layout.positions forwardBatch) with
  | (.error e, r, s) => (.error e, r, s)
  | (.ok out, r, s) =>
      match faults.sample with
      | some message => (.error (.external message), r, s)
      | none => (.ok (sampleLastLogits model out layout.tokenLengths), r, s)

/-- `reservation.abort()` in a handler that then raises `error`; what `abort` itself
raises replaces it. -/
def abortThen (s : PagedKVCacheBackend ρ κ) (r : PagedBatchReservation κ) (error : PyError) :
    PyError × PagedKVCacheBackend ρ κ :=
  match s.abort r with
  | (.error e, _, s) => (e, s)
  | (.ok (), _, s) => (error, s)

/-- `MlxGenerationExecutor.dispatch_batch`. -/
def dispatchBatch (model : MlxModel κ L) (s : PagedKVCacheBackend ρ κ)
    (prepared : PreparedStep ρ) (faults : StepFaults) :
    Except PyError (InFlightStep ρ κ) × PagedKVCacheBackend ρ κ :=
  match prepared.layout with
  | none => (.error (.batchExecutionError "EMPTY_EXECUTION_STEP" "nothing to dispatch"), s)
  | some layout =>
      match reserve s layout faults with
      | (.error e, s) =>
          (.error (.batchExecutionError "KV_RESERVATION_FAILED" e.message), s)
      | (.ok r, s) =>
          match faults.contexts with
          | some message => (.error (.external message), s)
          | none =>
              match forward model s r layout faults with
              | (.error e, r, s) =>
                  let (e, s) := abortThen s r
                    (.batchExecutionError "MODEL_EXECUTION_FAILED" e.message)
                  (.error e, s)
              | (.ok nextTokens, r, s) => (.ok ⟨prepared, layout, r, nextTokens⟩, s)

/-- The results of the committed requests, written to their places. -/
def orderResults (step : InFlightStep ρ κ) (committedLengths : List ℕ) :
    List (Option (StepRequestResult ρ)) :=
  ((step.layout.sourceIndices.zip step.layout.requests).zip
      (committedLengths.zip step.nextTokens)).foldl
    (fun results x => results.set x.1.1 (some {
      requestId := x.1.2.requestId
      phase := x.1.2.phase
      tokenIds := x.1.2.tokenIds
      cacheHandle := x.1.2.cacheHandle
      cacheLength := x.2.1
      nextTokenId := some x.2.2 }))
    step.prepared.orderedResults

/-- `_require_result` of every place. -/
def requireResults : List (Option (StepRequestResult ρ)) →
    Except PyError (List (StepRequestResult ρ))
  | [] => .ok []
  | none :: _ => .error (.batchExecutionError "INCOMPLETE_EXECUTION_RESULT"
      "executor did not produce a result for every request")
  | some result :: rest => (requireResults rest).map (result :: ·)

/-- `resolve_batch`. -/
def resolveBatch (s : PagedKVCacheBackend ρ κ) (step : InFlightStep ρ κ)
    (faults : StepFaults) : Except PyError (StepResult ρ) × PagedKVCacheBackend ρ κ :=
  match faults.eval with
  | some message =>
      let (e, s) := abortThen s step.reservation
        (.batchExecutionError "MODEL_EXECUTION_FAILED" message)
      (.error e, s)
  | none =>
      match s.commit step.reservation (faults.commitEval.map .external) with
      | (.error e, r, s) =>
          let (e, s) := abortThen s r (.batchExecutionError "CACHE_COMMIT_FAILED" e.message)
          (.error e, s)
      | (.ok lengths, _, s) =>
          ((requireResults (orderResults step lengths)).map fun results =>
            { forwardMode := step.layout.forwardMode
              results := results
              physicalBatchSize := step.layout.requests.length
              modelForwardCount := 1 }, s)

/-- `discard_batch`. -/
def discardBatch (s : PagedKVCacheBackend ρ κ) (step : InFlightStep ρ κ)
    (faults : StepFaults) : Except PyError Unit × PagedKVCacheBackend ρ κ :=
  match s.abort step.reservation with
  | (.error e, _, s) => (.error e, s)
  | (.ok (), _, s) =>
      match faults.eval with
      | some message => (.error (.external message), s)
      | none => (.ok (), s)

/-- `_empty_result`. -/
def emptyResult (prepared : PreparedStep ρ) : Except PyError (StepResult ρ) :=
  match prepared.batch.forwardMode, requireResults prepared.orderedResults with
  | .error e, _ => .error e
  | .ok _, .error e => .error e
  | .ok forwardMode, .ok results => .ok ⟨forwardMode, results, 0, 0⟩

end MlxGenerationExecutor

namespace MlxOverlapGenerationExecutor

open MlxGenerationExecutor

variable [DecidableEq ρ]

/-- `MlxOverlapGenerationExecutor.dispatch_batch`: the graph of the base class, then
`mx.async_eval`. -/
def dispatchBatch (model : MlxModel κ L) (s : PagedKVCacheBackend ρ κ)
    (prepared : PreparedStep ρ) (faults : StepFaults) :
    Except PyError (InFlightStep ρ κ) × PagedKVCacheBackend ρ κ :=
  match MlxGenerationExecutor.dispatchBatch model s prepared faults with
  | (.error e, s) => (.error e, s)
  | (.ok step, s) =>
      match faults.asyncEval with
      | some message => (.error (.external message), s)
      | none => (.ok step, s)

/-- `execute_prepared_serial`. -/
def executePreparedSerial (model : MlxModel κ L) (s : PagedKVCacheBackend ρ κ)
    (prepared : PreparedStep ρ) (faults : StepFaults) :
    Except PyError (StepResult ρ) × PagedKVCacheBackend ρ κ :=
  if prepared.hasWork then
    match MlxGenerationExecutor.dispatchBatch model s prepared faults with
    | (.error e, s) => (.error e, s)
    | (.ok step, s) => resolveBatch s step faults
  else (emptyResult prepared, s)

end MlxOverlapGenerationExecutor

/-- The two executor classes. -/
inductive ExecutorClass
  | serial
  | overlap
  deriving DecidableEq, Repr

namespace ExecutorClass

variable [DecidableEq ρ]

/-- `dispatch_batch` of the class. -/
def dispatchBatch (c : ExecutorClass) (model : MlxModel κ L) (s : PagedKVCacheBackend ρ κ)
    (prepared : PreparedStep ρ) (faults : StepFaults) :
    Except PyError (InFlightStep ρ κ) × PagedKVCacheBackend ρ κ :=
  match c with
  | .serial => MlxGenerationExecutor.dispatchBatch model s prepared faults
  | .overlap => MlxOverlapGenerationExecutor.dispatchBatch model s prepared faults

/-- `execute_prepared`, inherited by both classes. -/
def executePrepared (c : ExecutorClass) (model : MlxModel κ L) (s : PagedKVCacheBackend ρ κ)
    (prepared : PreparedStep ρ) (faults : StepFaults) :
    Except PyError (StepResult ρ) × PagedKVCacheBackend ρ κ :=
  if prepared.hasWork then
    match c.dispatchBatch model s prepared faults with
    | (.error e, s) => (.error e, s)
    | (.ok step, s) => MlxGenerationExecutor.resolveBatch s step faults
  else (MlxGenerationExecutor.emptyResult prepared, s)

/-- `execute_batch`, inherited by both classes. -/
def executeBatch (c : ExecutorClass) (model : MlxModel κ L) (s : PagedKVCacheBackend ρ κ)
    (batch : ExecutionBatch ρ) (faults : StepFaults) :
    Except PyError (StepResult ρ) × PagedKVCacheBackend ρ κ :=
  match MlxGenerationExecutor.prepareBatch s batch faults with
  | (.error e, s) => (.error e, s)
  | (.ok prepared, s) => c.executePrepared model s prepared faults

end ExecutorClass
end MlxRuntime
