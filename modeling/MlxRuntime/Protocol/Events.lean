import MlxRuntime.Lib.Options

/-!
# Worker events on the wire

A worker sends its events to the gateway as JSON lines.  The format is written three
times: `encode_event` and `decode_event` in Python, and the derived reader of `WorkerEvent`
in Rust.  Both languages declare the same fields with the same names, so a record has one
type here; each encoder and each decoder has its own list of the optional fields it knows.

Python's `json` is `Json.text` and `Json.parse`.  Rust's reader of JSON text is a package, so
it is a parameter, `SerdeJson`, with what it documents.  No worker puts a number with a
fraction into an event.  `decode_event` keeps a value whatever its type; a line in which a
field has not the type of its annotation is read as an error here, like one without a
required field.

## Main definitions

* `Event`, `encodeEvent`, `decodeEvent` — the Python side.
* `WorkerEvent`, `decodeWorkerEvent` — the Rust side.
-/

namespace MlxRuntime

/-- JSON as the workers write it. -/
abbrev Wire := Json Empty

/-! ## Records -/

/-- The optional fields of `ChatCompletionResponse`. -/
def responseTable : Table :=
  [("image_count", .u32), ("image_preprocess_latency_ms", .u32),
    ("prompt_template_latency_ms", .u32), ("prompt_cache_hit", .bool), ("cached_tokens", .u32),
    ("prompt_cache_bytes", .u64), ("active_batch_cache_bytes", .u64), ("prompt_batch_size", .u32),
    ("decode_batch_size", .u32), ("configured_prompt_batch_size", .u32),
    ("configured_decode_batch_size", .u32), ("backend", .string), ("modality", .string),
    ("apc_mode", .string), ("scheduler_stage", .string), ("cancellation_stage", .string),
    ("queue_time_ms", .u32), ("gateway_queue_wait_ms", .u32), ("scheduler_queue_wait_ms", .u32),
    ("prefill_time_ms", .u32), ("ttft_ms", .u32), ("decode_time_ms", .u32),
    ("completion_time_ms", .u32), ("scheduler_tick_latency_ms", .u32),
    ("cancellation_latency_ms", .u32), ("arbitration_delay_ms", .u32),
    ("worker_cancellation_count", .u32), ("worker_error_count", .u32),
    ("vision_feature_cache_hit", .bool), ("vision_feature_cache_bytes", .u64),
    ("vision_feature_cache_entries", .u32), ("vision_feature_cache_evictions", .u32),
    ("vision_encoder_latency_ms", .u32), ("embedding_latency_ms", .u32),
    ("prompt_cache_entries", .u32), ("prompt_cache_evictions", .u32), ("peak_memory_bytes", .u64),
    ("image_width", .u32), ("image_height", .u32)]

/-- The optional fields of `SchedulerMetricsEvent`. -/
def metricsTable : Table :=
  [("scheduler_select_ms", .u32), ("scheduler_cache_probe_ms", .u32),
    ("scheduler_cache_acquire_ms", .u32), ("scheduler_cache_publish_ms", .u32),
    ("scheduler_apply_ms", .u32), ("scheduler_queue_wait_ms", .u32),
    ("cancellation_latency_ms", .u32), ("scheduling_policy", .string), ("execution_mode", .string),
    ("forward_mode", .string), ("physical_batch_size", .u32), ("model_forward_count", .u32),
    ("cache_backend", .string), ("attention_backend", .string), ("attention_mode", .string),
    ("attention_time_ms", .u32), ("executor_prepare_ms", .u32), ("executor_reserve_ms", .u32),
    ("executor_forward_ms", .u32), ("executor_sample_ms", .u32), ("executor_dispatch_ms", .u32),
    ("executor_eval_ms", .u32), ("executor_commit_ms", .u32), ("model_graph_embedding_ms", .u32),
    ("model_graph_projection_total_ms", .u32), ("model_graph_attention_ms", .u32),
    ("model_graph_mlp_total_ms", .u32), ("model_graph_norm_ms", .u32),
    ("model_graph_lm_head_ms", .u32), ("model_graph_layer_total_ms", .u32),
    ("model_graph_worst_layer_ms", .u32), ("model_graph_worst_layer_index", .u32),
    ("total_pages", .u32), ("used_pages", .u32), ("free_pages", .u32), ("pinned_pages", .u32),
    ("internal_fragmentation_tokens", .u32), ("active_kv_bytes", .u64),
    ("allocation_failures", .u64), ("page_size", .u32), ("prefix_strategy", .string),
    ("prefix_queries", .u64), ("prefix_hits", .u64), ("prefix_misses", .u64),
    ("prefix_reused_tokens", .u64), ("prefix_reused_pages", .u64), ("prefix_entries", .u64),
    ("prefix_bytes", .u64), ("prefix_pinned_pages", .u64), ("prefix_collisions_rejected", .u64),
    ("prefix_evictions", .u64), ("radix_nodes", .u64), ("radix_splits", .u64),
    ("radix_shared_pages", .u64), ("radix_protected_pages", .u64), ("radix_evictable_pages", .u64),
    ("radix_tree_depth", .u64), ("radix_leaf_evictions", .u64)]

/-- `ChatCompletionResponse`. -/
structure ChatCompletionResponse where
  requestId : String
  model : String
  text : String
  finishReason : String
  promptTokens : ℤ
  completionTokens : ℤ
  optional : Options responseTable

/-- `ChatCompletionDelta`. -/
structure ChatCompletionDelta where
  requestId : String
  delta : String

/-- `WorkerCommandError`. -/
structure WorkerCommandError where
  code : String
  requestId : String
  message : String

/-- `SchedulerMetricsEvent`. -/
structure SchedulerMetricsEvent where
  backend : String
  modality : String
  phase : String
  scheduledTokens : ℤ
  batchSize : ℤ
  waitingRequests : ℤ
  runningRequests : ℤ
  schedulerTickLatencyMs : ℤ
  optional : Options metricsTable

/-- `BenchmarkResetState`.  The cache state is a `dict` in Python, any value in Rust. -/
structure BenchmarkResetState (κ : Type) where
  requestId : String
  schedulerIdle : Bool
  cacheState : κ
  modelPreserved : Bool := true
  graphsPreserved : Bool := true

/-- The events of a worker. -/
inductive Event
  | response (event : ChatCompletionResponse)
  | delta (event : ChatCompletionDelta)
  | error (event : WorkerCommandError)
  | metrics (event : SchedulerMetricsEvent)
  | reset (event : BenchmarkResetState (List (String × Wire)))

/-! ## Python -/

/-- The optional fields in the nested object of a chat completion. -/
def nestedNames : List String :=
  ["image_count", "image_preprocess_latency_ms", "prompt_template_latency_ms", "prompt_cache_hit",
    "cached_tokens", "prompt_cache_bytes", "active_batch_cache_bytes", "prompt_batch_size",
    "decode_batch_size", "backend", "scheduler_stage", "cancellation_stage", "queue_time_ms",
    "gateway_queue_wait_ms", "scheduler_queue_wait_ms", "prefill_time_ms", "ttft_ms",
    "decode_time_ms", "completion_time_ms", "cancellation_latency_ms", "vision_feature_cache_hit",
    "vision_feature_cache_bytes", "vision_feature_cache_entries", "vision_feature_cache_evictions",
    "prompt_cache_entries", "prompt_cache_evictions", "peak_memory_bytes", "image_width",
    "image_height", "vision_encoder_latency_ms", "embedding_latency_ms"]

/-- The optional fields that `decode_event` reads from the nested object. -/
def decodedNames : List String :=
  ["image_count", "image_preprocess_latency_ms", "prompt_template_latency_ms", "prompt_cache_hit",
    "cached_tokens", "prompt_cache_bytes", "active_batch_cache_bytes", "prompt_batch_size",
    "decode_batch_size", "backend", "scheduler_stage", "cancellation_stage", "queue_time_ms",
    "gateway_queue_wait_ms", "scheduler_queue_wait_ms", "prefill_time_ms", "ttft_ms",
    "decode_time_ms", "completion_time_ms", "cancellation_latency_ms", "vision_feature_cache_hit",
    "vision_feature_cache_bytes", "vision_encoder_latency_ms", "embedding_latency_ms"]

/-- `str.replace("\n", " ")`. -/
def withoutNewlines (message : String) : String :=
  message.map fun c => if c = '\n' then ' ' else c

/-- The nested object of a chat completion. -/
def ChatCompletionResponse.nested (r : ChatCompletionResponse) : List (String × Wire) :=
  [("request_id", .str r.requestId), ("model", .str r.model), ("text", .str r.text),
    ("finish_reason", .str r.finishReason), ("prompt_tokens", .int r.promptTokens),
    ("completion_tokens", .int r.completionTokens)] ++ r.optional.write nestedNames

/-- `asdict` of the metrics. -/
def SchedulerMetricsEvent.asdict (m : SchedulerMetricsEvent) : List (String × Wire) :=
  [("backend", .str m.backend), ("modality", .str m.modality), ("phase", .str m.phase),
    ("scheduled_tokens", .int m.scheduledTokens), ("batch_size", .int m.batchSize),
    ("waiting_requests", .int m.waitingRequests), ("running_requests", .int m.runningRequests),
    ("scheduler_tick_latency_ms", .int m.schedulerTickLatencyMs)] ++
    m.optional.write (metricsTable.map Prod.fst)

/-- `asdict` of the state after a reset. -/
def BenchmarkResetState.asdict (s : BenchmarkResetState (List (String × Wire))) :
    List (String × Wire) :=
  [("request_id", .str s.requestId), ("scheduler_idle", .bool s.schedulerIdle),
    ("cache_state", .obj s.cacheState), ("model_preserved", .bool s.modelPreserved),
    ("graphs_preserved", .bool s.graphsPreserved)]

/-- The payload of an event. -/
def Event.payload : Event → List (String × Wire)
  | .response r =>
      [("type", .str "chat_completion"), ("response", .obj r.nested)] ++
        r.optional.write (responseTable.map Prod.fst)
  | .delta d =>
      [("type", .str "chat_completion_delta"),
        ("delta", .obj [("request_id", .str d.requestId), ("delta", .str d.delta)])]
  | .error e =>
      [("type", .str "error"), ("code", .str e.code), ("request_id", .str e.requestId),
        ("message", .str (withoutNewlines e.message))]
  | .metrics m => [("type", .str "scheduler_metrics"), ("metrics", .obj m.asdict)]
  | .reset s => [("type", .str "benchmark_reset"), ("state", .obj s.asdict)]

/-- `encode_event`. -/
def encodeEvent (event : Event) : List Char :=
  Json.text .integers (.obj event.payload) ++ ['\n']

/-- A value that must be an object. -/
def asObject : Wire → Option (List (String × Wire))
  | .obj members => some members
  | _ => none

/-- A chat completion as a reader with these names sees it. -/
def readResponse (strict : Bool) (names : List String) (members : List (String × Wire)) :
    Option ChatCompletionResponse := do
  let requestId ← FieldType.string.require strict members "request_id"
  let model ← FieldType.string.require strict members "model"
  let text ← FieldType.string.require strict members "text"
  let finishReason ← FieldType.string.require strict members "finish_reason"
  let promptTokens ← FieldType.u32.require strict members "prompt_tokens"
  let completionTokens ← FieldType.u32.require strict members "completion_tokens"
  let optional ← Options.read strict names (Json.get? members)
  some ⟨requestId, model, text, finishReason, promptTokens, completionTokens, optional⟩

def readDelta (strict : Bool) (members : List (String × Wire)) : Option ChatCompletionDelta := do
  let requestId ← FieldType.string.require strict members "request_id"
  let delta ← FieldType.string.require strict members "delta"
  some ⟨requestId, delta⟩

def readError (strict : Bool) (members : List (String × Wire)) : Option WorkerCommandError := do
  let code ← FieldType.string.require strict members "code"
  let requestId ← FieldType.string.require strict members "request_id"
  let message ← FieldType.string.require strict members "message"
  some ⟨code, requestId, message⟩

/-- The metrics: every reader knows all the fields. -/
def readMetrics (strict : Bool) (members : List (String × Wire)) :
    Option SchedulerMetricsEvent := do
  let backend ← FieldType.string.require strict members "backend"
  let modality ← FieldType.string.require strict members "modality"
  let phase ← FieldType.string.require strict members "phase"
  let scheduledTokens ← FieldType.u32.require strict members "scheduled_tokens"
  let batchSize ← FieldType.u32.require strict members "batch_size"
  let waitingRequests ← FieldType.u32.require strict members "waiting_requests"
  let runningRequests ← FieldType.u32.require strict members "running_requests"
  let schedulerTickLatencyMs ← FieldType.u32.require strict members "scheduler_tick_latency_ms"
  let optional ← Options.read strict (metricsTable.map Prod.fst) (Json.get? members)
  some ⟨backend, modality, phase, scheduledTokens, batchSize, waitingRequests, runningRequests,
    schedulerTickLatencyMs, optional⟩

/-- The state after a reset, `cache` reading the cache state. -/
def readReset {κ : Type} (strict : Bool) (cache : Wire → Option κ)
    (members : List (String × Wire)) : Option (BenchmarkResetState κ) := do
  let requestId ← FieldType.string.require strict members "request_id"
  let schedulerIdle ← FieldType.bool.require strict members "scheduler_idle"
  let cacheState ← cache (← Json.get? members "cache_state")
  let modelPreserved ← FieldType.bool.require strict members "model_preserved"
  let graphsPreserved ← FieldType.bool.require strict members "graphs_preserved"
  some ⟨requestId, schedulerIdle, cacheState, modelPreserved, graphsPreserved⟩

/-- `decode_event`: no value where it raises, and `none` for an unknown type. -/
def decodeEvent (line : List Char) : Option (Option Event) := do
  let payload ← asObject (← Json.parse .integers line)
  match Json.get? payload "type" with
  | some (.str "chat_completion") => do
      let response ← asObject (← Json.get? payload "response")
      (readResponse false decodedNames response).map fun r => some (.response r)
  | some (.str "chat_completion_delta") => do
      let delta ← asObject (← Json.get? payload "delta")
      (readDelta false delta).map fun d => some (.delta d)
  | some (.str "error") => (readError false payload).map fun e => some (.error e)
  | some (.str "scheduler_metrics") => do
      let metrics ← asObject (← Json.get? payload "metrics")
      (readMetrics false metrics).map fun m => some (.metrics m)
  | some (.str "benchmark_reset") => do
      let state ← asObject (← Json.get? payload "state")
      (readReset false asObject state).map fun s => some (.reset s)
  | _ => some none

/-! ## Rust -/

/-- `WorkerEvent`.  A chat completion has the optional fields of its response once more. -/
inductive WorkerEvent
  | schedulerMetrics (metrics : SchedulerMetricsEvent)
  | benchmarkReset (state : BenchmarkResetState Wire)
  | chatCompletionDelta (delta : ChatCompletionDelta)
  | chatCompletion (response : ChatCompletionResponse) (fields : Options responseTable)
  | error (code requestId message : String)

/-- The reader of `serde_json`, `from_str`.  Of the lines that `json.dumps` writes it gives
the value back, up to its recursion limit; integers beyond 64 bits it makes into floats,
and of names that occur twice it keeps one. -/
structure SerdeJson where
  fromStr : List Char → Option Wire
  fromStr_text : ∀ j : Wire, j.Regular →
    fromStr (j.text .integers ++ ['\n']) = if j.depth ≤ 127 then some j else none

/-- An object for a derived reader: none of the names it knows may occur twice. -/
def asStruct (names : List String) (j : Wire) : Option (List (String × Wire)) := do
  let members ← asObject j
  if Json.Once members names then some members else none

/-- The names of `ChatCompletionResponse`. -/
def responseNames : List String :=
  ["request_id", "model", "text", "finish_reason", "prompt_tokens", "completion_tokens"] ++
    responseTable.map Prod.fst

/-- The names of `SchedulerMetricsEvent`. -/
def metricsNames : List String :=
  ["backend", "modality", "phase", "scheduled_tokens", "batch_size", "waiting_requests",
    "running_requests", "scheduler_tick_latency_ms"] ++ metricsTable.map Prod.fst

/-- `decode_worker_event`. -/
def decodeWorkerEvent (serde : SerdeJson) (line : List Char) : Option WorkerEvent := do
  let payload ← asStruct ["type"] (← serde.fromStr line)
  match ← Json.get? payload "type" with
  | .str "scheduler_metrics" => do
      let payload ← asStruct ["metrics"] (.obj payload)
      let metrics ← asStruct metricsNames (← Json.get? payload "metrics")
      (readMetrics true metrics).map .schedulerMetrics
  | .str "benchmark_reset" => do
      let payload ← asStruct ["state"] (.obj payload)
      let state ← asStruct ["request_id", "scheduler_idle", "cache_state", "model_preserved",
        "graphs_preserved"] (← Json.get? payload "state")
      (readReset true some state).map .benchmarkReset
  | .str "chat_completion_delta" => do
      let payload ← asStruct ["delta"] (.obj payload)
      let delta ← asStruct ["request_id", "delta"] (← Json.get? payload "delta")
      (readDelta true delta).map .chatCompletionDelta
  | .str "chat_completion" => do
      let payload ← asStruct ("response" :: responseTable.map Prod.fst) (.obj payload)
      let response ← asStruct responseNames (← Json.get? payload "response")
      let r ← readResponse true (responseTable.map Prod.fst) response
      let fields ← Options.read true (responseTable.map Prod.fst) (Json.get? payload)
      some (.chatCompletion r fields)
  | .str "error" => do
      let payload ← asStruct ["code", "request_id", "message"] (.obj payload)
      let e ← readError true payload
      some (.error e.code e.requestId e.message)
  | _ => none

end MlxRuntime
