import MlxRuntime.Gateway.WorkerTotals
import MlxRuntime.Lib.Exposition

/-!
# The gauges under labels

Besides its counters, a registry stores gauges under rendered labels.  They are set where the
gateway hears from a worker, for each completed chat and for each report of the scheduler, and
where a request leaves the queue of the gateway.

## Main definitions

* `responseGauges`, `schedulerGauges`, `queueGauges` — what is set where.
* `MetricEvent`, `MetricEvent.updates` — the updates of the gateway.
* `counterFamilies`, `gaugeFamilies` — the families that `render_prometheus` lists.
* `updates_listed` — every update is of a listed family, but for one gauge.
-/

namespace MlxRuntime

open Exposition

/-- One value that is stored under labels. -/
structure LabeledGauge where
  name : String
  labels : List (String × String)
  value : UInt64

/-! ## Completed chats -/

section Response
variable (o : Options responseTable)

/-- A field that is stored under its name. -/
def setField (field name : String) (labels : List (String × String)) : List LabeledGauge :=
  ((intField o field).map fun value => ⟨name, labels, value⟩).toList

def setCacheBytes (field family : String) : List LabeledGauge :=
  setField o field "mlx_cache_bytes_by_backend" (cacheLabels o family)

def setCacheEntries (field family : String) : List LabeledGauge :=
  setField o field "mlx_cache_entries_by_backend" (cacheLabels o family)

def setBatchSize (field stage : String) : List LabeledGauge :=
  setField o field "mlx_batch_size_by_backend" (backendLabels o ++ [("stage", stage)])

def setLatency (field kind : String) : List LabeledGauge :=
  setField o field "mlx_latency_by_backend_ms" (backendLabels o ++ [("kind", kind)])

/-- The gauges under labels that `execute_chat` sets for a response. -/
def responseGauges : List LabeledGauge :=
  setField o "image_preprocess_latency_ms" "mlx_vlm_image_preprocess_latency_by_backend_ms"
    (backendLabels o) ++
  setField o "prompt_template_latency_ms" "mlx_vlm_prompt_template_latency_by_backend_ms"
    (backendLabels o) ++
  setCacheBytes o "prompt_cache_bytes" "prompt_kv" ++
  setCacheEntries o "prompt_cache_entries" "prompt_kv" ++
  setCacheBytes o "active_batch_cache_bytes" "active_batch" ++
  setBatchSize o "prompt_batch_size" "prompt" ++
  setBatchSize o "decode_batch_size" "decode" ++
  setBatchSize o "configured_prompt_batch_size" "configured_prompt" ++
  setBatchSize o "configured_decode_batch_size" "configured_decode" ++
  setLatency o "queue_time_ms" "queue" ++
  setLatency o "gateway_queue_wait_ms" "gateway_queue" ++
  setLatency o "scheduler_queue_wait_ms" "scheduler_queue" ++
  setLatency o "prefill_time_ms" "prefill" ++
  setLatency o "ttft_ms" "ttft" ++
  setLatency o "decode_time_ms" "decode" ++
  setLatency o "completion_time_ms" "completion" ++
  setField o "scheduler_tick_latency_ms" "mlx_scheduler_tick_latency_by_backend_ms"
    (backendLabels o) ++
  setLatency o "cancellation_latency_ms" "cancellation" ++
  setField o "arbitration_delay_ms" "mlx_arbitration_delay_by_backend_ms" (backendLabels o) ++
  setCacheBytes o "vision_feature_cache_bytes" "vision_feature" ++
  setCacheEntries o "vision_feature_cache_entries" "vision_feature" ++
  setLatency o "vision_encoder_latency_ms" "vision_encoder" ++
  setLatency o "embedding_latency_ms" "embedding" ++
  setField o "peak_memory_bytes" "mlx_peak_memory_by_backend_bytes" (backendLabels o) ++
  ((textField o "apc_mode").map fun mode =>
    ⟨"mlx_apc_mode_by_backend", backendLabels o ++ [("mode", mode)], 1⟩).toList

end Response

/-! ## Reports of the scheduler -/

namespace SchedulerMetricsEvent
variable (m : SchedulerMetricsEvent)

/-- An integer field. -/
def int (name : String) : Option UInt64 :=
  match (m.optional.json name : Wire) with
  | .int n => some (.ofNat n.toNat)
  | _ => none

/-- A text field. -/
def text (name : String) : Option String :=
  match (m.optional.json name : Wire) with
  | .str s => some s
  | _ => none

/-- `as_deref().unwrap_or("unknown")`. -/
def known (name : String) : String := (m.text name).getD "unknown"

def labels : List (String × String) := [("backend", m.backend), ("modality", m.modality)]

def forwardLabels : List (String × String) :=
  m.labels ++ [("forward_mode", m.known "forward_mode")]

def cacheLabels : List (String × String) :=
  [("backend", m.known "cache_backend"), ("modality", m.modality)]

def prefixLabels : List (String × String) :=
  m.labels ++ [("strategy", m.known "prefix_strategy")]

/-- A field that is stored under its name. -/
def setField (field name : String) (labels : List (String × String)) : List LabeledGauge :=
  ((m.int field).map fun value => ⟨name, labels, value⟩).toList

/-- Fields that are stored under one name, each with its kind. -/
def setKinds (fields : List (String × String)) (name : String)
    (labels : List (String × String)) : List LabeledGauge :=
  fields.flatMap fun (kind, field) => m.setField field name (labels ++ [("kind", kind)])

/-- The gauges that the reader sets for a report of the scheduler. -/
def gauges : List LabeledGauge :=
  [⟨"mlx_batch_size_by_backend", m.labels ++ [("stage", m.phase)], .ofNat m.batchSize.toNat⟩,
    ⟨"mlx_scheduled_tokens_by_backend", m.labels ++ [("phase", m.phase)],
      .ofNat m.scheduledTokens.toNat⟩,
    ⟨"mlx_scheduler_requests_by_backend", m.labels ++ [("state", "waiting")],
      .ofNat m.waitingRequests.toNat⟩,
    ⟨"mlx_scheduler_requests_by_backend", m.labels ++ [("state", "running")],
      .ofNat m.runningRequests.toNat⟩,
    ⟨"mlx_scheduler_tick_latency_by_backend_ms", m.labels,
      .ofNat m.schedulerTickLatencyMs.toNat⟩] ++
  m.setKinds [("select", "scheduler_select_ms"), ("cache_probe", "scheduler_cache_probe_ms"),
    ("cache_acquire", "scheduler_cache_acquire_ms"),
    ("cache_publish", "scheduler_cache_publish_ms"), ("apply", "scheduler_apply_ms"),
    ("scheduler_queue", "scheduler_queue_wait_ms"), ("cancellation", "cancellation_latency_ms")]
    "mlx_scheduler_stage_latency_by_backend_ms"
    (m.labels ++ [("phase", m.phase), ("forward_mode", m.known "forward_mode")]) ++
  ((m.text "scheduling_policy").map fun policy =>
    ⟨"mlx_scheduler_policy_by_backend", m.labels ++ [("policy", policy)], 1⟩).toList ++
  ((m.text "execution_mode").map fun mode =>
    ⟨"mlx_native_execution_mode", m.labels ++ [("mode", mode)], 1⟩).toList ++
  m.setField "physical_batch_size" "mlx_executor_physical_batch_size_by_backend"
    m.forwardLabels ++
  m.setField "model_forward_count" "mlx_executor_model_forward_count_by_backend"
    m.forwardLabels ++
  m.setKinds [("prepare", "executor_prepare_ms"), ("reserve", "executor_reserve_ms"),
    ("forward", "executor_forward_ms"), ("sample", "executor_sample_ms"),
    ("dispatch", "executor_dispatch_ms"), ("eval", "executor_eval_ms"),
    ("commit", "executor_commit_ms")]
    "mlx_executor_stage_latency_by_backend_ms" m.forwardLabels ++
  m.setKinds [("embedding", "model_graph_embedding_ms"),
    ("projection", "model_graph_projection_total_ms"),
    ("attention", "model_graph_attention_ms"), ("mlp", "model_graph_mlp_total_ms"),
    ("norm", "model_graph_norm_ms"), ("lm_head", "model_graph_lm_head_ms"),
    ("layer_total", "model_graph_layer_total_ms")]
    "mlx_model_graph_latency_by_backend_ms" m.forwardLabels ++
  m.setField "model_graph_worst_layer_ms" "mlx_model_graph_worst_layer_by_backend_ms"
    m.forwardLabels ++
  m.setField "model_graph_worst_layer_index" "mlx_model_graph_worst_layer_index_by_backend"
    m.forwardLabels ++
  m.setField "total_pages" "mlx_kv_cache_pages_by_backend"
    (m.cacheLabels ++ [("state", "total")]) ++
  m.setField "used_pages" "mlx_kv_cache_pages_by_backend"
    (m.cacheLabels ++ [("state", "used")]) ++
  m.setField "free_pages" "mlx_kv_cache_pages_by_backend"
    (m.cacheLabels ++ [("state", "free")]) ++
  m.setField "pinned_pages" "mlx_kv_cache_pages_by_backend"
    (m.cacheLabels ++ [("state", "pinned")]) ++
  m.setField "internal_fragmentation_tokens" "mlx_kv_cache_fragmentation_tokens_by_backend"
    m.cacheLabels ++
  m.setField "active_kv_bytes" "mlx_kv_cache_active_bytes_by_backend" m.cacheLabels ++
  m.setField "allocation_failures" "mlx_kv_cache_allocation_failures_by_backend" m.cacheLabels ++
  m.setField "page_size" "mlx_kv_cache_page_size_by_backend" m.cacheLabels ++
  m.setField "attention_time_ms" "mlx_attention_time_by_backend_ms"
    [("backend", m.known "attention_backend"), ("mode", m.known "attention_mode"),
      ("modality", m.modality)] ++
  m.setField "prefix_queries" "mlx_prefix_cache_queries_by_backend" m.prefixLabels ++
  m.setField "prefix_hits" "mlx_prefix_cache_hits_by_backend" m.prefixLabels ++
  m.setField "prefix_misses" "mlx_prefix_cache_misses_by_backend" m.prefixLabels ++
  m.setField "prefix_reused_tokens" "mlx_prefix_cache_reused_tokens_by_backend"
    m.prefixLabels ++
  m.setField "prefix_reused_pages" "mlx_prefix_cache_reused_pages_by_backend" m.prefixLabels ++
  m.setField "prefix_entries" "mlx_prefix_cache_entries_by_backend" m.prefixLabels ++
  m.setField "prefix_bytes" "mlx_prefix_cache_bytes_by_backend" m.prefixLabels ++
  m.setField "prefix_pinned_pages" "mlx_prefix_cache_pinned_pages_by_backend" m.prefixLabels ++
  m.setField "prefix_collisions_rejected" "mlx_prefix_cache_collisions_rejected_by_backend"
    m.prefixLabels ++
  m.setField "prefix_evictions" "mlx_prefix_cache_evictions_by_backend" m.prefixLabels ++
  m.setKinds [("nodes", "radix_nodes"), ("splits", "radix_splits"),
    ("shared_pages", "radix_shared_pages"), ("protected_pages", "radix_protected_pages"),
    ("evictable_pages", "radix_evictable_pages"), ("tree_depth", "radix_tree_depth"),
    ("leaf_evictions", "radix_leaf_evictions")]
    "mlx_radix_cache_by_backend" m.prefixLabels

end SchedulerMetricsEvent

/-! ## The updates of the gateway -/

/-- `record_gateway_queue_wait`. -/
def queueGauges (isVlm : Bool) (queueTimeMs : UInt64) : List LabeledGauge :=
  [⟨"mlx_latency_by_backend_ms", [("backend", "gateway"),
    ("modality", if isVlm then "vlm" else "text"), ("kind", "gateway_queue")], queueTimeMs⟩]

/-- One update of a metric under labels. -/
inductive LabeledUpdate
  | increment (i : LabeledIncrement)
  | set (g : LabeledGauge)

/-- What makes the gateway update metrics under labels. -/
inductive MetricEvent
  /-- A chat completion arrives at `execute_chat`. -/
  | response (o : Options responseTable)
  /-- A report of the scheduler arrives at the reader. -/
  | scheduler (m : SchedulerMetricsEvent)
  /-- A request leaves the queue of the gateway. -/
  | queued (isVlm : Bool) (queueTimeMs : UInt64)

/-- The updates; those of counters and those of gauges are independent. -/
def MetricEvent.updates : MetricEvent → List LabeledUpdate
  | .response o => (responseIncrements o).map .increment ++ (responseGauges o).map .set
  | .scheduler m => m.gauges.map .set
  | .queued isVlm queueTimeMs => (queueGauges isVlm queueTimeMs).map .set

/-! ## The families that are rendered -/

/-- The counters under labels, with their help texts. -/
def counterFamilies : List (String × String) :=
  [("mlx_requests_by_backend_stage_total", "Total requests by backend and scheduler stage."),
    ("mlx_cache_hits_by_backend_total", "Total cache hits by backend and cache family."),
    ("mlx_cache_misses_by_backend_total", "Total cache misses by backend and cache family."),
    ("mlx_cached_tokens_by_backend_total", "Total cached tokens by backend."),
    ("mlx_cache_evictions_by_backend_total",
      "Total cache evictions by backend and cache family."),
    ("mlx_cache_entries_by_backend", "Latest cache entry counts by backend and cache family."),
    ("mlx_worker_cancellations_by_backend_total",
      "Total worker-side cancellations by backend."),
    ("mlx_worker_errors_by_backend_total", "Total worker-side errors by backend."),
    ("mlx_vlm_image_count_by_backend_total", "Total VLM images processed by backend."),
    ("mlx_vlm_load_errors_by_backend_total", "Total VLM load errors by backend.")]

/-- The gauges under labels, with their help texts. -/
def gaugeFamilies : List (String × String) :=
  [("mlx_batch_size_by_backend", "Latest batch sizes by backend and stage."),
    ("mlx_latency_by_backend_ms", "Latest latency measurements by backend."),
    ("mlx_cache_bytes_by_backend", "Latest cache bytes by backend and cache family."),
    ("mlx_scheduler_tick_latency_by_backend_ms", "Latest scheduler tick latency by backend."),
    ("mlx_scheduler_stage_latency_by_backend_ms",
      "Latest native scheduler host-stage latency by backend."),
    ("mlx_scheduler_requests_by_backend",
      "Latest waiting and running request counts by backend."),
    ("mlx_scheduler_policy_by_backend",
      "Latest native scheduler waiting-queue policy by backend."),
    ("mlx_native_execution_mode", "Startup-selected native execution coordinator."),
    ("mlx_scheduled_tokens_by_backend", "Latest scheduled token counts by backend and phase."),
    ("mlx_arbitration_delay_by_backend_ms", "Latest arbitration delay by backend."),
    ("mlx_executor_physical_batch_size_by_backend",
      "Latest native executor physical batch size by forward mode."),
    ("mlx_executor_model_forward_count_by_backend",
      "Latest native executor physical model invocation count."),
    ("mlx_executor_stage_latency_by_backend_ms",
      "Latest native executor stage latency by forward mode."),
    ("mlx_model_graph_latency_by_backend_ms",
      "Latest native model graph latency by component."),
    ("mlx_model_graph_worst_layer_by_backend_ms",
      "Latest native model graph worst transformer layer latency."),
    ("mlx_model_graph_worst_layer_index_by_backend",
      "Latest native model graph worst transformer layer index."),
    ("mlx_kv_cache_pages_by_backend", "Latest native KV-cache page counts by state."),
    ("mlx_kv_cache_fragmentation_tokens_by_backend",
      "Latest native KV-cache internal fragmentation in tokens."),
    ("mlx_kv_cache_active_bytes_by_backend", "Latest native KV-cache active physical bytes."),
    ("mlx_kv_cache_allocation_failures_by_backend",
      "Latest native KV-cache pre-mutation allocation failures."),
    ("mlx_kv_cache_page_size_by_backend", "Configured native KV-cache page size in tokens."),
    ("mlx_attention_time_by_backend_ms", "Latest native attention backend dispatch latency."),
    ("mlx_prefix_cache_queries_by_backend", "Latest native prefix-cache lookup count."),
    ("mlx_prefix_cache_hits_by_backend", "Latest native prefix-cache hit count."),
    ("mlx_prefix_cache_misses_by_backend", "Latest native prefix-cache miss count."),
    ("mlx_prefix_cache_reused_tokens_by_backend",
      "Latest native prefix-cache reused token count."),
    ("mlx_prefix_cache_reused_pages_by_backend",
      "Latest native prefix-cache reused page count."),
    ("mlx_prefix_cache_entries_by_backend", "Latest native prefix-cache entry count."),
    ("mlx_prefix_cache_bytes_by_backend", "Latest native prefix-cache stored bytes."),
    ("mlx_prefix_cache_pinned_pages_by_backend", "Latest native prefix-cache pinned pages."),
    ("mlx_prefix_cache_collisions_rejected_by_backend",
      "Latest native block-hash collision rejections."),
    ("mlx_prefix_cache_evictions_by_backend", "Latest native prefix-cache eviction count."),
    ("mlx_radix_cache_by_backend", "Latest native radix prefix-cache tree metrics."),
    ("mlx_peak_memory_by_backend_bytes", "Latest peak memory by backend."),
    ("mlx_apc_mode_by_backend", "Latest APC mode by backend."),
    ("mlx_vlm_image_preprocess_latency_by_backend_ms",
      "Latest VLM image preprocessing latency by backend."),
    ("mlx_vlm_prompt_template_latency_by_backend_ms",
      "Latest VLM prompt/template latency by backend.")]

/-- The gauge that is not among `gaugeFamilies`. -/
def unlistedGauge : String := "mlx_cache_entries_by_backend"

/-- Every update carries labels, under names of labels. -/
def Named (labels : List (String × String)) : Prop :=
  labels ≠ [] ∧ ∀ l ∈ labels, IsName isLabelStart isLabelChar l.1.toList

/-- A metric of a listed family, under named labels. -/
structure Listed (families : List (String × String)) (name : String)
    (labels : List (String × String)) : Prop where
  family : name ∈ families.map Prod.fst
  labels : Named labels

theorem Named.concat {labels : List (String × String)} (h : Named labels) {key : String}
    (hkey : IsName isLabelStart isLabelChar key.toList) (value : String) :
    Named (labels ++ [(key, value)]) := by
  refine ⟨by simp, List.forall_mem_append.mpr ⟨h.2, ?_⟩⟩
  rw [List.forall_mem_singleton]
  exact hkey

theorem named_pair {key key' : String} (hkey : IsName isLabelStart isLabelChar key.toList)
    (hkey' : IsName isLabelStart isLabelChar key'.toList) (value value' : String) :
    Named [(key, value), (key', value')] := by
  refine ⟨by simp, List.forall_mem_cons.mpr ⟨hkey, ?_⟩⟩
  rw [List.forall_mem_singleton]
  exact hkey'

/-- The gauge is listed, or it is the one that is not. -/
def LabeledGauge.Shown (g : LabeledGauge) : Prop :=
  Listed gaugeFamilies g.name g.labels ∨ g.name = unlistedGauge

/-! ## Every update is of a listed family -/

section Response
variable {o : Options responseTable} {field name : String} {labels : List (String × String)}

theorem named_backendLabels : Named (backendLabels o) := named_pair (by decide) (by decide) _ _

theorem forall_setField {P : LabeledGauge → Prop} (h : ∀ value, P ⟨name, labels, value⟩) :
    ∀ g ∈ setField o field name labels, P g := by
  intro g hg
  rw [setField, Option.mem_toList, Option.map_eq_some_iff] at hg
  obtain ⟨value, -, rfl⟩ := hg
  exact h value

theorem shown_setField (hfamily : name ∈ gaugeFamilies.map Prod.fst) (hlabels : Named labels) :
    ∀ g ∈ setField o field name labels, g.Shown :=
  forall_setField fun _ => .inl ⟨hfamily, hlabels⟩

theorem shown_setCacheBytes (family : String) : ∀ g ∈ setCacheBytes o field family, g.Shown :=
  shown_setField (by simp [gaugeFamilies]) (named_backendLabels.concat (by decide) family)

theorem shown_setCacheEntries (family : String) :
    ∀ g ∈ setCacheEntries o field family, g.Shown := forall_setField fun _ => .inr rfl

theorem shown_setBatchSize (stage : String) : ∀ g ∈ setBatchSize o field stage, g.Shown :=
  shown_setField (by simp [gaugeFamilies]) (named_backendLabels.concat (by decide) stage)

theorem shown_setLatency (kind : String) : ∀ g ∈ setLatency o field kind, g.Shown :=
  shown_setField (by simp [gaugeFamilies]) (named_backendLabels.concat (by decide) kind)

theorem shown_responseGauges : ∀ g ∈ responseGauges o, g.Shown := by
  unfold responseGauges
  iterate 24 refine List.forall_mem_append.mpr ⟨?_, ?_⟩
  · exact shown_setField (by simp [gaugeFamilies]) named_backendLabels
  · exact shown_setField (by simp [gaugeFamilies]) named_backendLabels
  · exact shown_setCacheBytes _
  · exact shown_setCacheEntries _
  · exact shown_setCacheBytes _
  iterate 4
    · exact shown_setBatchSize _
  iterate 7
    · exact shown_setLatency _
  · exact shown_setField (by simp [gaugeFamilies]) named_backendLabels
  · exact shown_setLatency _
  · exact shown_setField (by simp [gaugeFamilies]) named_backendLabels
  · exact shown_setCacheBytes _
  · exact shown_setCacheEntries _
  · exact shown_setLatency _
  · exact shown_setLatency _
  · exact shown_setField (by simp [gaugeFamilies]) named_backendLabels
  · intro g hg
    rw [Option.mem_toList, Option.map_eq_some_iff] at hg
    obtain ⟨mode, -, rfl⟩ := hg
    exact .inl ⟨by simp [gaugeFamilies], named_backendLabels.concat (by decide) mode⟩

theorem listed_addField (hfamily : name ∈ counterFamilies.map Prod.fst) (hlabels : Named labels) :
    ∀ i ∈ addField o field name labels, Listed counterFamilies i.name i.labels := by
  intro i hi
  rw [addField, Option.mem_toList, Option.map_eq_some_iff] at hi
  obtain ⟨value, -, rfl⟩ := hi
  exact ⟨hfamily, hlabels⟩

theorem listed_addHit (family : String) :
    ∀ i ∈ addHit o field family, Listed counterFamilies i.name i.labels := by
  intro i hi
  rw [addHit, Option.mem_toList, Option.map_eq_some_iff] at hi
  obtain ⟨hit, -, rfl⟩ := hi
  refine ⟨?_, named_backendLabels.concat (by decide) family⟩
  cases hit <;> simp [counterFamilies]

theorem listed_addStage : ∀ i ∈ addStage o field, Listed counterFamilies i.name i.labels := by
  intro i hi
  rw [addStage, Option.mem_toList, Option.map_eq_some_iff] at hi
  obtain ⟨stage, -, rfl⟩ := hi
  exact ⟨by simp [counterFamilies], named_backendLabels.concat (by decide) stage⟩

theorem listed_responseIncrements :
    ∀ i ∈ responseIncrements o, Listed counterFamilies i.name i.labels := by
  unfold responseIncrements
  iterate 9 refine List.forall_mem_append.mpr ⟨?_, ?_⟩
  · exact listed_addField (by simp [counterFamilies]) named_backendLabels
  · exact listed_addHit _
  · exact listed_addField (by simp [counterFamilies]) named_backendLabels
  · exact listed_addField (by simp [counterFamilies]) (named_backendLabels.concat (by decide) _)
  · exact listed_addStage
  · exact listed_addStage
  · exact listed_addField (by simp [counterFamilies]) named_backendLabels
  · exact listed_addField (by simp [counterFamilies]) named_backendLabels
  · exact listed_addHit _
  · exact listed_addField (by simp [counterFamilies]) (named_backendLabels.concat (by decide) _)

end Response

namespace SchedulerMetricsEvent
variable {m : SchedulerMetricsEvent} {field name : String} {labels : List (String × String)}

theorem named_labels : Named m.labels := named_pair (by decide) (by decide) _ _

theorem named_forwardLabels : Named m.forwardLabels := named_labels.concat (by decide) _

theorem named_cacheLabels : Named m.cacheLabels := named_pair (by decide) (by decide) _ _

theorem named_prefixLabels : Named m.prefixLabels := named_labels.concat (by decide) _

theorem shown_setField (hfamily : name ∈ gaugeFamilies.map Prod.fst) (hlabels : Named labels) :
    ∀ g ∈ m.setField field name labels, g.Shown := by
  intro g hg
  rw [setField, Option.mem_toList, Option.map_eq_some_iff] at hg
  obtain ⟨value, -, rfl⟩ := hg
  exact .inl ⟨hfamily, hlabels⟩

theorem shown_setKinds {fields : List (String × String)}
    (hfamily : name ∈ gaugeFamilies.map Prod.fst) (hlabels : Named labels) :
    ∀ g ∈ m.setKinds fields name labels, g.Shown := by
  intro g hg
  obtain ⟨⟨kind, field⟩, -, hin⟩ := List.mem_flatMap.mp hg
  exact shown_setField hfamily (hlabels.concat (by decide) kind) g hin

theorem shown_gauges : ∀ g ∈ m.gauges, g.Shown := by
  have htext {field name key : String} {value : UInt64}
      (hfamily : name ∈ gaugeFamilies.map Prod.fst)
      (hkey : IsName isLabelStart isLabelChar key.toList) :
      ∀ g ∈ ((m.text field).map fun text =>
        (⟨name, m.labels ++ [(key, text)], value⟩ : LabeledGauge)).toList, g.Shown := by
    intro g hg
    rw [Option.mem_toList, Option.map_eq_some_iff] at hg
    obtain ⟨text, -, rfl⟩ := hg
    exact .inl ⟨hfamily, named_labels.concat hkey text⟩
  unfold gauges
  iterate 29 refine List.forall_mem_append.mpr ⟨?_, ?_⟩
  · have hconcat (name : String) (hname : name ∈ gaugeFamilies.map Prod.fst) (key value : String)
        (hkey : IsName isLabelStart isLabelChar key.toList) (n : UInt64) :
        (⟨name, m.labels ++ [(key, value)], n⟩ : LabeledGauge).Shown :=
      .inl ⟨hname, named_labels.concat hkey value⟩
    refine List.forall_mem_cons.mpr ⟨hconcat _ (by simp [gaugeFamilies]) _ _ (by decide) _, ?_⟩
    refine List.forall_mem_cons.mpr ⟨hconcat _ (by simp [gaugeFamilies]) _ _ (by decide) _, ?_⟩
    refine List.forall_mem_cons.mpr ⟨hconcat _ (by simp [gaugeFamilies]) _ _ (by decide) _, ?_⟩
    refine List.forall_mem_cons.mpr ⟨hconcat _ (by simp [gaugeFamilies]) _ _ (by decide) _, ?_⟩
    rw [List.forall_mem_singleton]
    exact .inl ⟨by simp [gaugeFamilies], named_labels⟩
  · have hstage : Named (m.labels ++
        [("phase", m.phase), ("forward_mode", m.known "forward_mode")]) := by
      have hphase : Named (m.labels ++ [("phase", m.phase)]) := named_labels.concat (by decide) _
      have hmode : Named (m.labels ++ [("phase", m.phase)] ++
          [("forward_mode", m.known "forward_mode")]) := hphase.concat (by decide) _
      simpa using hmode
    exact shown_setKinds (by simp [gaugeFamilies]) hstage
  · exact htext (by simp [gaugeFamilies]) (by decide)
  · exact htext (by simp [gaugeFamilies]) (by decide)
  · exact shown_setField (by simp [gaugeFamilies]) named_forwardLabels
  · exact shown_setField (by simp [gaugeFamilies]) named_forwardLabels
  · exact shown_setKinds (by simp [gaugeFamilies]) named_forwardLabels
  · exact shown_setKinds (by simp [gaugeFamilies]) named_forwardLabels
  · exact shown_setField (by simp [gaugeFamilies]) named_forwardLabels
  · exact shown_setField (by simp [gaugeFamilies]) named_forwardLabels
  iterate 4
    · exact shown_setField (by simp [gaugeFamilies]) (named_cacheLabels.concat (by decide) _)
  iterate 4
    · exact shown_setField (by simp [gaugeFamilies]) named_cacheLabels
  · have hmode : Named [("backend", m.known "attention_backend"),
        ("mode", m.known "attention_mode")] := named_pair (by decide) (by decide) _ _
    exact shown_setField (by simp [gaugeFamilies]) (hmode.concat (by decide) m.modality)
  iterate 10
    · exact shown_setField (by simp [gaugeFamilies]) named_prefixLabels
  · exact shown_setKinds (by simp [gaugeFamilies]) named_prefixLabels

end SchedulerMetricsEvent

theorem shown_queueGauges (isVlm : Bool) (queueTimeMs : UInt64) :
    ∀ g ∈ queueGauges isVlm queueTimeMs, g.Shown := by
  intro g hg
  obtain rfl := List.mem_singleton.mp hg
  have hmodality : Named [("backend", "gateway"), ("modality", if isVlm then "vlm" else "text")] :=
    named_pair (by decide) (by decide) _ _
  exact .inl ⟨by simp [gaugeFamilies], hmodality.concat (by decide) "gateway_queue"⟩

/-- The update is of a family that is listed for its type. -/
def LabeledUpdate.Listed : LabeledUpdate → Prop
  | .increment i => MlxRuntime.Listed counterFamilies i.name i.labels
  | .set g => MlxRuntime.Listed gaugeFamilies g.name g.labels

/-- **Every update is of a listed family, but for one gauge.** -/
theorem updates_listed (event : MetricEvent) :
    ∀ u ∈ event.updates, u.Listed ∨ ∃ g, u = .set g ∧ g.name = unlistedGauge := by
  have hset {gauges : List LabeledGauge} (h : ∀ g ∈ gauges, g.Shown) :
      ∀ u ∈ gauges.map LabeledUpdate.set,
        u.Listed ∨ ∃ g, u = .set g ∧ g.name = unlistedGauge := by
    intro u hu
    obtain ⟨g, hg, rfl⟩ := List.mem_map.mp hu
    rcases h g hg with hlisted | hname
    · exact .inl hlisted
    · exact .inr ⟨g, rfl, hname⟩
  cases event with
  | response o =>
    refine List.forall_mem_append.mpr ⟨fun u hu => ?_, hset shown_responseGauges⟩
    obtain ⟨i, hi, rfl⟩ := List.mem_map.mp hu
    exact .inl (listed_responseIncrements i hi)
  | scheduler m => exact hset SchedulerMetricsEvent.shown_gauges
  | queued isVlm queueTimeMs => exact hset (shown_queueGauges isVlm queueTimeMs)

/-! ## The texts of the tables -/

/-- The names and the help texts fit into lines. -/
theorem families_text {families : List (String × String)}
    (h : families = counterFamilies ∨ families = gaugeFamilies) :
    ∀ f ∈ families, IsMetric f.1 ∧ '\n' ∉ f.2.toList := by
  have hnames : ∃ spellings, Spelled ((counterFamilies ++ gaugeFamilies).map Prod.fst) spellings ∧
      ∀ cs ∈ spellings, IsName isNameStart isNameChar cs := by
    apply Exists.intro
    apply And.intro
    · simp only [counterFamilies, gaugeFamilies, List.cons_append, List.nil_append,
        List.map_cons, List.map_nil]
      repeat (first | exact .nil | apply Spelled.cons)
    · decide
  have hhelps : ∃ spellings, Spelled ((counterFamilies ++ gaugeFamilies).map Prod.snd) spellings ∧
      ∀ cs ∈ spellings, '\n' ∉ cs := by
    apply Exists.intro
    apply And.intro
    · simp only [counterFamilies, gaugeFamilies, List.cons_append, List.nil_append,
        List.map_cons, List.map_nil]
      repeat (first | exact .nil | apply Spelled.cons)
    · decide
  obtain ⟨names, hspelled, hname⟩ := hnames
  obtain ⟨helps, hspelled', hhelp⟩ := hhelps
  intro f hf
  have hin : f ∈ counterFamilies ++ gaugeFamilies := by
    rcases h with rfl | rfl
    · exact List.mem_append_left _ hf
    · exact List.mem_append_right _ hf
  exact ⟨hname _ (hspelled.mem (List.mem_map_of_mem hin)),
    hhelp _ (hspelled'.mem (List.mem_map_of_mem hin))⟩

/-- No name of a family begins with another one. -/
theorem families_prefixed {families : List (String × String)}
    (h : families = counterFamilies ∨ families = gaugeFamilies) :
    ∀ name ∈ families.map Prod.fst, ∀ name' ∈ families.map Prod.fst,
      name.toList <+: name'.toList → name = name' := by
  have hspelled : ∃ spellings, Spelled (families.map Prod.fst) spellings ∧
      ∀ cs ∈ spellings, ∀ cs' ∈ spellings, cs <+: cs' → cs = cs' := by
    rcases h with rfl | rfl
    · apply Exists.intro
      apply And.intro
      · simp only [counterFamilies, List.map_cons, List.map_nil]
        repeat (first | exact .nil | apply Spelled.cons)
      · decide
    · apply Exists.intro
      apply And.intro
      · simp only [gaugeFamilies, List.map_cons, List.map_nil]
        repeat (first | exact .nil | apply Spelled.cons)
      · decide
  obtain ⟨spellings, hnames, hunique⟩ := hspelled
  intro name hname name' hname' hbegins
  exact String.toList_inj.mp (hunique _ (hnames.mem hname) _ (hnames.mem hname') hbegins)

theorem families_nodup {families : List (String × String)}
    (h : families = counterFamilies ∨ families = gaugeFamilies) :
    (families.map Prod.fst).Nodup := by
  rcases h with rfl | rfl
  · simp [counterFamilies]
  · simp [gaugeFamilies]

end MlxRuntime
