import Mathlib.Data.List.Perm.Basic
import MlxRuntime.Gateway.Config
import MlxRuntime.Gateway.Gauges
import MlxRuntime.Lib.Run

/-!
# The metrics that the gateway exposes

`render_prometheus` writes the counters, gauges and histograms of the registry, and after them
the families under labels.  The stores of these hold one text for each series, its name with
its labels; a family shows the texts that begin with its name.  What is exposed is judged by
reading it back as the text format has it.

## Main definitions

* `LabeledRegistry`, `LabeledRegistry.update` — the stores under rendered keys.
* `renderPrometheus` — the text.
* `SeriesStore` — what the updates say, series by series.
* `Exposes` — the text has one sample for each series, of its type, and no other.
* `MetricStep.Renders` — the updates that the text shows.
-/

namespace MlxRuntime

open Exposition

/-! ## The registry -/

/-- `MetricsRegistry`, with its gauges under labels. -/
structure LabeledRegistry extends MetricsRegistry where
  labeledGauges : Dict String UInt64 := .empty

namespace LabeledRegistry

/-- `set_labeled_gauge`. -/
def setLabeledGauge (name : String) (labels : List (String × String)) (value : UInt64)
    (r : LabeledRegistry) : LabeledRegistry :=
  { r with labeledGauges := r.labeledGauges.set (metricKey name labels) value }

def update (r : LabeledRegistry) : LabeledUpdate → LabeledRegistry
  | .increment i => { r with toMetricsRegistry := r.toMetricsRegistry.increment i }
  | .set g => r.setLabeledGauge g.name g.labels g.value

/-- `reset_benchmark_counters`. -/
def resetBenchmarkCounters (r : LabeledRegistry) : LabeledRegistry :=
  { r with toMetricsRegistry :=
      { r.toMetricsRegistry.runAll resetOps with labeledCounters := .empty } }

end LabeledRegistry

/-- A step of the registry. -/
inductive MetricStep
  | event (event : MetricEvent)
  | reset

namespace MetricStep

def run (r : LabeledRegistry) : MetricStep → LabeledRegistry
  | .event e => e.updates.foldl LabeledRegistry.update r
  | .reset => r.resetBenchmarkCounters

end MetricStep

/-! ## The text -/

/-- `Display` of `f64`. -/
structure FloatDisplay (R : Type) where
  display : R → List Char
  display_ne_nil : ∀ x, display x ≠ []
  display_chars : ∀ x, ∀ c ∈ display x, c.isAlphanum ∨ c = '-' ∨ c = '.'

/-- `Histogram`. -/
structure Histogram where
  counts : List UInt64
  sumMs : UInt64
  count : UInt64

/-- `LATENCY_BUCKETS_MS`. -/
def latencyBucketsMs : List ℕ :=
  [1, 5, 10, 25, 50, 100, 250, 500, 1000, 2500, 5000, 10000, 30000, 60000]

/-- What the registry stores besides its counters and its maps. -/
structure StoredMetrics (R : Type) where
  workerUp : Bool
  ttftHistogram : Histogram
  requestLatencyHistogram : Histogram
  promptCacheBytes : UInt64
  activeBatchCacheBytes : UInt64
  promptBatchSize : UInt64
  decodeBatchSize : UInt64
  decodeTokensPerSecond : R
  prefillTokensPerSecond : R
  ipcRoundtripLatencyMs : UInt64
  workerMemoryBytes : UInt64
  kvCacheBytes : UInt64
  vlmImagePreprocessLatencyMs : UInt64
  vlmPromptTemplateLatencyMs : UInt64

variable {R : Type}

/-- The value of a metric without labels. -/
inductive MetricValue (R : Type)
  | int (value : UInt64)
  | float (value : R)

def MetricValue.text (floats : FloatDisplay R) : MetricValue R → List Char
  | .int value => decimal value.toNat
  | .float value => floats.display value

/-- A metric without labels. -/
structure PlainMetric (R : Type) where
  metricType : String
  name : String
  help : String
  value : MetricValue R

def writeCounter (name help : String) (value : UInt64) : PlainMetric R :=
  ⟨"counter", name, help, .int value⟩

def writeGauge (name help : String) (value : UInt64) : PlainMetric R :=
  ⟨"gauge", name, help, .int value⟩

def writeGaugeF64 (name help : String) (value : R) : PlainMetric R :=
  ⟨"gauge", name, help, .float value⟩

def helpLine (name help : String) : List Char :=
  '#' :: ' ' :: ("HELP".toList ++ ' ' :: (name.toList ++ ' ' :: help.toList))

def typeLine (name metricType : String) : List Char :=
  '#' :: ' ' :: ("TYPE".toList ++ ' ' :: (name.toList ++ ' ' :: metricType.toList))

/-- The lines of a metric without labels. -/
def PlainMetric.lines (floats : FloatDisplay R) (m : PlainMetric R) : List (List Char) :=
  [helpLine m.name m.help, typeLine m.name m.metricType,
    m.name.toList ++ ' ' :: m.value.text floats]

/-- A line of a bucket. -/
def bucketLine (name : String) (bucket : List Char) (count : UInt64) : List Char :=
  (name ++ "_bucket").toList ++ '\x7b' :: ("le=\"".toList ++ bucket ++ '"' :: '\x7d' :: ' ' ::
    decimal count.toNat)

/-- `Histogram::render`. -/
def Histogram.render (h : Histogram) (name help : String) : List (List Char) :=
  helpLine name help :: typeLine name "histogram" ::
    ((latencyBucketsMs.zip h.counts).map fun (bucket, count) =>
      bucketLine name (decimal bucket) count) ++
    [bucketLine name "+Inf".toList h.count,
      (name ++ "_sum").toList ++ ' ' :: decimal h.sumMs.toNat,
      (name ++ "_count").toList ++ ' ' :: decimal h.count.toNat]

/-- The line of a series. -/
def seriesLine (series : String × UInt64) : List Char :=
  series.1.toList ++ ' ' :: decimal series.2.toNat

/-- `render_labeled_metrics`. -/
def renderLabeledMetrics (entries : List (String × UInt64)) (metricType : String)
    (families : List (String × String)) : List (List Char) :=
  families.flatMap fun (name, help) =>
    helpLine name help :: typeLine name metricType ::
      (entries.filter fun entry => name.toList.isPrefixOf entry.1.toList).map seriesLine

/-- The metrics before the histograms. -/
def metricsBefore (r : MetricsRegistry) (stored : StoredMetrics R) (queueDepth : UInt64) :
    List (PlainMetric R) :=
  [writeCounter "mlx_requests_total" "Total observed requests." (r.counters .requestsTotal),
    writeGauge "mlx_requests_active" "Current active requests." (r.counters .requestsActive),
    writeCounter "mlx_requests_failed_total" "Total failed requests."
      (r.counters .requestsFailedTotal),
    writeCounter "mlx_requests_cancelled_total" "Total cancelled requests."
      (r.counters .requestsCancelledTotal),
    writeGauge "mlx_queue_depth" "Current queued requests." queueDepth,
    writeCounter "mlx_queue_rejected_total" "Total requests rejected by queue limits."
      (r.counters .queueRejectedTotal),
    writeGauge "mlx_worker_up" "Whether worker is ready." (if stored.workerUp then 1 else 0),
    writeCounter "mlx_worker_restarts_total" "Reserved for worker restarts (not yet wired)."
      (r.counters .workerRestartsTotal)]

/-- The metrics after the histograms. -/
def metricsAfter (r : MetricsRegistry) (stored : StoredMetrics R) : List (PlainMetric R) :=
  [writeCounter "mlx_prompt_tokens_total" "Total prompt tokens observed."
      (r.counters .promptTokensTotal),
    writeCounter "mlx_completion_tokens_total" "Total completion tokens observed."
      (r.counters .completionTokensTotal),
    writeCounter "mlx_prompt_cache_hits_total" "Total prompt cache hits observed."
      (r.counters .promptCacheHitsTotal),
    writeCounter "mlx_prompt_cache_misses_total" "Total prompt cache misses observed."
      (r.counters .promptCacheMissesTotal),
    writeCounter "mlx_prompt_cache_cached_tokens_total" "Total prompt cache tokens reused."
      (r.counters .promptCacheCachedTokensTotal),
    writeGauge "mlx_prompt_cache_bytes" "Latest prompt cache bytes observed."
      stored.promptCacheBytes,
    writeGauge "mlx_active_batch_cache_bytes" "Latest active batch cache bytes observed."
      stored.activeBatchCacheBytes,
    writeGauge "mlx_prompt_batch_size" "Latest prompt batch size observed."
      stored.promptBatchSize,
    writeGauge "mlx_decode_batch_size" "Latest decode batch size observed."
      stored.decodeBatchSize,
    writeGaugeF64 "mlx_decode_tokens_per_second" "Latest decode throughput."
      stored.decodeTokensPerSecond,
    writeGaugeF64 "mlx_prefill_tokens_per_second" "Latest prefill throughput."
      stored.prefillTokensPerSecond,
    writeCounter "mlx_ipc_messages_sent_total" "Total IPC messages sent."
      (r.counters .ipcMessagesSentTotal),
    writeCounter "mlx_ipc_messages_received_total" "Total IPC messages received."
      (r.counters .ipcMessagesReceivedTotal),
    writeGauge "mlx_ipc_roundtrip_latency_ms" "Latest IPC roundtrip latency in milliseconds."
      stored.ipcRoundtripLatencyMs,
    writeGauge "mlx_worker_memory_bytes" "Latest worker memory usage in bytes."
      stored.workerMemoryBytes,
    writeGauge "mlx_kv_cache_bytes" "Latest KV cache usage in bytes." stored.kvCacheBytes,
    writeCounter "mlx_vlm_requests_total" "Total VLM inference requests."
      (r.counters .vlmRequestsTotal),
    writeCounter "mlx_vlm_image_count_total" "Total images processed by VLM."
      (r.counters .vlmImageCountTotal),
    writeGauge "mlx_vlm_image_preprocess_latency_ms"
      "Latest VLM image preprocessing latency in milliseconds."
      stored.vlmImagePreprocessLatencyMs,
    writeGauge "mlx_vlm_prompt_template_latency_ms"
      "Latest VLM prompt/template construction latency in milliseconds."
      stored.vlmPromptTemplateLatencyMs,
    writeCounter "mlx_vlm_load_errors_total" "Total VLM model load errors."
      (r.counters .vlmLoadErrorsTotal)]

/-- `render_prometheus`; `order` is the order in which a map is iterated. -/
def renderPrometheus (floats : FloatDisplay R)
    (order : Dict String UInt64 → List (String × UInt64)) (r : LabeledRegistry)
    (stored : StoredMetrics R) (queueDepth : UInt64) : List Char :=
  unlines <|
    (metricsBefore r.toMetricsRegistry stored queueDepth).flatMap (PlainMetric.lines floats) ++
    stored.ttftHistogram.render "mlx_ttft_ms" "Time to first token in milliseconds." ++
    stored.requestLatencyHistogram.render "mlx_request_latency_ms"
      "Request latency in milliseconds." ++
    (metricsAfter r.toMetricsRegistry stored).flatMap (PlainMetric.lines floats) ++
    renderLabeledMetrics (order r.labeledCounters) "counter" counterFamilies ++
    renderLabeledMetrics (order r.labeledGauges) "gauge" gaugeFamilies

/-! ## What is exposed -/

/-- A series: a name and labels. -/
abbrev Series := String × List (String × String)

/-- The value of every series, from the updates alone. -/
structure SeriesStore where
  counters : Dict Series UInt64 := .empty
  gauges : Dict Series UInt64 := .empty

namespace SeriesStore

def update (s : SeriesStore) : LabeledUpdate → SeriesStore
  | .increment i =>
      let series := (i.name, i.labels)
      { s with counters := s.counters.set series ((s.counters.get? series).getD 0 + i.value) }
  | .set g => { s with gauges := s.gauges.set (g.name, g.labels) g.value }

/-- The abstract step. -/
def run (s : SeriesStore) : MetricStep → SeriesStore
  | .event e => e.updates.foldl update s
  | .reset => { s with counters := .empty }

/-- The series with their types and values. -/
def samples (s : SeriesStore) : List (String × Series × ℕ) :=
  (s.counters.entries.map fun (series, value) => ("counter", series, value.toNat)) ++
    s.gauges.entries.map fun (series, value) => ("gauge", series, value.toNat)

end SeriesStore

/-- A sample under labels, of a family whose type is declared. -/
def labeledSample (sample : Option String × Sample) : Option (String × Series × ℕ) := do
  let metricType ← sample.1
  let value ← Json.natOf sample.2.value.toList
  if sample.2.labels = [] then none
  else return (metricType, (sample.2.name, sample.2.labels), value)

/-- Read back, the text has one sample under labels for each series, with its type and its
value, and no other. -/
def Exposes (text : List Char) (s : SeriesStore) : Prop :=
  ∃ samples, readText text = some samples ∧ (samples.filterMap labeledSample).Perm s.samples

/-- The values of the labels need no escape. -/
def LabeledUpdate.Plain : LabeledUpdate → Prop
  | .increment i => ∀ l ∈ i.labels, Exposition.Plain l.2
  | .set g => ∀ l ∈ g.labels, Exposition.Plain l.2

/-- The updates are of listed families, and the values of their labels need no escape. -/
def MetricStep.Renders : MetricStep → Prop
  | .event e => ∀ u ∈ e.updates, u.Plain ∧ ∀ g, u = .set g → g.name ≠ unlistedGauge
  | .reset => True

/-! ## Lines without labels -/

/-- The text of a value: no blank, no line feed and no brace in front. -/
def NumberText (cs : List Char) : Prop :=
  cs ≠ [] ∧ ∀ c ∈ cs, isBlank c = false ∧ c ≠ '\n' ∧ c ≠ '\x7b'

theorem numberText_of_chars {cs : List Char} (hne : cs ≠ [])
    (h : ∀ c ∈ cs, c.isAlphanum ∨ c = '-' ∨ c = '.') : NumberText cs := by
  refine ⟨hne, fun c hc => ?_⟩
  have hbad : ∀ x : Char, (x.isAlphanum = false ∧ x ≠ '-' ∧ x ≠ '.') → c ≠ x := by
    rintro x ⟨halpha, hminus, hpoint⟩ rfl
    rcases h c hc with hc' | rfl | rfl
    · rw [halpha] at hc'
      cases hc'
    · exact hminus rfl
    · exact hpoint rfl
  have hspace : c ≠ ' ' := hbad ' ' (by decide)
  have htab : c ≠ '\t' := hbad '\t' (by decide)
  exact ⟨by simp [isBlank, hspace, htab], hbad '\n' (by decide), hbad '\x7b' (by decide)⟩

theorem numberText_decimal (n : ℕ) : NumberText (decimal n) := by
  refine numberText_of_chars ?_ fun c hc => .inl ?_
  · obtain ⟨c, cs, heq, -⟩ := Json.head_textNat n
    rw [decimal, heq]
    exact List.cons_ne_nil _ _
  · have hdigit : c.isDigit = true := List.all_eq_true.mp (Json.isDigit_textNat n) c hc
    simp [Char.isAlphanum, hdigit]

theorem numberText_text (floats : FloatDisplay R) (value : MetricValue R) :
    NumberText (value.text floats) := by
  cases value with
  | int value => exact numberText_decimal _
  | float value => exact numberText_of_chars (floats.display_ne_nil value) (floats.display_chars value)

theorem says_help {name help : String} (hname : IsMetric name) (hhelp : '\n' ∉ help.toList) :
    Says (helpLine name help) .comment := by
  refine ⟨?_, readLine_help _⟩
  simp [helpLine, hname.notMem_newline, hhelp]

theorem says_type {name metricType : String} (hname : IsMetric name)
    (htype : IsMetric metricType) : Says (typeLine name metricType) (.typed name metricType) := by
  refine ⟨?_, readLine_type hname htype⟩
  simp [typeLine, hname.notMem_newline, htype.notMem_newline]

theorem says_unlabeled {name : String} {value : List Char} (hname : IsMetric name)
    (hvalue : NumberText value) :
    Says (name.toList ++ ' ' :: value) (.sample ⟨name, [], String.ofList value⟩) := by
  obtain ⟨hne, hchars⟩ := hvalue
  refine ⟨?_, readLine_unlabeled hname hne (fun c hc => (hchars c hc).1) ?_⟩
  · have hvalue : '\n' ∉ value := fun hin => (hchars _ hin).2.1 rfl
    simp [hname.notMem_newline, hvalue]
  · rcases value with _ | ⟨c, cs⟩
    · exact absurd rfl hne
    · intro heq
      exact (hchars c List.mem_cons_self).2.2 (Option.some.inj heq)

/-- The line shows no labels, or its name is not declared. -/
def Bare (declared : List String) : Entry → Prop
  | .comment => True
  | .typed name _ => name ∈ declared
  | .sample sample => sample.labels = [] ∨ sample.name ∉ declared

/-- Lines without a series under labels. -/
def BareLines (declared : List String) (lines : List (List Char)) : Prop :=
  ∃ entries, List.Forall₂ Says lines entries ∧ ∀ entry ∈ entries, Bare declared entry

variable {declared : List String}

theorem BareLines.append {lines lines' : List (List Char)} (h : BareLines declared lines)
    (h' : BareLines declared lines') : BareLines declared (lines ++ lines') := by
  obtain ⟨entries, hsaid, hbare⟩ := h
  obtain ⟨entries', hsaid', hbare'⟩ := h'
  exact ⟨entries ++ entries', List.rel_append hsaid hsaid',
    List.forall_mem_append.mpr ⟨hbare, hbare'⟩⟩

theorem bareLines_cons {line : List Char} {lines : List (List Char)} {entry : Entry}
    (hsaid : Says line entry) (hbare : Bare declared entry) (h : BareLines declared lines) :
    BareLines declared (line :: lines) := by
  obtain ⟨entries, hall, hbares⟩ := h
  exact ⟨entry :: entries, .cons hsaid hall, List.forall_mem_cons.mpr ⟨hbare, hbares⟩⟩

theorem bareLines_nil : BareLines declared [] := ⟨[], .nil, fun _ h => absurd h List.not_mem_nil⟩

theorem bareLines_flatMap {α : Type} {f : α → List (List Char)} {l : List α}
    (h : ∀ a ∈ l, BareLines declared (f a)) : BareLines declared (l.flatMap f) := by
  induction l with
  | nil => exact bareLines_nil
  | cons a l ih =>
    rw [List.flatMap_cons]
    exact (h a List.mem_cons_self).append (ih fun b hb => h b (List.mem_cons_of_mem a hb))

theorem bareLines_plain {m : PlainMetric R} (floats : FloatDisplay R) (hname : IsMetric m.name)
    (hhelp : '\n' ∉ m.help.toList) (htype : IsMetric m.metricType) (hin : m.name ∈ declared) :
    BareLines declared (m.lines floats) := by
  refine bareLines_cons (says_help hname hhelp) trivial ?_
  refine bareLines_cons (says_type hname htype) hin ?_
  exact bareLines_cons (says_unlabeled hname (numberText_text floats m.value)) (.inl rfl)
    bareLines_nil

theorem NumberText.notMem_newline {cs : List Char} (h : NumberText cs) : '\n' ∉ cs :=
  fun hin => (h.2 _ hin).2.1 rfl

theorem says_bucket {name : String} {bucket : List Char} (count : UInt64)
    (hname : IsMetric (name ++ "_bucket"))
    (hbucket : ∀ c ∈ bucket, c ≠ '"' ∧ c ≠ '\\' ∧ c ≠ '\n') :
    Says (bucketLine name bucket count) (.sample ⟨name ++ "_bucket", [("le", String.ofList bucket)],
      String.ofList (decimal count.toNat)⟩) := by
  have hnumber := numberText_decimal count.toNat
  have htext : bucketLine name bucket count =
      plainSample (name ++ "_bucket") [("le", String.ofList bucket)] (decimal count.toNat) := by
    simp [bucketLine, plainSample, plainLabels, plainLabel]
  have hle : IsName isLabelStart isLabelChar "le".toList := by decide
  have hplain : Plain (String.ofList bucket) := by rwa [Plain, String.toList_ofList]
  rw [htext]
  exact says_plain hname (List.forall_mem_singleton.mpr ⟨hle, hplain⟩) hnumber.1
    (fun c hc => (hnumber.2 c hc).1) hnumber.notMem_newline

theorem bareLines_render {h : Histogram} {name help : String} (hname : IsMetric name)
    (hhelp : '\n' ∉ help.toList) (hin : name ∈ declared) (hbucket : IsMetric (name ++ "_bucket"))
    (hnot : name ++ "_bucket" ∉ declared) (hsum : IsMetric (name ++ "_sum"))
    (hcount : IsMetric (name ++ "_count")) : BareLines declared (h.render name help) := by
  have hnumber (n : ℕ) : ∀ c ∈ decimal n, c ≠ '"' ∧ c ≠ '\\' ∧ c ≠ '\n' := by
    intro c hc
    have hdigit : c.isDigit = true := List.all_eq_true.mp (Json.isDigit_textNat n) c hc
    refine ⟨?_, ?_, ?_⟩ <;> rintro rfl <;> exact absurd hdigit (by decide)
  have hbuckets : BareLines declared ((latencyBucketsMs.zip h.counts).map fun (bucket, count) =>
      bucketLine name (decimal bucket) count) := by
    rw [List.map_eq_flatMap]
    exact bareLines_flatMap fun ⟨bucket, count⟩ _ =>
      bareLines_cons (says_bucket count hbucket (hnumber bucket)) (.inr hnot) bareLines_nil
  have hinf : ∀ c ∈ "+Inf".toList, c ≠ '"' ∧ c ≠ '\\' ∧ c ≠ '\n' := by simp
  refine bareLines_cons (says_help hname hhelp) trivial ?_
  refine bareLines_cons (says_type hname (by decide)) hin ?_
  refine hbuckets.append ?_
  refine bareLines_cons (says_bucket h.count hbucket hinf) (.inr hnot) ?_
  refine bareLines_cons (says_unlabeled hsum (numberText_decimal _)) (.inl rfl) ?_
  exact bareLines_cons (says_unlabeled hcount (numberText_decimal _)) (.inl rfl) bareLines_nil

theorem labeledSample_bare {types : List (String × String)} {entries : List Entry}
    (hbare : ∀ entry ∈ entries, Bare declared entry) (htypes : types.map Prod.fst ⊆ declared) :
    (samplesOf types entries).filterMap labeledSample = [] := by
  induction entries generalizing types with
  | nil => rfl
  | cons entry entries ih =>
    obtain ⟨hentry, hentries⟩ := List.forall_mem_cons.mp hbare
    cases entry with
    | comment => exact ih hentries htypes
    | typed name type => exact ih hentries (List.cons_subset.mpr ⟨hentry, htypes⟩)
    | sample sample =>
      rw [samplesOf, List.filterMap_cons, ih hentries htypes]
      have hnone : labeledSample (types.lookup sample.name, sample) = none := by
        rcases hentry with hlabels | hname
        · cases types.lookup sample.name <;> simp [labeledSample, hlabels]
        · have hlookup : types.lookup sample.name = none := by
            refine List.lookup_eq_none_iff.mpr fun p hp => ?_
            have hne : sample.name ≠ p.1 := fun heq =>
              hname (heq ▸ htypes (List.mem_map_of_mem hp))
            simp [hne]
          simp [labeledSample, hlookup]
      rw [hnone]

section Unlabeled
variable {r : MetricsRegistry} {stored : StoredMetrics R} {queueDepth : UInt64}

/-- The names that are declared before the families under labels. -/
def declaredNames (r : MetricsRegistry) (stored : StoredMetrics R) (queueDepth : UInt64) :
    List String :=
  (metricsBefore r stored queueDepth ++ metricsAfter r stored).map PlainMetric.name ++
    ["mlx_ttft_ms", "mlx_request_latency_ms"]

theorem metrics_text : ∀ m ∈ metricsBefore r stored queueDepth ++ metricsAfter r stored,
    IsMetric m.name ∧ '\n' ∉ m.help.toList ∧ IsMetric m.metricType := by
  have hnames : ∃ spellings, Spelled ((metricsBefore r stored queueDepth ++
      metricsAfter r stored).map PlainMetric.name) spellings ∧
      ∀ cs ∈ spellings, IsName isNameStart isNameChar cs := by
    apply Exists.intro
    apply And.intro
    · simp only [metricsBefore, metricsAfter, writeCounter, writeGauge, writeGaugeF64,
        List.cons_append, List.nil_append, List.map_cons, List.map_nil]
      repeat (first | exact .nil | apply Spelled.cons)
    · decide
  have hhelps : ∃ spellings, Spelled ((metricsBefore r stored queueDepth ++
      metricsAfter r stored).map PlainMetric.help) spellings ∧ ∀ cs ∈ spellings, '\n' ∉ cs := by
    apply Exists.intro
    apply And.intro
    · simp only [metricsBefore, metricsAfter, writeCounter, writeGauge, writeGaugeF64,
        List.cons_append, List.nil_append, List.map_cons, List.map_nil]
      repeat (first | exact .nil | apply Spelled.cons)
    · decide
  have htypes : ∀ m ∈ metricsBefore r stored queueDepth ++ metricsAfter r stored,
      m.metricType = "counter" ∨ m.metricType = "gauge" := by
    simp [metricsBefore, metricsAfter, writeCounter, writeGauge, writeGaugeF64]
  obtain ⟨names, hspelled, hname⟩ := hnames
  obtain ⟨helps, hspelled', hhelp⟩ := hhelps
  intro m hm
  refine ⟨hname _ (hspelled.mem (List.mem_map_of_mem hm)),
    hhelp _ (hspelled'.mem (List.mem_map_of_mem hm)), ?_⟩
  rcases htypes m hm with heq | heq <;> rw [heq] <;> decide

theorem bareLines_unlabeled (floats : FloatDisplay R) (r : MetricsRegistry)
    (stored : StoredMetrics R) (queueDepth : UInt64) :
    BareLines (declaredNames r stored queueDepth)
      ((metricsBefore r stored queueDepth).flatMap (PlainMetric.lines floats) ++
        stored.ttftHistogram.render "mlx_ttft_ms" "Time to first token in milliseconds." ++
        stored.requestLatencyHistogram.render "mlx_request_latency_ms"
          "Request latency in milliseconds." ++
        (metricsAfter r stored).flatMap (PlainMetric.lines floats)) := by
  have hplain : ∀ m ∈ metricsBefore r stored queueDepth ++ metricsAfter r stored,
      BareLines (declaredNames r stored queueDepth) (m.lines floats) := by
    intro m hm
    obtain ⟨hname, hhelp, htype⟩ := metrics_text m hm
    exact bareLines_plain floats hname hhelp htype
      (List.mem_append_left _ (List.mem_map_of_mem hm))
  obtain ⟨hbefore, hafter⟩ := List.forall_mem_append.mp hplain
  refine (((bareLines_flatMap hbefore).append ?_).append ?_).append (bareLines_flatMap hafter)
  · refine bareLines_render (by decide) (by decide) (by simp [declaredNames]) (by decide) ?_
      (by decide) (by decide)
    simp [declaredNames, metricsBefore, metricsAfter, writeCounter, writeGauge, writeGaugeF64]
  · refine bareLines_render (by decide) (by decide) (by simp [declaredNames]) (by decide) ?_
      (by decide) (by decide)
    simp [declaredNames, metricsBefore, metricsAfter, writeCounter, writeGauge, writeGaugeF64]

end Unlabeled

/-! ## The families under labels -/

/-- A series of a listed family, whose labels need no escape. -/
def Series.Good (families : List (String × String)) (series : Series) : Prop :=
  Listed families series.1 series.2 ∧ ∀ l ∈ series.2, Exposition.Plain l.2

theorem Series.Good.plainLabel {families : List (String × String)} {series : Series}
    (h : series.Good families) : ∀ l ∈ series.2, PlainLabel l :=
  fun l hl => ⟨h.1.labels.2 l hl, h.2 l hl⟩

/-- A series under the key it has in the store. -/
def keyed (e : Series × UInt64) : String × UInt64 := (metricKey e.1.1 e.1.2, e.2)

theorem toList_plainKey {labels : List (String × String)} (hne : labels ≠ []) (name : String) :
    (metricKey name labels).toList = name.toList ++ '\x7b' :: plainLabels labels := by
  have hlabel (l : String × String) : (renderLabel l).toList = plainLabel l := by
    simp [renderLabel, plainLabel]
  have hlabels : ∀ labels : List (String × String), labels ≠ [] →
      (String.intercalate "," (labels.map renderLabel)).toList ++ ['\x7d'] =
        plainLabels labels := by
    intro labels hne
    fun_induction plainLabels labels with
    | case1 => exact absurd rfl hne
    | case2 label => simp [hlabel]
    | case3 label labels htail ih =>
      have hne' : labels.map renderLabel ≠ [] := by simpa using htail
      rw [List.map_cons, String.intercalate_cons_of_ne_nil hne', ← ih htail]
      simp [hlabel]
  rw [metricKey, if_neg (by simpa using hne)]
  have := hlabels labels hne
  simp [String.toList_append, ← this]

theorem seriesLine_keyed {series : Series} (hne : series.2 ≠ []) (value : UInt64) :
    seriesLine (keyed (series, value)) = plainSample series.1 series.2 (decimal value.toNat) := by
  rw [seriesLine, keyed, toList_plainKey hne]
  simp [plainSample]

/-- What a series says. -/
def seriesEntry (e : Series × UInt64) : Entry :=
  .sample ⟨e.1.1, e.1.2, String.ofList (decimal e.2.toNat)⟩

variable {families : List (String × String)} {metricType : String}
  {stored : List (Series × UInt64)}

theorem says_series {e : Series × UInt64} (hfamilies : families = counterFamilies ∨
    families = gaugeFamilies) (hgood : e.1.Good families) :
    Says (seriesLine (keyed e)) (seriesEntry e) := by
  obtain ⟨f, hf, hname⟩ := List.mem_map.mp hgood.1.family
  have hmetric : IsMetric e.1.1 := hname ▸ (families_text hfamilies f hf).1
  have hnumber := numberText_decimal e.2.toNat
  rw [seriesLine_keyed hgood.1.labels.1]
  exact says_plain hmetric hgood.plainLabel hnumber.1 (fun c hc => (hnumber.2 c hc).1)
    hnumber.notMem_newline

/-- A family shows the series of its name. -/
theorem begins_iff {f : String × String} {e : Series × UInt64}
    (hfamilies : families = counterFamilies ∨ families = gaugeFamilies) (hf : f ∈ families)
    (hgood : e.1.Good families) :
    f.1.toList.isPrefixOf (keyed e).1.toList = true ↔ e.1.1 = f.1 := by
  rw [List.isPrefixOf_iff_prefix, keyed, toList_plainKey hgood.1.labels.1]
  constructor
  · intro hbegins
    have hname : e.1.1.toList <+: e.1.1.toList ++ '\x7b' :: plainLabels e.1.2 :=
      List.prefix_append _ _
    have hin : f.1 ∈ families.map Prod.fst := List.mem_map_of_mem hf
    rcases List.prefix_or_prefix_of_prefix hbegins hname with h | h
    · exact (families_prefixed hfamilies _ hin _ hgood.1.family h).symm
    · exact families_prefixed hfamilies _ hgood.1.family _ hin h
  · intro heq
    rw [heq]
    exact List.prefix_append _ _

/-- What the lines of the families say. -/
def familyEntries (metricType : String) (stored : List (Series × UInt64))
    (families : List (String × String)) : List Entry :=
  families.flatMap fun f => .comment :: .typed f.1 metricType ::
    (stored.filter fun e => e.1.1 = f.1).map seriesEntry

theorem forall₂_flatMap {α β γ : Type} {R : β → γ → Prop} {f : α → List β} {g : α → List γ}
    {l : List α} (h : ∀ a ∈ l, List.Forall₂ R (f a) (g a)) :
    List.Forall₂ R (l.flatMap f) (l.flatMap g) := by
  induction l with
  | nil => exact .nil
  | cons a l ih =>
    rw [List.flatMap_cons, List.flatMap_cons]
    exact List.rel_append (h a List.mem_cons_self) (ih fun b hb => h b (List.mem_cons_of_mem a hb))

theorem says_renderLabeledMetrics (hfamilies : families = counterFamilies ∨
    families = gaugeFamilies) (htype : IsMetric metricType)
    (hgood : ∀ e ∈ stored, e.1.Good families) :
    List.Forall₂ Says (renderLabeledMetrics (stored.map keyed) metricType families)
      (familyEntries metricType stored families) := by
  refine forall₂_flatMap fun f hf => ?_
  obtain ⟨hname, hhelp⟩ := families_text hfamilies f hf
  refine .cons (says_help hname hhelp) (.cons (says_type hname htype) ?_)
  have hfilter : (stored.map keyed).filter (fun entry =>
      f.1.toList.isPrefixOf entry.1.toList) = (stored.filter fun e => e.1.1 = f.1).map keyed := by
    rw [List.filter_map]
    refine congrArg _ (List.filter_congr fun e he => ?_)
    rw [Function.comp_apply, Bool.eq_iff_iff, begins_iff hfamilies hf (hgood e he),
      decide_eq_true_eq]
  rw [hfilter, List.map_map, List.forall₂_map_left_iff, List.forall₂_map_right_iff,
    List.forall₂_same]
  exact fun e he => says_series hfamilies (hgood e (List.mem_filter.mp he).1)

/-- A series with its type and its value. -/
def typedSeries (metricType : String) (e : Series × UInt64) : String × Series × ℕ :=
  (metricType, e.1, e.2.toNat)

/-- The samples of the families are the series, by family. -/
theorem labeledSample_families (types : List (String × String))
    (hgood : ∀ e ∈ stored, e.1.2 ≠ []) :
    (samplesOf types (familyEntries metricType stored families)).filterMap labeledSample =
      families.flatMap fun f =>
        (stored.filter fun e => e.1.1 = f.1).map (typedSeries metricType) := by
  have hseries : ∀ {types : List (String × String)} {name : String} (l : List (Series × UInt64)),
      types.lookup name = some metricType → (∀ e ∈ l, e.1.1 = name ∧ e.1.2 ≠ []) →
      (samplesOf types (l.map seriesEntry)).filterMap labeledSample =
        l.map (typedSeries metricType) ∧ typesAfter types (l.map seriesEntry) = types := by
    intro types name l hlookup hl
    induction l with
    | nil => exact ⟨rfl, rfl⟩
    | cons e l ih =>
      obtain ⟨⟨hname, hlabels⟩, hrest⟩ := List.forall_mem_cons.mp hl
      obtain ⟨hsamples, htypes⟩ := ih hrest
      have hone : labeledSample (types.lookup e.1.1,
          ⟨e.1.1, e.1.2, String.ofList (decimal e.2.toNat)⟩) = some (typedSeries metricType e) := by
        rw [hname, hlookup, ← hname]
        simp [labeledSample, decimal, Json.natOf_textNat, hlabels, typedSeries]
      refine ⟨?_, htypes⟩
      rw [List.map_cons, seriesEntry, samplesOf, List.filterMap_cons, hone, hsamples]
      rfl
  induction families generalizing types with
  | nil => rfl
  | cons f families ih =>
    have hlookup : ((f.1, metricType) :: types).lookup f.1 = some metricType := by simp
    obtain ⟨hsamples, htypes⟩ := hseries (stored.filter fun e => e.1.1 = f.1) hlookup
      fun e he => ⟨by simpa using (List.mem_filter.mp he).2, hgood e (List.mem_filter.mp he).1⟩
    rw [List.flatMap_cons, ← ih ((f.1, metricType) :: types), ← hsamples]
    have hsplit : familyEntries metricType stored (f :: families) =
        .comment :: .typed f.1 metricType :: ((stored.filter fun e => e.1.1 = f.1).map seriesEntry ++
          familyEntries metricType stored families) := by
      simp [familyEntries]
    rw [hsplit, samplesOf, samplesOf, samplesOf_append, List.filterMap_append, htypes]

/-- Sorted into classes, a list is still the same up to order. -/
theorem perm_flatMap_filter {α β : Type} [DecidableEq β] (g : α → β) {keys : List β}
    (hnodup : keys.Nodup) {l : List α} (hmem : ∀ a ∈ l, g a ∈ keys) :
    (keys.flatMap fun k => l.filter fun a => g a = k).Perm l := by
  induction keys generalizing l with
  | nil =>
    rw [List.eq_nil_iff_forall_not_mem.mpr fun a ha => List.not_mem_nil (hmem a ha)]
    exact .refl _
  | cons k keys ih =>
    obtain ⟨hk, hkeys⟩ := List.nodup_cons.mp hnodup
    have hrest : ∀ a ∈ l.filter (fun a => ¬ g a = k), g a ∈ keys := by
      intro a ha
      obtain ⟨hin, hne⟩ := List.mem_filter.mp ha
      exact (List.mem_cons.mp (hmem a hin)).resolve_left (by simpa using hne)
    have hclasses : (keys.flatMap fun k' => l.filter fun a => g a = k') =
        keys.flatMap fun k' => (l.filter fun a => ¬ g a = k).filter fun a => g a = k' := by
      refine List.flatMap_congr fun k' hk' => ?_
      rw [List.filter_filter]
      refine List.filter_congr fun a _ => ?_
      have hne : k' ≠ k := fun heq => hk (heq ▸ hk')
      by_cases hg : g a = k' <;> simp [hg, hne]
    rw [List.flatMap_cons, hclasses]
    refine ((ih hkeys hrest).append_left _).trans ?_
    simpa using List.filter_append_perm (fun a => decide (g a = k)) l

/-! ## The stores -/

/-- The key of a series. -/
def seriesKey (series : Series) : String := metricKey series.1 series.2

/-- Two series with one key are one series. -/
theorem seriesKey_inj (hfamilies : families = counterFamilies ∨ families = gaugeFamilies)
    {series series' : Series} (h : series.Good families) (h' : series'.Good families)
    (heq : seriesKey series = seriesKey series') : series = series' := by
  have hsaid := (says_series (e := (series, 0)) hfamilies h).2
  have hsaid' := (says_series (e := (series', 0)) hfamilies h').2
  have hline : seriesLine (keyed (series, 0)) = seriesLine (keyed (series', 0)) := by
    simp only [keyed]
    exact congrArg (fun key => seriesLine (key, 0)) heq
  rw [hline, hsaid'] at hsaid
  simp only [seriesEntry, Option.some.injEq, Entry.sample.injEq, Sample.mk.injEq, and_true] at hsaid
  exact Prod.ext hsaid.1.symm hsaid.2.symm

/-- The registry holds the series of the updates, each under its key. -/
structure Matches (r : LabeledRegistry) (s : SeriesStore) : Prop where
  counters : s.counters.Renames seriesKey r.labeledCounters
  gauges : s.gauges.Renames seriesKey r.labeledGauges
  goodCounters : ∀ series ∈ s.counters.keys, Series.Good counterFamilies series
  goodGauges : ∀ series ∈ s.gauges.keys, Series.Good gaugeFamilies series

variable {r : LabeledRegistry} {s : SeriesStore}

theorem Matches.update (h : Matches r s) {u : LabeledUpdate} (hlisted : u.Listed)
    (hplain : u.Plain) : Matches (r.update u) (s.update u) := by
  cases u with
  | increment i =>
    have hgood : Series.Good counterFamilies (i.name, i.labels) := ⟨hlisted, hplain⟩
    have hinj : ∀ series ∈ s.counters.keys, seriesKey series = seriesKey (i.name, i.labels) →
        series = (i.name, i.labels) := fun series hs heq =>
      seriesKey_inj (.inl rfl) (h.goodCounters series hs) hgood heq
    have hvalue : r.labeled (metricKey i.name i.labels) =
        (s.counters.get? (i.name, i.labels)).getD 0 := by
      rw [MetricsRegistry.labeled]
      exact congrArg (Option.getD · 0) (h.counters.get? hinj)
    constructor
    · have hset := h.counters.set hinj ((s.counters.get? (i.name, i.labels)).getD 0 + i.value)
      rw [← hvalue] at hset
      simp only [SeriesStore.update, ← hvalue]
      exact hset
    · exact h.gauges
    · intro series hs
      rcases Dict.mem_keys_set.mp hs with rfl | hs
      · exact hgood
      · exact h.goodCounters series hs
    · exact h.goodGauges
  | set g =>
    have hgood : Series.Good gaugeFamilies (g.name, g.labels) := ⟨hlisted, hplain⟩
    have hinj : ∀ series ∈ s.gauges.keys, seriesKey series = seriesKey (g.name, g.labels) →
        series = (g.name, g.labels) := fun series hs heq =>
      seriesKey_inj (.inr rfl) (h.goodGauges series hs) hgood heq
    constructor
    · exact h.counters
    · exact h.gauges.set hinj g.value
    · exact h.goodCounters
    · intro series hs
      rcases Dict.mem_keys_set.mp hs with rfl | hs
      · exact hgood
      · exact h.goodGauges series hs

theorem Matches.step (h : Matches r s) {step : MetricStep} (hstep : step.Renders) :
    Matches (step.run r) (s.run step) := by
  cases step with
  | reset =>
    exact ⟨rfl, h.gauges, fun _ hs => absurd hs List.not_mem_nil, h.goodGauges⟩
  | event e =>
    have hupdates : ∀ u ∈ e.updates, u.Listed ∧ u.Plain := by
      intro u hu
      obtain ⟨hplain, hlisted⟩ := hstep u hu
      rcases updates_listed e u hu with h | ⟨g, rfl, hname⟩
      · exact ⟨h, hplain⟩
      · exact absurd hname (hlisted g rfl)
    simp only [MetricStep.run, SeriesStore.run]
    clear hstep
    generalize e.updates = updates at hupdates ⊢
    induction updates generalizing r s with
    | nil => exact h
    | cons u updates ih =>
      obtain ⟨hu, hrest⟩ := List.forall_mem_cons.mp hupdates
      exact ih (h.update hu.1 hu.2) hrest

theorem Matches.run {steps : List MetricStep} (h : Matches r s)
    (hsteps : ∀ step ∈ steps, step.Renders) :
    Matches (steps.foldl MetricStep.run r) (steps.foldl SeriesStore.run s) := by
  induction steps generalizing r s with
  | nil => exact h
  | cons step steps ih =>
    obtain ⟨hstep, hrest⟩ := List.forall_mem_cons.mp hsteps
    exact ih (h.step hstep) hrest

/-- The samples of a store, however its map is iterated. -/
theorem labeledSample_store {d : Dict Series UInt64} {entries : List (String × UInt64)}
    (hfamilies : families = counterFamilies ∨ families = gaugeFamilies)
    (htype : IsMetric metricType) (hgood : ∀ series ∈ d.keys, Series.Good families series)
    (horder : entries.Perm (d.entries.map keyed)) :
    ∃ said, List.Forall₂ Says (renderLabeledMetrics entries metricType families) said ∧
      ∀ types, ((samplesOf types said).filterMap labeledSample).Perm
        (d.entries.map (typedSeries metricType)) := by
  obtain ⟨stored, rfl, hperm⟩ : ∃ stored : List (Series × UInt64),
      entries = stored.map keyed ∧ stored.Perm d.entries := by
    have hcomp : Relation.Comp (fun l l' => l = l'.map keyed) List.Perm entries d.entries := by
      rw [List.eq_map_comp_perm]
      exact horder
    exact hcomp
  have hstored : ∀ e ∈ stored, e.1.Good families := fun e he =>
    hgood e.1 (Dict.mem_keys.mpr ⟨e.2, hperm.mem_iff.mp he⟩)
  refine ⟨_, says_renderLabeledMetrics hfamilies htype hstored, fun types => ?_⟩
  rw [labeledSample_families types fun e he => (hstored e he).1.labels.1]
  have hclasses := perm_flatMap_filter (fun e : Series × UInt64 => e.1.1)
    (families_nodup hfamilies) fun e he => (hstored e he).1.family
  rw [List.flatMap_map] at hclasses
  have hmap := (hclasses.trans hperm).map (typedSeries metricType)
  rwa [List.map_flatMap] at hmap

theorem Matches.exposes (h : Matches r s) (floats : FloatDisplay R)
    {order : Dict String UInt64 → List (String × UInt64)}
    (horder : ∀ d, (order d).Perm d.entries) (stored : StoredMetrics R) (queueDepth : UInt64) :
    Exposes (renderPrometheus floats order r stored queueDepth) s := by
  have hcounters : (order r.labeledCounters).Perm (s.counters.entries.map keyed) :=
    h.counters ▸ horder r.labeledCounters
  have hgauges : (order r.labeledGauges).Perm (s.gauges.entries.map keyed) :=
    h.gauges ▸ horder r.labeledGauges
  obtain ⟨bare, hbare, hquiet⟩ := bareLines_unlabeled floats r.toMetricsRegistry stored queueDepth
  have hcountertype : IsMetric "counter" := by decide
  have hgaugetype : IsMetric "gauge" := by decide
  obtain ⟨counters, hcounter, hcountersamples⟩ :=
    labeledSample_store (.inl rfl) hcountertype h.goodCounters hcounters
  obtain ⟨gauges, hgauge, hgaugesamples⟩ :=
    labeledSample_store (.inr rfl) hgaugetype h.goodGauges hgauges
  refine ⟨_, readText_unlines (List.rel_append (List.rel_append hbare hcounter) hgauge), ?_⟩
  rw [samplesOf_append, samplesOf_append, List.filterMap_append, List.filterMap_append,
    labeledSample_bare hquiet (List.nil_subset _), List.nil_append]
  exact (hcountersamples _).append (hgaugesamples _)

/-- **Every series is exposed once.** After updates of listed families whose labels need no
escape, in every order of iteration, the text of `render_prometheus` reads back as the series
that the updates stored: each once, with its type, its labels and its value. -/
theorem renderPrometheus_exposes (floats : FloatDisplay R)
    (order : Dict String UInt64 → List (String × UInt64))
    (horder : ∀ d, (order d).Perm d.entries) (steps : List MetricStep)
    (hsteps : ∀ step ∈ steps, step.Renders) (stored : StoredMetrics R) (queueDepth : UInt64) :
    Exposes (renderPrometheus floats order (steps.foldl MetricStep.run {}) stored queueDepth)
      (steps.foldl SeriesStore.run {}) := by
  have hempty : Matches {} {} := ⟨rfl, rfl, fun _ hs => absurd hs List.not_mem_nil,
    fun _ hs => absurd hs List.not_mem_nil⟩
  exact (hempty.run hsteps).exposes floats horder stored queueDepth

/-- Any value is printed as a zero. -/
def FloatDisplay.zero : FloatDisplay Unit where
  display _ := ['0']
  display_ne_nil _ := List.cons_ne_nil _ _
  display_chars _ c hc := by
    obtain rfl := List.mem_singleton.mp hc
    decide

/-- A registry that has stored nothing yet. -/
def StoredMetrics.blank : StoredMetrics Unit where
  workerUp := false
  ttftHistogram := ⟨[], 0, 0⟩
  requestLatencyHistogram := ⟨[], 0, 0⟩
  promptCacheBytes := 0
  activeBatchCacheBytes := 0
  promptBatchSize := 0
  decodeBatchSize := 0
  decodeTokensPerSecond := ()
  prefillTokensPerSecond := ()
  ipcRoundtripLatencyMs := 0
  workerMemoryBytes := 0
  kvCacheBytes := 0
  vlmImagePreprocessLatencyMs := 0
  vlmPromptTemplateLatencyMs := 0

/-- A request has waited three milliseconds. -/
theorem renderPrometheus_exposes_queued :
    Exposes (renderPrometheus .zero Dict.entries
      ([MetricStep.event (.queued true 3)].foldl MetricStep.run {}) .blank 0)
      ([MetricStep.event (.queued true 3)].foldl SeriesStore.run {}) := by
  refine renderPrometheus_exposes .zero Dict.entries (fun _ => .refl _) _ ?_ .blank 0
  intro step hstep
  obtain rfl := List.mem_singleton.mp hstep
  intro u hu
  obtain rfl := List.mem_singleton.mp hu
  constructor
  · change ∀ l ∈ [("backend", "gateway"), ("modality", "vlm"), ("kind", "gateway_queue")],
      Exposition.Plain l.2
    simp [Exposition.Plain]
  · intro g hg
    obtain rfl := LabeledUpdate.set.inj hg
    simp [unlistedGauge]

/-- The name of no family and the name of the unlisted gauge begin with each other. -/
theorem unlistedGauge_apart : ∀ f ∈ gaugeFamilies,
    ¬ f.1.toList <+: unlistedGauge.toList ∧ ¬ unlistedGauge.toList <+: f.1.toList := by
  have hspelled : ∃ cs spellings, unlistedGauge = String.ofList cs ∧
      Spelled (gaugeFamilies.map Prod.fst) spellings ∧
      ∀ cs' ∈ spellings, ¬ cs' <+: cs ∧ ¬ cs <+: cs' := by
    apply Exists.intro
    apply Exists.intro
    apply And.intro
    · exact rfl
    apply And.intro
    · simp only [gaugeFamilies, List.map_cons, List.map_nil]
      repeat (first | exact .nil | apply Spelled.cons)
    · decide
  obtain ⟨cs, spellings, hname, hnames, hapart⟩ := hspelled
  intro f hf
  rw [hname, String.toList_ofList]
  exact hapart _ (hnames.mem (List.mem_map_of_mem hf))

/-- No family shows it. -/
theorem unlistedGauge_notShown {labels : List (String × String)} (hne : labels ≠ [])
    (value : UInt64) : renderLabeledMetrics [(metricKey unlistedGauge labels, value)] "gauge"
      gaugeFamilies = renderLabeledMetrics [] "gauge" gaugeFamilies := by
  refine List.flatMap_congr fun f hf => ?_
  have hnot : ¬ f.1.toList <+: (metricKey unlistedGauge labels).toList := by
    intro hbegins
    rw [toList_plainKey hne] at hbegins
    obtain ⟨hf, hgauge⟩ := unlistedGauge_apart f hf
    rcases List.prefix_or_prefix_of_prefix hbegins (List.prefix_append _ _) with h | h
    · exact hf h
    · exact hgauge h
  have hfilter : [(metricKey unlistedGauge labels, value)].filter (fun entry =>
      f.1.toList.isPrefixOf entry.1.toList) = [] := by
    simpa using hnot
  simp only [hfilter, List.filter_nil]

/-- A response with the number of entries of the prompt cache. -/
def entriesReport : Options responseTable :=
  Options.single (T := responseTable) ⟨34, by decide⟩ (1 : ℤ)

/-- The number of entries that a worker reports is stored and not exposed. -/
theorem cacheEntries_notExposed :
    ¬ ∀ steps : List MetricStep, Exposes (renderPrometheus .zero Dict.entries
      (steps.foldl MetricStep.run {}) .blank 0) (steps.foldl SeriesStore.run {}) := by
  intro h
  have hupdates : (MetricEvent.response entriesReport).updates =
      [.set ⟨unlistedGauge, cacheLabels entriesReport "prompt_kv", 1⟩] := by
    rfl
  have hne : cacheLabels entriesReport "prompt_kv" ≠ [] := List.cons_ne_nil _ _
  have hempty : Matches {} {} := ⟨rfl, rfl, fun _ hs => absurd hs List.not_mem_nil,
    fun _ hs => absurd hs List.not_mem_nil⟩
  obtain ⟨samples, hread, hperm⟩ := h [.event (.response entriesReport)]
  obtain ⟨samples', hread', hperm'⟩ :=
    hempty.exposes .zero (fun d => .refl d.entries) .blank 0
  have htext : renderPrometheus .zero Dict.entries ([MetricStep.event
      (.response entriesReport)].foldl MetricStep.run {}) .blank 0 =
      renderPrometheus .zero Dict.entries {} .blank 0 := by
    rw [List.foldl_cons, List.foldl_nil, MetricStep.run, hupdates]
    exact congrArg (fun lines => unlines (_ ++ lines)) (unlistedGauge_notShown hne 1)
  rw [htext, hread'] at hread
  obtain rfl := Option.some.inj hread
  have hnil : samples'.filterMap labeledSample = [] := List.perm_nil.mp hperm'
  rw [hnil, List.foldl_cons, List.foldl_nil, SeriesStore.run, hupdates] at hperm
  cases List.nil_perm.mp hperm

end MlxRuntime
