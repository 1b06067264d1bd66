import MlxRuntime.Lib.Dict
import Mathlib.Logic.Function.Basic

/-!
# The telemetry of the gateway

`MetricsRegistry` has atomic counters of 64 bits, whose arithmetic wraps, and counters under
rendered labels.  A `RequestTracker` counts one request: it is counted as active when it is
made, and accounted for by the first call of `finish`, or by its drop if there was none.

What `new`, `finish`, `drop` and the reset do to the counters is a list of atomic operations:
a thread alone runs them in order, and several threads interleave them.  Values that are only
stored (the gauges) and everything about time are left out.

## Main definitions

* `MetricOp`, `MetricsRegistry` — the counters.
* `RequestTracker`, `RequestTracker.finish`, `RequestTracker.drop` — the tracker of a request.
* `MetricsRegistry.incrementLabeledCounter` — the counters under labels.
-/

namespace MlxRuntime

/-! ## Counters -/

/-- The atomic counters that a reset clears. -/
inductive Metric
  | requestsTotal
  | requestsActive
  | requestsFailedTotal
  | requestsCancelledTotal
  | queueRejectedTotal
  | workerRestartsTotal
  | promptTokensTotal
  | completionTokensTotal
  | promptCacheHitsTotal
  | promptCacheMissesTotal
  | promptCacheCachedTokensTotal
  | ipcMessagesSentTotal
  | ipcMessagesReceivedTotal
  | vlmRequestsTotal
  | vlmImageCountTotal
  | vlmLoadErrorsTotal
  deriving DecidableEq, Repr

/-- The atomic operations on a counter. -/
inductive MetricOp
  | fetchAdd (metric : Metric) (value : UInt64)
  | fetchSub (metric : Metric) (value : UInt64)
  | store (metric : Metric) (value : UInt64)
  deriving DecidableEq, Repr

/-- `MetricsRegistry`. -/
structure MetricsRegistry where
  counters : Metric → UInt64 := fun _ => 0
  labeledCounters : Dict String UInt64 := .empty

namespace MetricOp

/-- The counter an operation is on. -/
def metric : MetricOp → Metric
  | .fetchAdd m _ | .fetchSub m _ | .store m _ => m

/-- What an operation makes of the value. -/
def apply (value : UInt64) : MetricOp → UInt64
  | .fetchAdd _ v => value + v
  | .fetchSub _ v => value - v
  | .store _ v => v

/-- An atomic operation. -/
def run (r : MetricsRegistry) (op : MetricOp) : MetricsRegistry :=
  { r with counters := Function.update r.counters op.metric (op.apply (r.counters op.metric)) }

@[simp] theorem counters_run_self (r : MetricsRegistry) (op : MetricOp) :
    (op.run r).counters op.metric = op.apply (r.counters op.metric) := by
  simp [run]

theorem counters_run_of_ne {r : MetricsRegistry} {op : MetricOp} {m : Metric}
    (h : op.metric ≠ m) : (op.run r).counters m = r.counters m := by
  simp [run, Function.update_of_ne h.symm]

@[simp] theorem labeledCounters_run (r : MetricsRegistry) (op : MetricOp) :
    (op.run r).labeledCounters = r.labeledCounters := rfl

end MetricOp

namespace MetricsRegistry

/-- Operations in the order of one thread. -/
def runAll (r : MetricsRegistry) (ops : List MetricOp) : MetricsRegistry :=
  ops.foldl MetricOp.run r

@[simp] theorem runAll_nil (r : MetricsRegistry) : r.runAll [] = r := rfl

@[simp] theorem runAll_cons (r : MetricsRegistry) (op : MetricOp) (ops : List MetricOp) :
    r.runAll (op :: ops) = (op.run r).runAll ops := rfl

theorem runAll_append (r : MetricsRegistry) (ops ops' : List MetricOp) :
    r.runAll (ops ++ ops') = (r.runAll ops).runAll ops' :=
  List.foldl_append

/-- What the operations on a counter make of it, the others left out. -/
theorem counters_runAll (r : MetricsRegistry) (ops : List MetricOp) (m : Metric) :
    (r.runAll ops).counters m =
      (ops.filter fun op => op.metric = m).foldl MetricOp.apply (r.counters m) := by
  induction ops generalizing r with
  | nil => rfl
  | cons op ops ih =>
    rw [runAll_cons, ih]
    by_cases hm : op.metric = m
    · subst hm
      simp
    · rw [MetricOp.counters_run_of_ne hm]
      simp [hm]

end MetricsRegistry

/-! ## The tracker -/

/-- The arguments of `finish`. -/
structure RequestOutcome where
  promptTokens : UInt64
  completionTokens : UInt64
  finishReason : Option String
  cancelled : Bool
  error : Option String
  deriving DecidableEq, Repr

/-- `RequestTracker`. -/
structure RequestTracker where
  requestId : String
  model : String
  maxTokens : ℕ
  stream : Bool
  finished : Bool := false
  deriving DecidableEq, Repr

/-- `RequestLog`. -/
structure RequestLog where
  requestId : String
  model : String
  promptTokens : UInt64
  maxTokens : ℕ
  stream : Bool
  completionTokens : UInt64
  finishReason : Option String
  cancelled : Bool
  error : Option String
  deriving DecidableEq, Repr

/-- The operations of `RequestTracker::new`. -/
def newOps (isVlm : Bool) (imageCount : UInt64) : List MetricOp :=
  [.fetchAdd .requestsTotal 1, .fetchAdd .requestsActive 1] ++
    if isVlm then
      .fetchAdd .vlmRequestsTotal 1 ::
        if 0 < imageCount then [.fetchAdd .vlmImageCountTotal imageCount] else []
    else []

/-- The operations of the call of `finish` that is the first. -/
def finishOps (outcome : RequestOutcome) : List MetricOp :=
  .fetchSub .requestsActive 1 ::
    ((if outcome.cancelled then [.fetchAdd .requestsCancelledTotal 1] else []) ++
      (if outcome.error.isSome then [.fetchAdd .requestsFailedTotal 1] else []) ++
      [.fetchAdd .promptTokensTotal outcome.promptTokens,
        .fetchAdd .completionTokensTotal outcome.completionTokens])

/-- The operations of the drop of a tracker. -/
def dropOps (finished : Bool) : List MetricOp :=
  if finished then [] else [.fetchSub .requestsActive 1]

/-- The operations of `reset_benchmark_counters`. -/
def resetOps : List MetricOp :=
  [.requestsTotal, .requestsActive, .requestsFailedTotal, .requestsCancelledTotal,
    .queueRejectedTotal, .workerRestartsTotal, .promptTokensTotal, .completionTokensTotal,
    .promptCacheHitsTotal, .promptCacheMissesTotal, .promptCacheCachedTokensTotal,
    .ipcMessagesSentTotal, .ipcMessagesReceivedTotal, .vlmRequestsTotal, .vlmImageCountTotal,
    .vlmLoadErrorsTotal].map fun m => .store m 0

/-- The log line of a request. -/
def RequestTracker.log (t : RequestTracker) (outcome : RequestOutcome) : RequestLog where
  requestId := t.requestId
  model := t.model
  promptTokens := outcome.promptTokens
  maxTokens := t.maxTokens
  stream := t.stream
  completionTokens := outcome.completionTokens
  finishReason := outcome.finishReason
  cancelled := outcome.cancelled
  error := outcome.error

/-- A tracker in a handler, with the registry and the log lines. -/
structure TrackedRequest where
  tracker : RequestTracker
  metrics : MetricsRegistry
  logs : List RequestLog := []

namespace TrackedRequest

/-- `RequestTracker::new`. -/
def new (tracker : RequestTracker) (isVlm : Bool) (imageCount : UInt64)
    (metrics : MetricsRegistry) : TrackedRequest where
  tracker := { tracker with finished := false }
  metrics := metrics.runAll (newOps isVlm imageCount)

/-- `finish`: only the first call counts. -/
def finish (outcome : RequestOutcome) (t : TrackedRequest) : TrackedRequest :=
  if t.tracker.finished then t
  else {
    tracker := { t.tracker with finished := true }
    metrics := t.metrics.runAll (finishOps outcome)
    logs := t.logs ++ [t.tracker.log outcome] }

/-- The drop of the tracker. -/
def drop (t : TrackedRequest) : TrackedRequest :=
  { t with metrics := t.metrics.runAll (dropOps t.tracker.finished) }

theorem finish_of_finished {outcome : RequestOutcome} {t : TrackedRequest}
    (h : t.tracker.finished = true) : t.finish outcome = t := by
  rw [finish, if_pos h]

@[simp] theorem finished_finish (outcome : RequestOutcome) (t : TrackedRequest) :
    (t.finish outcome).tracker.finished = true := by
  rw [finish]
  split
  case isTrue h => exact h
  case isFalse => rfl

/-- A second call of `finish` does nothing. -/
@[simp] theorem finish_finish (outcome outcome' : RequestOutcome) (t : TrackedRequest) :
    (t.finish outcome).finish outcome' = t.finish outcome :=
  finish_of_finished (finished_finish outcome t)

/-- The drop of a finished tracker does nothing. -/
@[simp] theorem drop_finish (outcome : RequestOutcome) (t : TrackedRequest) :
    (t.finish outcome).drop = t.finish outcome := by
  rw [drop, finished_finish, dropOps, if_pos rfl, MetricsRegistry.runAll_nil]

end TrackedRequest

/-! ## Labels -/

/-- A label and its value, as `metric_key` renders it. -/
def renderLabel (label : String × String) : String := label.1 ++ "=\"" ++ label.2 ++ "\""

/-- `metric_key`. -/
def metricKey (name : String) (labels : List (String × String)) : String :=
  if labels.isEmpty then name
  else name ++ "\x7b" ++ String.intercalate "," (labels.map renderLabel) ++ "\x7d"

namespace MetricsRegistry

/-- The value under a key; what is not there counts as zero. -/
def labeled (r : MetricsRegistry) (key : String) : UInt64 := (r.labeledCounters.get? key).getD 0

/-- `increment_labeled_counter`. -/
def incrementLabeledCounter (name : String) (labels : List (String × String)) (value : UInt64)
    (r : MetricsRegistry) : MetricsRegistry :=
  { r with labeledCounters :=
      r.labeledCounters.set (metricKey name labels) (r.labeled (metricKey name labels) + value) }

@[simp] theorem labeled_increment_self (r : MetricsRegistry) (name : String)
    (labels : List (String × String)) (value : UInt64) :
    (r.incrementLabeledCounter name labels value).labeled (metricKey name labels) =
      r.labeled (metricKey name labels) + value := by
  rw [incrementLabeledCounter, labeled, Dict.get?_set, if_pos rfl, Option.getD_some]

theorem labeled_increment_of_ne {r : MetricsRegistry} {name key : String}
    {labels : List (String × String)} {value : UInt64} (h : key ≠ metricKey name labels) :
    (r.incrementLabeledCounter name labels value).labeled key = r.labeled key := by
  rw [incrementLabeledCounter, labeled, Dict.get?_set, if_neg h, labeled]

end MetricsRegistry
end MlxRuntime
