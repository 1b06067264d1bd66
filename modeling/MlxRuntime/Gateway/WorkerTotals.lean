import MlxRuntime.Gateway.Telemetry
import MlxRuntime.Protocol.Events
import Mathlib.Data.UInt

/-!
# The totals of a worker, as the gateway exports them

A worker puts running totals into its chat completions: how many requests it cancelled, how
many failed, and how many entries its caches evicted.  `execute_chat` adds what it receives to
counters under the labels of the backend, so the sum of all reports is exported.

Only the counters under labels are modelled; the gauges of the same handler are stored.

## Main definitions

* `responseIncrements`, `recordResponse` — what the handler adds for a response.
* `WorkerTotal` — the totals.
* `WorkerTotal.reports` — what was reported under a key.
-/

namespace MlxRuntime

/-- One addition to a counter under labels. -/
structure LabeledIncrement where
  name : String
  labels : List (String × String)
  value : UInt64

/-- The key it goes to. -/
def LabeledIncrement.key (i : LabeledIncrement) : String := metricKey i.name i.labels

/-! ## The fields of a response -/

/-- An integer field. -/
def intField (o : Options responseTable) (name : String) : Option UInt64 :=
  match (o.json name : Wire) with
  | .int n => some (.ofNat n.toNat)
  | _ => none

/-- A text field. -/
def textField (o : Options responseTable) (name : String) : Option String :=
  match (o.json name : Wire) with
  | .str s => some s
  | _ => none

/-- A truth value. -/
def boolField (o : Options responseTable) (name : String) : Option Bool :=
  match (o.json name : Wire) with
  | .bool b => some b
  | _ => none

/-- `backend.as_deref().unwrap_or("unknown")`. -/
def backendOf (o : Options responseTable) : String := (textField o "backend").getD "unknown"

/-- `modality.as_deref().unwrap_or(backend)`. -/
def modalityOf (o : Options responseTable) : String := (textField o "modality").getD (backendOf o)

/-- The labels of every counter. -/
def backendLabels (o : Options responseTable) : List (String × String) :=
  [("backend", backendOf o), ("modality", modalityOf o)]

/-- The labels of the counters of a cache. -/
def cacheLabels (o : Options responseTable) (family : String) : List (String × String) :=
  backendLabels o ++ [("cache_family", family)]

/-- A field that is added under its name. -/
def addField (o : Options responseTable) (field name : String)
    (labels : List (String × String)) : List LabeledIncrement :=
  ((intField o field).map fun value => ⟨name, labels, value⟩).toList

/-- A hit or a miss of a cache. -/
def addHit (o : Options responseTable) (field family : String) : List LabeledIncrement :=
  ((boolField o field).map fun hit =>
    ⟨if hit then "mlx_cache_hits_by_backend_total" else "mlx_cache_misses_by_backend_total",
      cacheLabels o family, 1⟩).toList

/-- A stage that a request was in. -/
def addStage (o : Options responseTable) (field : String) : List LabeledIncrement :=
  ((textField o field).map fun stage =>
    ⟨"mlx_requests_by_backend_stage_total", backendLabels o ++ [("stage", stage)], 1⟩).toList

/-- The counters under labels that `execute_chat` adds to for a response. -/
def responseIncrements (o : Options responseTable) : List LabeledIncrement :=
  addField o "image_count" "mlx_vlm_image_count_by_backend_total" (backendLabels o) ++
  addHit o "prompt_cache_hit" "prompt_kv" ++
  addField o "cached_tokens" "mlx_cached_tokens_by_backend_total" (backendLabels o) ++
  addField o "prompt_cache_evictions" "mlx_cache_evictions_by_backend_total"
    (cacheLabels o "prompt_kv") ++
  addStage o "scheduler_stage" ++
  addStage o "cancellation_stage" ++
  addField o "worker_cancellation_count" "mlx_worker_cancellations_by_backend_total"
    (backendLabels o) ++
  addField o "worker_error_count" "mlx_worker_errors_by_backend_total" (backendLabels o) ++
  addHit o "vision_feature_cache_hit" "vision_feature" ++
  addField o "vision_feature_cache_evictions" "mlx_cache_evictions_by_backend_total"
    (cacheLabels o "vision_feature")

namespace MetricsRegistry

/-- One addition. -/
def increment (r : MetricsRegistry) (i : LabeledIncrement) : MetricsRegistry :=
  r.incrementLabeledCounter i.name i.labels i.value

/-- A response, handled by `execute_chat`. -/
def recordResponse (r : MetricsRegistry) (o : Options responseTable) : MetricsRegistry :=
  (responseIncrements o).foldl increment r

/-- What a list of additions puts under a key. -/
def added (key : String) (increments : List LabeledIncrement) : UInt64 :=
  ((increments.filter fun i => i.key = key).map LabeledIncrement.value).sum

theorem added_append (key : String) (l l' : List LabeledIncrement) :
    added key (l ++ l') = added key l + added key l' := by
  simp [added]

theorem labeled_foldl (r : MetricsRegistry) (increments : List LabeledIncrement)
    (key : String) :
    (increments.foldl increment r).labeled key = r.labeled key + added key increments := by
  induction increments generalizing r with
  | nil => simp [added]
  | cons i increments ih =>
    rw [List.foldl_cons, ih, increment]
    by_cases hkey : i.key = key
    · subst hkey
      rw [LabeledIncrement.key, labeled_increment_self]
      simp [added, LabeledIncrement.key, add_assoc]
    · rw [labeled_increment_of_ne (Ne.symm hkey)]
      simp [added, hkey]

end MetricsRegistry

/-! ## The totals -/

/-- The cumulative counters of a worker. -/
inductive WorkerTotal
  | cancellations
  | errors
  | promptCacheEvictions
  | visionFeatureCacheEvictions
  deriving DecidableEq, Repr

namespace WorkerTotal

/-- The field of the response. -/
def field : WorkerTotal → String
  | .cancellations => "worker_cancellation_count"
  | .errors => "worker_error_count"
  | .promptCacheEvictions => "prompt_cache_evictions"
  | .visionFeatureCacheEvictions => "vision_feature_cache_evictions"

/-- The name of the counter. -/
def metricName : WorkerTotal → String
  | .cancellations => "mlx_worker_cancellations_by_backend_total"
  | .errors => "mlx_worker_errors_by_backend_total"
  | .promptCacheEvictions | .visionFeatureCacheEvictions => "mlx_cache_evictions_by_backend_total"

/-- The family of the cache, where there is one. -/
def family : WorkerTotal → List (String × String)
  | .cancellations | .errors => []
  | .promptCacheEvictions => [("cache_family", "prompt_kv")]
  | .visionFeatureCacheEvictions => [("cache_family", "vision_feature")]

/-- The key that a response reports the total under. -/
def key (total : WorkerTotal) (o : Options responseTable) : String :=
  metricKey total.metricName (backendLabels o ++ total.family)

/-- What was reported under a key, in order. -/
def reports (total : WorkerTotal) (key : String) (responses : List (Options responseTable)) :
    List UInt64 :=
  (responses.filter fun o => total.key o = key).filterMap fun o => intField o total.field

variable {total : WorkerTotal} {o o' : Options responseTable}

/-! ## Keys -/

/-- A key with labels begins with its name and a brace. -/
theorem toList_metricKey {labels : List (String × String)} (h : labels ≠ []) (name : String) :
    ∃ rest, (metricKey name labels).toList = name.toList ++ '\x7b' :: rest := by
  rw [metricKey, if_neg (by simpa using h)]
  simp [String.toList_append]

/-- A key ends with the value of its last label. -/
theorem toList_metricKey_concat {labels : List (String × String)} (h : labels ≠ [])
    (name label value : String) :
    ∃ front, (metricKey name (labels ++ [(label, value)])).toList =
      front ++ value.toList ++ ['"', '\x7d'] := by
  have hlabels : labels.map renderLabel ≠ [] := by simpa using h
  rw [metricKey, if_neg (by simp), List.map_append, List.map_singleton,
    String.intercalate_append_of_ne_nil hlabels (by simp), String.intercalate_singleton,
    renderLabel]
  refine ⟨(name ++ "\x7b" ++ (String.intercalate "," (labels.map renderLabel) ++ "," ++
    (label ++ "=\""))).toList, ?_⟩
  simp [String.toList_append]

/-- Keys of different names are different. -/
theorem metricKey_ne {name name' : String} {labels labels' : List (String × String)}
    (h : name ≠ name') (hname : '\x7b' ∉ name.toList) (hname' : '\x7b' ∉ name'.toList)
    (hlabels : labels ≠ []) (hlabels' : labels' ≠ []) :
    metricKey name labels ≠ metricKey name' labels' := by
  intro heq
  obtain ⟨rest, hrest⟩ := toList_metricKey hlabels name
  obtain ⟨rest', hrest'⟩ := toList_metricKey hlabels' name'
  have hlists : name.toList ++ '\x7b' :: rest = name'.toList ++ '\x7b' :: rest' := by
    rw [← hrest, ← hrest', heq]
  have htake := congrArg (List.takeWhile (· ≠ '\x7b')) hlists
  have hall : ∀ {l : List Char}, '\x7b' ∉ l → ∀ r,
      (l ++ '\x7b' :: r).takeWhile (· ≠ '\x7b') = l := by
    intro l hl r
    rw [List.takeWhile_append_of_pos fun c hc => decide_eq_true (ne_of_mem_of_not_mem hc hl)]
    simp
  rw [hall hname, hall hname'] at htake
  exact h (String.toList_inj.mp htake)

theorem backendLabels_ne_nil : backendLabels o ≠ [] := List.cons_ne_nil _ _

theorem metricName_clean (total : WorkerTotal) : '\x7b' ∉ total.metricName.toList := by
  cases total <;> decide

theorem key_ne_of_name {name : String} {labels : List (String × String)}
    (h : name ≠ total.metricName) (hname : '\x7b' ∉ name.toList) (hlabels : labels ≠ []) :
    metricKey name labels ≠ total.key o' :=
  metricKey_ne h hname (metricName_clean total) hlabels (List.cons_ne_nil _ _)

/-- The evictions of the two caches are under different keys. -/
theorem key_prompt_ne_vision :
    key .promptCacheEvictions o ≠ key .visionFeatureCacheEvictions o' := by
  intro heq
  obtain ⟨front, hfront⟩ := toList_metricKey_concat (backendLabels_ne_nil (o := o))
    (metricName .promptCacheEvictions) "cache_family" "prompt_kv"
  obtain ⟨front', hfront'⟩ := toList_metricKey_concat (backendLabels_ne_nil (o := o'))
    (metricName .promptCacheEvictions) "cache_family" "vision_feature"
  have hlists := hfront.symm.trans ((congrArg String.toList heq).trans hfront')
  have hlast := congrArg List.getLast? (List.append_cancel_right hlists)
  rw [List.getLast?_append_of_ne_nil _ (by decide), List.getLast?_append_of_ne_nil _ (by decide)]
    at hlast
  exact absurd hlast (by decide)

/-! ## The sums -/

open MetricsRegistry

theorem added_addField (key field name : String) (labels : List (String × String)) :
    added key (addField o field name labels) =
      if metricKey name labels = key then (intField o field).getD 0 else 0 := by
  rw [addField]
  cases intField o field with
  | none => simp [added]
  | some value =>
    by_cases hkey : metricKey name labels = key
    · simp [added, LabeledIncrement.key, hkey]
    · simp [added, LabeledIncrement.key, hkey]

theorem added_addField_of_name {field name : String} {labels : List (String × String)}
    (h : name ≠ total.metricName) (hname : '\x7b' ∉ name.toList) (hlabels : labels ≠ []) :
    added (total.key o') (addField o field name labels) = 0 := by
  rw [added_addField, if_neg (key_ne_of_name h hname hlabels)]

theorem added_addHit (field family : String) :
    added (total.key o') (addHit o field family) = 0 := by
  rw [addHit]
  cases boolField o field with
  | none => rfl
  | some hit =>
    have hne : metricKey (if hit then "mlx_cache_hits_by_backend_total"
        else "mlx_cache_misses_by_backend_total") (cacheLabels o family) ≠ total.key o' := by
      refine key_ne_of_name ?_ ?_ (List.cons_ne_nil _ _)
      · cases hit <;> cases total <;> decide
      · cases hit <;> decide
    simp [added, LabeledIncrement.key, hne]

theorem added_addStage (field : String) : added (total.key o') (addStage o field) = 0 := by
  rw [addStage]
  cases textField o field with
  | none => rfl
  | some stage =>
    have hne : metricKey "mlx_requests_by_backend_stage_total"
        (backendLabels o ++ [("stage", stage)]) ≠ total.key o' := by
      refine key_ne_of_name ?_ (by decide) (List.cons_ne_nil _ _)
      cases total <;> decide
    simp [added, LabeledIncrement.key, hne]

/-- A response adds to a key of a total what it reports under that key. -/
theorem added_response (total : WorkerTotal) (o o' : Options responseTable) :
    added (total.key o') (responseIncrements o) =
      if total.key o = total.key o' then (intField o total.field).getD 0 else 0 := by
  have hlabels : backendLabels o ≠ [] := backendLabels_ne_nil
  have hcache : ∀ family, cacheLabels o family ≠ [] := fun _ => List.cons_ne_nil _ _
  have himages : added (total.key o') (addField o "image_count"
      "mlx_vlm_image_count_by_backend_total" (backendLabels o)) = 0 :=
    added_addField_of_name (by cases total <;> decide) (by decide) hlabels
  have hcached : added (total.key o') (addField o "cached_tokens"
      "mlx_cached_tokens_by_backend_total" (backendLabels o)) = 0 :=
    added_addField_of_name (by cases total <;> decide) (by decide) hlabels
  rw [responseIncrements]
  simp only [added_append, added_addHit, added_addStage, himages, hcached, add_zero, zero_add]
  -- of the four fields that are totals, the other ones go to other keys
  cases total with
  | cancellations =>
    have herrors : added (key .cancellations o') (addField o "worker_error_count"
        "mlx_worker_errors_by_backend_total" (backendLabels o)) = 0 :=
      added_addField_of_name (by decide) (by decide) hlabels
    rw [herrors, added_addField_of_name (by decide) (by decide) (hcache _),
      added_addField_of_name (by decide) (by decide) (hcache _), added_addField, zero_add,
      add_zero, add_zero]
    rfl
  | errors =>
    rw [added_addField_of_name (by decide) (by decide) (hcache _),
      added_addField_of_name (by decide) (by decide) hlabels,
      added_addField_of_name (by decide) (by decide) (hcache _), added_addField, zero_add,
      zero_add, add_zero]
    rfl
  | promptCacheEvictions =>
    have hvision : added (key .promptCacheEvictions o') (addField o
        "vision_feature_cache_evictions" "mlx_cache_evictions_by_backend_total"
        (cacheLabels o "vision_feature")) = 0 := by
      rw [added_addField, if_neg fun heq => key_prompt_ne_vision heq.symm]
    rw [hvision, added_addField_of_name (by decide) (by decide) hlabels,
      added_addField_of_name (by decide) (by decide) hlabels, added_addField, add_zero, add_zero,
      add_zero]
    rfl
  | visionFeatureCacheEvictions =>
    have hprompt : added (key .visionFeatureCacheEvictions o') (addField o
        "prompt_cache_evictions" "mlx_cache_evictions_by_backend_total"
        (cacheLabels o "prompt_kv")) = 0 := by
      rw [added_addField]
      exact if_neg key_prompt_ne_vision
    rw [hprompt, added_addField_of_name (by decide) (by decide) hlabels,
      added_addField_of_name (by decide) (by decide) hlabels, added_addField, zero_add, zero_add,
      zero_add]
    rfl

/-- **What is exported** is the sum of the reports under the key. -/
theorem labeled_responses (total : WorkerTotal) (o' : Options responseTable)
    (responses : List (Options responseTable)) (r : MetricsRegistry) :
    (responses.foldl recordResponse r).labeled (total.key o') =
      r.labeled (total.key o') + (total.reports (total.key o') responses).sum := by
  induction responses generalizing r with
  | nil => simp [reports]
  | cons o responses ih =>
    rw [List.foldl_cons, ih, recordResponse, labeled_foldl, added_response, reports, reports]
    by_cases hkey : total.key o = total.key o'
    · rw [if_pos hkey, List.filter_cons_of_pos (by simpa using hkey)]
      cases hvalue : intField o total.field with
      | none => simp [hvalue]
      | some value => simp [hvalue, add_assoc]
    · rw [if_neg hkey, List.filter_cons_of_neg (by simpa using hkey), add_zero]

/-- After any responses, what is exported under a key is the latest report under it exactly
when the earlier reports under it add up to nothing. -/
theorem exported_eq_latest_iff (total : WorkerTotal) (o : Options responseTable)
    (responses : List (Options responseTable)) (earlier : List UInt64) (latest : UInt64)
    (h : total.reports (total.key o) responses = earlier ++ [latest]) :
    (responses.foldl recordResponse {}).labeled (total.key o) = latest ↔ earlier.sum = 0 := by
  have hempty : labeled {} (total.key o) = 0 := rfl
  rw [labeled_responses, hempty, h, List.sum_append, List.sum_singleton, zero_add]
  exact add_eq_right

/-- A response that reports so many cancelled requests. -/
def cancellationReport (count : ℤ) : Options responseTable :=
  Options.single (T := responseTable) ⟨26, by decide⟩ count

theorem exported_eq_latest_first :
    (([cancellationReport 0, cancellationReport 2].foldl recordResponse {}).labeled
      (key .cancellations (cancellationReport 0)) = 2 ↔ ([0] : List UInt64).sum = 0) :=
  exported_eq_latest_iff .cancellations (cancellationReport 0)
    [cancellationReport 0, cancellationReport 2] [0] 2 (by decide)

/-- The worker has cancelled two requests, and says so with each of two responses. -/
theorem exported_twice :
    ([cancellationReport 2, cancellationReport 2].foldl recordResponse {}).labeled
      (key .cancellations (cancellationReport 2)) ≠ 2 := by
  rw [labeled_responses]
  decide

end WorkerTotal
end MlxRuntime
