import MlxRuntime.V1.PromptCacheStore
import MlxRuntime.V1.VlmScheduler

/-!
# The caches of the VLM

The VLM has a store of prompt caches and a cache of vision features.  They share a budget with
what the batches hold: when it is exceeded, the oldest entries of both leave.  The feature cache
is a wrapper of one of the library, which is a parameter.

## Main definitions

* `VisionFeatureCache`, `VlmVisionFeatureCache` — the cache of the library, and its wrapper.
* `VlmStores` — the two caches, and the budget.
* `VlmStores.enforce`, `VlmStores.caches` — the budget, and what the scheduler calls.
* `StoreEvent` — what happens to the caches besides.
* `VisionFeatureCache.Holds`, `VlmStores.Evicts` — what a cache holds, and that it holds no more.
-/

namespace MlxRuntime

/-- `_VisionCacheSnapshot`; the embeddings are among the inputs of its `prompt_kwargs`. -/
structure VisionCacheSnapshot (κ ξ : Type) where
  promptSignature : String
  promptKwargs : PromptKwargs κ ξ
  cacheBytes : ℕ

/-- `mlx_vlm.vision_cache.VisionFeatureCache`; one that holds nothing stands for none. -/
structure VisionFeatureCache (υ κ ξ : Type) where
  get : String → υ → Option (VisionCacheSnapshot κ ξ) × υ
  put : String → VisionCacheSnapshot κ ξ → υ → υ
  length : υ → ℕ
  contains : String → υ → Bool
  /-- Its dictionary `_cache`, oldest first, if there is one. -/
  internal : υ → Option (List (String × VisionCacheSnapshot κ ξ))
  /-- `_cache.pop`. -/
  pop : String → υ → υ
  /-- `_estimate_array_bytes` of the embeddings. -/
  nbytes : ξ → ℕ

/-- `_VlmVisionFeatureCache`. -/
structure VlmVisionFeatureCache (υ : Type) where
  maxEntries : ℕ := 20
  maxBytes : ℕ := 8 * 1024 * 1024
  cache : υ
  hits : ℕ := 0
  misses : ℕ := 0
  evictions : ℕ := 0
  bytes : ℕ := 0

namespace VlmVisionFeatureCache

variable {υ κ ξ : Type} (vision : VisionFeatureCache υ κ ξ)

/-- `get`. -/
def get (cacheKey promptSignature : String) (v : VlmVisionFeatureCache υ) :
    Option (VisionCacheSnapshot κ ξ) × VlmVisionFeatureCache υ :=
  let (cached, cache) := vision.get cacheKey v.cache
  match cached.filter fun snapshot => snapshot.promptSignature = promptSignature with
  | none => (none, { v with cache := cache, misses := v.misses + 1 })
  | some snapshot => (some snapshot, { v with cache := cache, hits := v.hits + 1 })

/-- `_recompute_bytes`. -/
def recomputeBytes (v : VlmVisionFeatureCache υ) : VlmVisionFeatureCache υ :=
  { v with bytes := match vision.internal v.cache with
      | none => v.bytes
      | some snapshots => (snapshots.map fun entry => entry.2.cacheBytes).sum }

/-- `put`, without the budget; the answer is what was stored, and whether it was. -/
def put (cacheKey promptSignature : String) (promptKwargs : PromptKwargs κ ξ)
    (v : VlmVisionFeatureCache υ) : Option ℕ × VlmVisionFeatureCache υ :=
  let cacheBytes := vision.nbytes promptKwargs.inputs
  if cacheBytes = 0 ∨ v.maxBytes < cacheBytes then (none, v)
  else
    let before := vision.length v.cache
    let cache := vision.put cacheKey ⟨promptSignature, promptKwargs, cacheBytes⟩ v.cache
    let after := vision.length cache
    if after = before ∧ ¬ vision.contains cacheKey cache then (none, { v with cache := cache })
    else (some cacheBytes, recomputeBytes vision { v with
      cache := cache
      evictions := if after = before ∧ v.maxEntries ≤ before then v.evictions + 1
        else v.evictions })

/-- `evict_oldest`; there is no cache when nothing was evicted. -/
def evictOldest (v : VlmVisionFeatureCache υ) : Option (VlmVisionFeatureCache υ) :=
  ((vision.internal v.cache).bind List.head?).map fun oldest =>
    recomputeBytes vision { v with
      cache := vision.pop oldest.1 v.cache
      evictions := v.evictions + 1 }

variable {vision} in
/-- What is served was given out by the cache of the library, and has the signature. -/
theorem get_eq_some {cacheKey promptSignature : String} {v : VlmVisionFeatureCache υ}
    {snapshot : VisionCacheSnapshot κ ξ}
    (h : (v.get vision cacheKey promptSignature).1 = some snapshot) :
    (vision.get cacheKey v.cache).1 = some snapshot ∧
      snapshot.promptSignature = promptSignature := by
  rw [get] at h
  dsimp only at h
  split at h
  · cases h
  · rename_i found hfound
    obtain rfl := Option.some.inj h
    obtain ⟨hget, hsignature⟩ := Option.filter_eq_some_iff.mp hfound
    exact ⟨hget, of_decide_eq_true hsignature⟩

@[simp] theorem cache_get (cacheKey promptSignature : String) (v : VlmVisionFeatureCache υ) :
    (v.get vision cacheKey promptSignature).2.cache = (vision.get cacheKey v.cache).2 := by
  rw [get]
  dsimp only
  split
  · rfl
  · rfl

/-- What is in the cache of the library afterwards: what it was, or what it is after `put`. -/
theorem cache_put (cacheKey promptSignature : String) (promptKwargs : PromptKwargs κ ξ)
    (v : VlmVisionFeatureCache υ) :
    (v.put vision cacheKey promptSignature promptKwargs).2.cache = v.cache ∨
      (v.put vision cacheKey promptSignature promptKwargs).2.cache =
        vision.put cacheKey
          ⟨promptSignature, promptKwargs, vision.nbytes promptKwargs.inputs⟩ v.cache := by
  rw [put]
  dsimp only
  split
  · exact .inl rfl
  · split
    · exact .inr rfl
    · exact .inr rfl

/-- `total_entries`. -/
def totalEntries (v : VlmVisionFeatureCache υ) : ℕ := ((vision.internal v.cache).getD []).length

end VlmVisionFeatureCache

/-- The store of prompt caches, the feature cache and their `CacheBudgetManager`. -/
structure VlmStores (κ υ : Type) where
  apc : PromptCacheStore ApcCacheKey κ
  vision : VlmVisionFeatureCache υ
  totalBudgetBytes : ℕ
  /-- `_active_batch_bytes` of the text scheduler and of the VLM's. -/
  textBatchBytes : ℕ := 0
  vlmBatchBytes : ℕ := 0

/-- What happens to the caches besides: an eviction, a report of the text scheduler, a reset. -/
inductive StoreEvent
  | evictPrompt
  | evictVision
  | textBatch (bytes : ℕ)
  | reset (clearCache resetCounters : Bool)

namespace VlmStores

variable {κ υ ξ : Type} (model : PromptCacheModel κ) (vision : VisionFeatureCache υ κ ξ)

/-- `stored_cache_bytes`. -/
def storedCacheBytes (w : VlmStores κ υ) : ℕ := w.apc.totalBytes + w.vision.bytes

/-- `stored_cache_target_bytes`. -/
def storedCacheTargetBytes (w : VlmStores κ υ) : ℕ :=
  w.totalBudgetBytes - (w.textBatchBytes + w.vlmBatchBytes)

/-- The oldest prompt cache leaves. -/
def evictPrompt (w : VlmStores κ υ) : Option (VlmStores κ υ) :=
  w.apc.evictOldest.map fun apc => { w with apc := apc }

/-- The oldest features leave. -/
def evictVision (w : VlmStores κ υ) : Option (VlmStores κ υ) :=
  (w.vision.evictOldest vision).map fun features => { w with vision := features }

/-- The loop of `enforce`: each store in turn, until the target is met or nothing is left. -/
def enforceRounds : ℕ → VlmStores κ υ → VlmStores κ υ
  | 0, w => w
  | rounds + 1, w =>
      let fits (w : VlmStores κ υ) : Bool := w.storedCacheBytes ≤ w.storedCacheTargetBytes
      if fits w then w
      else
        match w.evictPrompt with
        | some w₁ =>
            if fits w₁ then w₁ else enforceRounds rounds ((w₁.evictVision vision).getD w₁)
        | none =>
            match w.evictVision vision with
            | some w₂ => enforceRounds rounds w₂
            | none => w

/-- `enforce`; an entry leaves in each round. -/
def enforce (w : VlmStores κ υ) : VlmStores κ υ :=
  enforceRounds vision (w.apc.entries.keys.length + w.vision.totalEntries vision) w

/-- The caches that the scheduler calls. -/
def caches (apcManager : Bool) : VlmCaches (VlmStores κ υ) κ ξ where
  lookup tokens key w :=
    let (found, apc) := w.apc.lookup model tokens key
    (found, { w with apc := apc })
  remember tokens promptCache key w :=
    match w.apc.remember model tokens promptCache key with
    | none => w
    | some apc => enforce vision { w with apc := apc }
  trim := model.trim
  entries w := w.apc.entries.keys.length
  evictions w := w.apc.stats.evictions
  visionGet key signature w :=
    let (found, features) := w.vision.get vision key signature
    (found.map VisionCacheSnapshot.promptKwargs, { w with vision := features })
  visionPut key signature kwargs w :=
    match w.vision.put vision key signature kwargs with
    | (none, features) => (0, { w with vision := features })
    | (some bytes, features) => (bytes, enforce vision { w with vision := features })
  visionEntries w := w.vision.totalEntries vision
  visionEvictions w := w.vision.evictions
  setActiveBatchBytes bytes w := enforce vision { w with vlmBatchBytes := bytes }
  apcManager := apcManager

/-- What happens to the caches besides. -/
def apply (w : VlmStores κ υ) : StoreEvent → VlmStores κ υ
  | .evictPrompt => w.evictPrompt.getD w
  | .evictVision => (w.evictVision vision).getD w
  | .textBatch bytes => enforce vision { w with textBatchBytes := bytes }
  | .reset clearCache resetCounters => { w with apc := w.apc.reset clearCache resetCounters }

end VlmStores

/-! ## What the caches hold -/

/-- A cache gives out what it holds, and holds what was put into it; any of it may leave. -/
structure VisionFeatureCache.Lawful {υ κ ξ : Type} (vision : VisionFeatureCache υ κ ξ)
    (holds : υ → String → VisionCacheSnapshot κ ξ → Prop) : Prop where
  get : ∀ {key cache snapshot}, (vision.get key cache).1 = some snapshot →
    holds cache key snapshot
  after_get : ∀ {key cache key' snapshot}, holds (vision.get key cache).2 key' snapshot →
    holds cache key' snapshot
  put : ∀ {key new cache key' snapshot}, holds (vision.put key new cache) key' snapshot →
    key' = key ∧ snapshot = new ∨ holds cache key' snapshot
  pop : ∀ {key cache key' snapshot}, holds (vision.pop key cache) key' snapshot →
    holds cache key' snapshot

namespace VlmStores

variable {κ υ ξ : Type} {model : PromptCacheModel κ} {vision : VisionFeatureCache υ κ ξ}
  {holds : υ → String → VisionCacheSnapshot κ ξ → Prop} {w w' : VlmStores κ υ}

/-- The caches of `w'` hold nothing that those of `w` do not. -/
structure Evicts (holds : υ → String → VisionCacheSnapshot κ ξ → Prop) (w w' : VlmStores κ υ) :
    Prop where
  apc : w.apc.Evicts w'.apc
  vision : ∀ {key snapshot}, holds w'.vision.cache key snapshot → holds w.vision.cache key snapshot

theorem Evicts.refl (w : VlmStores κ υ) : Evicts holds w w := ⟨.refl _, id⟩

theorem Evicts.trans {w'' : VlmStores κ υ} (h : Evicts holds w w') (h' : Evicts holds w' w'') :
    Evicts holds w w'' :=
  ⟨h.apc.trans h'.apc, fun hheld => h.vision (h'.vision hheld)⟩

theorem evicts_evictPrompt (h : w.evictPrompt = some w') : Evicts holds w w' := by
  obtain ⟨apc, hapc, rfl⟩ := Option.map_eq_some_iff.mp h
  exact ⟨PromptCacheStore.evicts_evictOldest hapc, id⟩

variable (hlawful : vision.Lawful holds)
include hlawful

theorem evicts_evictVision (h : w.evictVision vision = some w') : Evicts holds w w' := by
  obtain ⟨features, hfeatures, rfl⟩ := Option.map_eq_some_iff.mp h
  obtain ⟨oldest, -, rfl⟩ := Option.map_eq_some_iff.mp hfeatures
  exact ⟨.refl _, hlawful.pop⟩

theorem evicts_enforceRounds (rounds : ℕ) (w : VlmStores κ υ) :
    Evicts holds w (enforceRounds vision rounds w) := by
  induction rounds generalizing w with
  | zero => exact .refl w
  | succ rounds ih =>
      rw [enforceRounds]
      dsimp only
      split
      · exact .refl w
      · cases hprompt : w.evictPrompt with
        | some w₁ =>
            have h₁ : Evicts holds w w₁ := evicts_evictPrompt hprompt
            dsimp only
            split
            · exact h₁
            · cases hvision : w₁.evictVision vision with
              | none => exact h₁.trans (ih w₁)
              | some w₂ => exact h₁.trans ((evicts_evictVision hlawful hvision).trans (ih w₂))
        | none =>
            dsimp only
            cases hvision : w.evictVision vision with
            | none => exact .refl w
            | some w₂ => exact (evicts_evictVision hlawful hvision).trans (ih w₂)

theorem evicts_enforce (w : VlmStores κ υ) : Evicts holds w (enforce vision w) :=
  evicts_enforceRounds hlawful _ w

theorem evicts_apply (w : VlmStores κ υ) (event : StoreEvent) :
    Evicts holds w (w.apply vision event) := by
  cases event with
  | evictPrompt =>
      rw [apply]
      cases h : w.evictPrompt with
      | none => exact .refl w
      | some w' => exact evicts_evictPrompt h
  | evictVision =>
      rw [apply]
      cases h : w.evictVision vision with
      | none => exact .refl w
      | some w' => exact evicts_evictVision hlawful h
  | textBatch bytes =>
      have h := evicts_enforce hlawful { w with textBatchBytes := bytes }
      exact ⟨h.apc, h.vision⟩
  | reset clearCache resetCounters =>
      refine ⟨⟨fun entry hentry => ?_, rfl⟩, id⟩
      rw [apply, PromptCacheStore.reset] at hentry
      cases clearCache with
      | false => exact hentry
      | true => exact (List.not_mem_nil hentry).elim

end VlmStores
end MlxRuntime
