import MlxRuntime.V1.VlmPreparation

/-!
# Prompts that are reused

The namespace of a prompt among the stored prompt caches has the whole prompt, and so has the entry
below it.  What a lookup finds is therefore the same prompt, and nothing of it is left for the
generator; the text scheduler drops such a match.

## Main definitions

* `VlmStores.new` — the caches at the start of a worker.
* `VlmStores.Keyed` — every entry is for the prompt of its namespace.
* `VlmScheduler.cachedPrefix`, `VlmScheduler.promptSlice` — the two parts of a prompt.
* `VlmScheduler.prompt_reuse_iff` — when the second part is not empty.
-/

namespace MlxRuntime

open VlmScheduler

/-- The caches at the start of a worker. -/
def VlmStores.new {κ υ : Type} (maxEntries maxBytes visionEntries visionBytes budget : ℕ)
    (cache : υ) : VlmStores κ υ where
  apc := { maxEntries := maxEntries, maxBytes := maxBytes }
  vision := { maxEntries := visionEntries, maxBytes := visionBytes, cache := cache }
  totalBudgetBytes := budget

namespace VlmStores

variable {κ υ ξ : Type} {model : PromptCacheModel κ} {vision : VisionFeatureCache υ κ ξ}
  {w w' : VlmStores κ υ}

/-- Every entry is for the prompt of its namespace. -/
def Keyed (w : VlmStores κ υ) : Prop :=
  ∀ entry ∈ w.apc.entries.entries, entry.1.1.promptTokens = entry.1.2

theorem keyed_new {maxEntries maxBytes visionEntries visionBytes budget : ℕ} {cache : υ} :
    (new maxEntries maxBytes visionEntries visionBytes budget cache : VlmStores κ υ).Keyed :=
  fun _ hentry => (List.not_mem_nil hentry).elim

/-- Nothing but entries that leave. -/
theorem Keyed.evicts {holds : υ → String → VisionCacheSnapshot κ ξ → Prop} (h : w.Keyed)
    (hevicts : Evicts holds w w') : w'.Keyed :=
  fun entry hentry => h entry (hevicts.apc.entries entry hentry)

/-- A cache of features may hold anything. -/
theorem lawful_true (vision : VisionFeatureCache υ κ ξ) :
    vision.Lawful fun _ _ _ => True :=
  ⟨fun _ => trivial, fun _ => trivial, fun _ => .inr trivial, fun _ => trivial⟩

theorem Keyed.enforce (h : w.Keyed) : (w.enforce vision).Keyed :=
  h.evicts (evicts_enforce (lawful_true vision) w)

/-- The entry of a prompt is the only one in its namespace. -/
theorem Keyed.lookup (model : PromptCacheModel κ) (h : w.Keyed) {key : ApcCacheKey} {tokens : List Token}
    (hkey : key.promptTokens = tokens) :
    (w.apc.lookup model tokens key).1 = (w.apc.entries.get? (key, tokens)).map fun cached =>
      ⟨tokens, model.deepcopy w.apc.copies cached.promptCache, cached.cacheBytes, .exact⟩ := by
  refine PromptCacheStore.lookup_of_same fun other hother hsame => ?_
  obtain ⟨cached, hentry⟩ := Dict.mem_keys.mp hother
  rw [← h _ hentry, hsame, hkey]

end VlmStores

namespace VlmScheduler

variable {ρ F κ ξ ι γ υ : Type}

/-- What is cached of the prompt. -/
def cachedPrefix (job : ScheduledVlmRequest ρ F κ ξ) : List Token :=
  (job.cachedPrompt.map CachedPrompt.tokens).getD []

/-- What the generator is given of the prompt. -/
def promptSlice (job : ScheduledVlmRequest ρ F κ ξ) : List Token := (insertOf job).prompt

variable {engine : VlmEngine γ ρ F κ ξ ι} {gen : VlmGenerator γ F κ ξ}
  {model : PromptCacheModel κ} {vision : VisionFeatureCache υ κ ξ} {apcManager : Bool}

variable {w : VlmStores κ υ}

variable (engine model vision apcManager) in
theorem keyed_features (h : w.Keyed) (job : ScheduledVlmRequest ρ F κ ξ) :
    (featuresFor engine (VlmStores.caches model vision apcManager) job w).2.Keyed := by
  rw [featuresFor]
  split
  · exact h
  · exact h

theorem keyed_visionPut (h : w.Keyed) (key signature : String) (kwargs : PromptKwargs κ ξ) :
    ((VlmStores.caches model vision apcManager).visionPut key signature kwargs w).2.Keyed := by
  rw [VlmStores.caches]
  dsimp only
  split
  · exact h
  · have hput : VlmStores.Keyed { w with vision := ‹_› } := h
    exact hput.enforce

/-- The calls keep that every entry is for the prompt of its namespace. -/
theorem cacheRule_keyed (engine : VlmEngine γ ρ F κ ξ ι) (gen : VlmGenerator γ F κ ξ)
    (model : PromptCacheModel κ) (vision : VisionFeatureCache υ κ ξ) (apcManager : Bool) :
    CacheRule engine gen (VlmStores.caches model vision apcManager) (fun _ => ())
      (fun _ w => w.Keyed) (fun _ _ tokens key => key.promptTokens = tokens)
      (fun _ _ job => job.apcCacheKey.promptTokens = job.fullPromptTokens) (fun _ _ _ => True) where
  engineCalls _ := ⟨fun _ _ _ => id, fun _ _ _ _ => id, fun _ _ _ => id, fun _ _ _ _ => id,
    fun _ _ _ => id⟩
  construct _ _ := ⟨fun _ => id, fun _ _ _ => id⟩
  next _ := ⟨fun _ => id, fun _ _ _ => id⟩
  remove _ _ := ⟨fun _ => id, fun _ _ _ => id⟩
  setActiveBatchBytes := by
    intro v w n h
    have hreported : VlmStores.Keyed { w with vlmBatchBytes := n } := h
    exact hreported.enforce
  remember := by
    intro g prompts responses response promptCache tokens generated key value w _ _ _ hkey h _
    rw [VlmStores.caches]
    dsimp only
    cases hstored : w.apc.remember model tokens value key with
    | none => exact h
    | some apc =>
        refine VlmStores.Keyed.enforce fun entry hentry => ?_
        rcases (PromptCacheStore.remember_eq_some hstored).1 entry hentry with rfl | hold
        · exact hkey
        · exact h entry hold
  asks := by
    intro v w w' hasks
    refine ⟨fun h => ?_, fun _ => id⟩
    induction hasks with
    | refl => exact h
    | visionGet key signature _ ih => exact ih
    | lookup tokens key _ ih => exact ih
  prepares := by
    intro v w job w' hprepares h
    refine ⟨?_, fun _ => hprepares.key, fun _ => id⟩
    have hfeatures : (featuresFor engine (VlmStores.caches model vision apcManager) job w).2.Keyed :=
      keyed_features engine model vision apcManager h job
    have hfound : ((VlmStores.caches model vision apcManager).lookup job.fullPromptTokens
      job.apcCacheKey (featuresFor engine (VlmStores.caches model vision apcManager)
        job w).2).2.Keyed := hfeatures
    rw [hprepares.after]
    dsimp only
    split
    · exact keyed_visionPut hfound _ _ _
    · exact hfound
  insert h _ := h
  inserted _ hready _ _ := ⟨fun entry hentry => hready _ (List.of_mem_zip hentry).1,
    fun _ _ _ _ => id⟩
  refused _ _ _ _ := id

theorem apc_featuresFor (job : ScheduledVlmRequest ρ F κ ξ) (w : VlmStores κ υ) :
    (featuresFor engine (VlmStores.caches model vision apcManager) job w).2.apc = w.apc := by
  rw [featuresFor]
  split
  · rfl
  · rfl

/-- A prompt is cached whole, or not at all. -/
theorem cachedPrompt_eq (h : w.Keyed) {job : ScheduledVlmRequest ρ F κ ξ} {w' : VlmStores κ υ}
    (hprepares : PreparesFrom engine (VlmStores.caches model vision apcManager) w job w') :
    job.cachedPrompt = (w.apc.entries.get? (job.apcCacheKey, job.fullPromptTokens)).map
      fun cached => ⟨job.fullPromptTokens, model.deepcopy w.apc.copies cached.promptCache,
        cached.cacheBytes, .exact⟩ := by
  have hlookup := (keyed_features engine model vision apcManager h job).lookup model hprepares.key
  rw [apc_featuresFor] at hlookup
  rw [← hlookup, hprepares.cached]
  show ((featuresFor engine (VlmStores.caches model vision apcManager) job w).2.apc.lookup model
    job.fullPromptTokens job.apcCacheKey).1 = _
  rw [apc_featuresFor]

variable [DecidableEq ρ] [DecidableEq F]

/-- A generator whose responses have the prompt cache. -/
def rememberingVlm : VlmGenerator ℕ ℕ Unit Unit where
  construct _ g := (.ok (), g)
  next g := (.ok ([], [⟨0, some 5, [], some "stop", some (), some [1, 5], none, none, none⟩]), g)
  insert inserts g := (.ok (List.range' g inserts.length), g + inserts.length)
  remove _ g := (.ok (), g)
  promptCacheNbytes _ := 0

/-- Prompt caches of one byte. -/
def unitCaches : PromptCacheModel Unit where
  nbytes _ := 1
  isEmpty _ := false
  trim _ _ := some ()
  deepcopy _ _ := ()

/-- A cache of features that holds nothing. -/
def noFeatures : VisionFeatureCache Unit Unit Unit where
  get _ v := (none, v)
  put _ _ v := v
  length _ := 0
  contains _ _ := false
  internal _ := none
  pop _ v := v
  nbytes _ := 0

end VlmScheduler
end MlxRuntime
