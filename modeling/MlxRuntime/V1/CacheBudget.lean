import Mathlib.Algebra.BigOperators.Group.List.Basic
import Mathlib.Algebra.GroupWithZero.Nat
import Mathlib.Algebra.Order.BigOperators.Group.List
import MlxRuntime.Lib.Run
import MlxRuntime.V1.TextScheduler
import MlxRuntime.V1.VlmReuse

/-!
# The budget of the stored caches

A worker that serves text and pictures has one `CacheBudgetManager`.  The store of the VLM's prompt
caches and its feature cache are registered with it, the store of the text engine is not.

## Main definitions

* `PromptCacheStore.Summed`, `VlmStores.Summed` — the bytes that are kept are those of the entries.
* `VlmStores.Settled` — the bytes are within the target, or nothing can be evicted.
* `LoopStores`, `LoopStores.use` — the three stores of a worker, and what is done with them.
* `LoopStores.Within` — the stored and the active bytes are within the budget, or all is empty.
* `LoopStores.Fits` — there is no text cache, or all fits without an eviction.
* `LoopStores.within_of_fits` — the budget is kept as long as this holds.
-/

namespace MlxRuntime

/-! ## One store -/

/-- What popping a key takes from a sum over the entries. -/
theorem Dict.sum_map_pop {α β : Type} [DecidableEq α] {d : Dict α β} {f : α × β → ℕ} {k : α} {v : β}
    (h : d.get? k = some v) :
    (d.entries.map f).sum = f (k, v) + ((d.pop k).entries.map f).sum := by
  obtain ⟨l, l', hentries, hpop⟩ := exists_entries_of_get? h
  rw [hentries, hpop, List.map_append, List.map_cons, List.sum_append, List.sum_cons,
    List.map_append, List.sum_append]
  omega

/-- Popping the first key leaves the rest. -/
theorem Dict.entries_pop_head {α β : Type} [DecidableEq α] {d : Dict α β} {e : α × β}
    {rest : List (α × β)} (h : d.entries = e :: rest) : (d.pop e.1).entries = rest := by
  have hnodup := d.nodup
  rw [h, List.map_cons, List.nodup_cons] at hnodup
  change d.entries.filter (fun e' => e'.1 ≠ e.1) = rest
  rw [h, List.filter_cons_of_neg (by simp)]
  refine List.filter_eq_self.mpr fun e' he' => ?_
  have hne : e'.1 ≠ e.1 := fun heq => hnodup.1 (heq ▸ List.mem_map_of_mem he')
  simpa using hne

namespace PromptCacheStore

variable {ν κ : Type} [DecidableEq ν] {model : PromptCacheModel κ} {s s' : PromptCacheStore ν κ}

/-- The bytes of the entries. -/
def entryBytes (s : PromptCacheStore ν κ) : ℕ :=
  (s.entries.entries.map fun entry => entry.2.cacheBytes).sum

/-- The bytes that are kept are those of the entries. -/
def Summed (s : PromptCacheStore ν κ) : Prop := s.totalBytes = s.entryBytes

/-- What an eviction does. -/
theorem evictOldest_eq_some (h : s.evictOldest = some s') :
    ∃ oldest rest, s.entries.entries = oldest :: rest ∧ s'.entries.entries = rest ∧
      s'.totalBytes = s.totalBytes - oldest.2.cacheBytes ∧ s'.maxEntries = s.maxEntries ∧
      s'.maxBytes = s.maxBytes := by
  obtain ⟨oldest, holdest, rfl⟩ := Option.map_eq_some_iff.mp h
  obtain ⟨rest, hentries⟩ := List.head?_eq_some_iff.mp holdest
  exact ⟨oldest, rest, hentries, Dict.entries_pop_head hentries, rfl, rfl, rfl⟩

theorem evictOldest_eq_none : s.evictOldest = none ↔ s.entries.entries = [] := by
  rw [evictOldest, Option.map_eq_none_iff, List.head?_eq_none_iff]

/-- An eviction takes the bytes of its entry away. -/
theorem Summed.evictOldest (h : s.Summed) (hevict : s.evictOldest = some s') :
    s'.Summed ∧ s'.totalBytes ≤ s.totalBytes := by
  obtain ⟨oldest, rest, hentries, hrest, htotal, -, -⟩ := evictOldest_eq_some hevict
  rw [Summed, entryBytes, hentries, List.map_cons, List.sum_cons] at h
  refine ⟨?_, by rw [htotal]; exact Nat.sub_le _ _⟩
  rw [Summed, entryBytes, hrest, htotal, h]
  omega

/-- The loop at the end of `remember` keeps the sum, and stops within the limits. -/
theorem Summed.evictToLimits {rounds : ℕ} (h : s.Summed)
    (hrounds : s.entries.entries.length ≤ rounds) :
    (evictToLimits rounds s).Summed ∧ ¬ (evictToLimits rounds s).OverLimits := by
  induction rounds generalizing s with
  | zero =>
    have hnil := List.length_eq_zero_iff.mp (Nat.le_zero.mp hrounds)
    refine ⟨h, ?_⟩
    rw [Summed, entryBytes, hnil] at h
    rw [PromptCacheStore.evictToLimits, OverLimits, h, Dict.keys, hnil]
    simp
  | succ rounds ih =>
    rw [PromptCacheStore.evictToLimits]
    split
    case isFalse hwithin => exact ⟨h, hwithin⟩
    case isTrue hover =>
      cases hevict : s.evictOldest with
      | none =>
        have hnil := evictOldest_eq_none.mp hevict
        rw [Summed, entryBytes, hnil] at h
        rw [OverLimits, h, Dict.keys, hnil] at hover
        simp at hover
      | some s' =>
        obtain ⟨oldest, rest, hentries, hrest, -⟩ := evictOldest_eq_some hevict
        refine ih (h.evictOldest hevict).1 ?_
        rw [hentries, List.length_cons] at hrounds
        rw [Option.getD_some, hrest]
        exact Nat.le_of_succ_le_succ hrounds

/-- The store while a prompt cache is remembered, before the oldest entries leave. -/
def added (model : PromptCacheModel κ) (sequenceTokens : List Token) (promptCache : κ)
    (cacheKey : ν) (s : PromptCacheStore ν κ) : PromptCacheStore ν κ :=
  let key := (cacheKey, sequenceTokens)
  let freed := ((s.entries.get? key).map CachedPrompt.cacheBytes).getD 0
  { s with
    entries := (s.entries.pop key).set key
      ⟨sequenceTokens, model.deepcopy s.copies promptCache, model.nbytes promptCache, .exact⟩
    totalBytes := s.totalBytes - freed + model.nbytes promptCache
    copies := s.copies + 1 }

theorem remember_eq_added {sequenceTokens : List Token} {promptCache : κ} {cacheKey : ν}
    (h : s.remember model sequenceTokens promptCache cacheKey = some s') :
    s' = (s.added model sequenceTokens promptCache cacheKey).evictToLimits
      (s.added model sequenceTokens promptCache cacheKey).entries.keys.length := by
  rw [remember] at h
  split at h
  · cases h
  · exact (Option.some.inj h).symm

theorem Summed.added (h : s.Summed) (sequenceTokens : List Token) (promptCache : κ)
    (cacheKey : ν) : (s.added model sequenceTokens promptCache cacheKey).Summed := by
  have hnew : (cacheKey, sequenceTokens) ∉ (s.entries.pop (cacheKey, sequenceTokens)).keys :=
    fun hmem => (Dict.mem_keys_pop.mp hmem).1 rfl
  rw [Summed, entryBytes] at h ⊢
  rw [PromptCacheStore.added]
  dsimp only
  rw [Dict.entries_set_of_notMem hnew, List.map_append, List.sum_append, List.map_singleton,
    List.sum_singleton]
  cases hget : s.entries.get? (cacheKey, sequenceTokens) with
  | none =>
    rw [Dict.pop_of_notMem (Dict.get?_eq_none.mp hget), ← h, Option.map_none, Option.getD_none,
      Nat.sub_zero]
  | some cached =>
    have hpop := Dict.sum_map_pop (f := fun entry => entry.2.cacheBytes) hget
    rw [h, hpop, Option.map_some, Option.getD_some]
    dsimp only
    omega

/-- After `remember` the bytes are those of the entries, and within the limits. -/
theorem Summed.remember (h : s.Summed) {sequenceTokens : List Token} {promptCache : κ}
    {cacheKey : ν} (hremember : s.remember model sequenceTokens promptCache cacheKey = some s') :
    s'.Summed ∧ ¬ s'.OverLimits := by
  rw [remember_eq_added hremember]
  exact (h.added sequenceTokens promptCache cacheKey).evictToLimits (by
    rw [Dict.keys, List.length_map])

/-- The store keeps within its limits when an entry leaves. -/
theorem not_overLimits_evictOldest (h : ¬ s.OverLimits) (hevict : s.evictOldest = some s') :
    ¬ s'.OverLimits := by
  obtain ⟨oldest, rest, hentries, hrest, htotal, hmaxEntries, hmaxBytes⟩ :=
    evictOldest_eq_some hevict
  rw [OverLimits, Dict.keys, hentries, List.map_cons, List.length_cons] at h
  rw [OverLimits, Dict.keys, hrest, htotal, hmaxEntries, hmaxBytes]
  omega

end PromptCacheStore

/-! ## The feature cache -/

/-- A feature cache of the library is an ordered dictionary: a lookup may move an entry, a new entry
may take the place of others, and what cannot be kept changes nothing. -/
structure VisionFeatureCache.Ordered {υ κ ξ : Type} (vision : VisionFeatureCache υ κ ξ)
    (order : υ → List (String × VisionCacheSnapshot κ ξ)) : Prop where
  internal : ∀ cache, vision.internal cache = some (order cache)
  get : ∀ key cache, (order (vision.get key cache).2).Perm (order cache)
  put : ∀ key new cache, ∀ entry ∈ order (vision.put key new cache),
    entry = (key, new) ∨ entry ∈ order cache
  put_absent : ∀ key new cache, vision.contains key (vision.put key new cache) = false →
    order (vision.put key new cache) = order cache
  pop : ∀ key cache, order (vision.pop key cache) = (order cache).filter fun entry => entry.1 ≠ key

namespace VlmVisionFeatureCache

variable {υ κ ξ : Type} {vision : VisionFeatureCache υ κ ξ}
  {order : υ → List (String × VisionCacheSnapshot κ ξ)} {v v' : VlmVisionFeatureCache υ}

/-- The bytes of the entries. -/
def entryBytes (order : υ → List (String × VisionCacheSnapshot κ ξ))
    (v : VlmVisionFeatureCache υ) : ℕ :=
  ((order v.cache).map fun entry => entry.2.cacheBytes).sum

/-- The bytes that are kept are those of the entries, and there is no entry without any. -/
structure Summed (order : υ → List (String × VisionCacheSnapshot κ ξ))
    (v : VlmVisionFeatureCache υ) : Prop where
  bytes : v.bytes = v.entryBytes order
  positive : ∀ entry ∈ order v.cache, 0 < entry.2.cacheBytes

variable (hordered : vision.Ordered order)
include hordered

theorem bytes_recomputeBytes (v : VlmVisionFeatureCache υ) :
    (recomputeBytes vision v).bytes = v.entryBytes order := by
  rw [recomputeBytes, hordered.internal]
  rfl

theorem Summed.get (h : v.Summed order) (cacheKey promptSignature : String) :
    (v.get vision cacheKey promptSignature).2.Summed order ∧
      (v.get vision cacheKey promptSignature).2.bytes = v.bytes := by
  have hperm := hordered.get cacheKey v.cache
  have hbytes : (v.get vision cacheKey promptSignature).2.bytes = v.bytes := by
    rw [VlmVisionFeatureCache.get]
    dsimp only
    split <;> rfl
  refine ⟨⟨?_, ?_⟩, hbytes⟩
  · rw [hbytes, h.bytes, entryBytes, entryBytes, cache_get]
    exact ((hperm.map _).sum_eq).symm
  · rw [cache_get]
    exact fun entry hentry => h.positive entry (hperm.mem_iff.mp hentry)

/-- What an eviction does. -/
theorem Summed.evictOldest (h : v.Summed order) (hevict : v.evictOldest vision = some v') :
    v'.Summed order ∧ v'.bytes ≤ v.bytes ∧
      (order v'.cache).length < (order v.cache).length := by
  rw [VlmVisionFeatureCache.evictOldest, hordered.internal, Option.bind_some] at hevict
  obtain ⟨oldest, holdest, rfl⟩ := Option.map_eq_some_iff.mp hevict
  obtain ⟨rest, horder⟩ := List.head?_eq_some_iff.mp holdest
  have hpop := hordered.pop oldest.1 v.cache
  have hsub : (order (vision.pop oldest.1 v.cache)).Sublist (order v.cache) := by
    rw [hpop]
    exact List.filter_sublist
  refine ⟨⟨?_, ?_⟩, ?_, ?_⟩
  · exact bytes_recomputeBytes hordered _
  · exact fun entry hentry => h.positive entry (hsub.subset hentry)
  · rw [bytes_recomputeBytes hordered, h.bytes]
    exact (hsub.map fun entry => entry.2.cacheBytes).sum_le_sum fun _ _ => Nat.zero_le _
  · change (order (vision.pop oldest.1 v.cache)).length < _
    rw [hpop, horder, List.filter_cons_of_neg (by simp), List.length_cons]
    exact Nat.lt_succ_of_le (List.length_filter_le _ _)

theorem evictOldest_eq_none : v.evictOldest vision = none ↔ order v.cache = [] := by
  rw [VlmVisionFeatureCache.evictOldest, hordered.internal, Option.bind_some,
    Option.map_eq_none_iff, List.head?_eq_none_iff]

theorem Summed.put (h : v.Summed order) (cacheKey promptSignature : String)
    (promptKwargs : PromptKwargs κ ξ) :
    (v.put vision cacheKey promptSignature promptKwargs).2.Summed order := by
  rw [VlmVisionFeatureCache.put]
  dsimp only
  split
  case isTrue => exact h
  case isFalse hbytes =>
    rw [not_or] at hbytes
    have hpositive : ∀ entry ∈ order (vision.put cacheKey
        ⟨promptSignature, promptKwargs, vision.nbytes promptKwargs.inputs⟩ v.cache),
        0 < entry.2.cacheBytes := by
      intro entry hentry
      rcases hordered.put _ _ _ entry hentry with rfl | hold
      · exact Nat.pos_of_ne_zero hbytes.1
      · exact h.positive entry hold
    split
    case isTrue habsent =>
      have hsame := hordered.put_absent cacheKey
        ⟨promptSignature, promptKwargs, vision.nbytes promptKwargs.inputs⟩ v.cache
        (Bool.eq_false_iff.mpr habsent.2)
      refine ⟨?_, hpositive⟩
      rw [entryBytes]
      dsimp only
      rw [hsame]
      exact h.bytes
    case isFalse => exact ⟨bytes_recomputeBytes hordered _, hpositive⟩

/-- When nothing is stored, nothing changes. -/
theorem put_eq_none {cacheKey promptSignature : String} {promptKwargs : PromptKwargs κ ξ}
    (h : v.put vision cacheKey promptSignature promptKwargs = (none, v')) :
    v'.bytes = v.bytes ∧ order v'.cache = order v.cache := by
  rw [VlmVisionFeatureCache.put] at h
  dsimp only at h
  split at h
  case isTrue =>
    cases h
    exact ⟨rfl, rfl⟩
  case isFalse =>
    split at h
    case isTrue habsent =>
      cases h
      exact ⟨rfl, hordered.put_absent _ _ _ (Bool.eq_false_iff.mpr habsent.2)⟩
    case isFalse => cases h

end VlmVisionFeatureCache

/-! ## The budget -/

namespace VlmStores

variable {κ υ ξ : Type} {vision : VisionFeatureCache υ κ ξ}
  {order : υ → List (String × VisionCacheSnapshot κ ξ)} {w w' w'' : VlmStores κ υ}

/-- The bytes that are kept are those of the entries, and the store is within its limits. -/
structure Summed (order : υ → List (String × VisionCacheSnapshot κ ξ)) (w : VlmStores κ υ) :
    Prop where
  apc : w.apc.Summed
  limits : ¬ w.apc.OverLimits
  vision : w.vision.Summed order

/-- The bytes are within the target, or nothing can be evicted. -/
def Settled (order : υ → List (String × VisionCacheSnapshot κ ξ)) (w : VlmStores κ υ) : Prop :=
  w.storedCacheBytes ≤ w.storedCacheTargetBytes ∨
    w.apc.entries.entries = [] ∧ order w.vision.cache = []

/-- Nothing was added. -/
structure Shrinks (order : υ → List (String × VisionCacheSnapshot κ ξ)) (w w' : VlmStores κ υ) :
    Prop where
  totalBudgetBytes : w'.totalBudgetBytes = w.totalBudgetBytes
  textBatchBytes : w'.textBatchBytes = w.textBatchBytes
  vlmBatchBytes : w'.vlmBatchBytes = w.vlmBatchBytes
  apc : ∀ entry ∈ w'.apc.entries.entries, entry ∈ w.apc.entries.entries
  vision : order w.vision.cache = [] → order w'.vision.cache = []
  storedCacheBytes : w'.storedCacheBytes ≤ w.storedCacheBytes

theorem Shrinks.refl (w : VlmStores κ υ) : Shrinks order w w :=
  ⟨rfl, rfl, rfl, fun _ => id, id, Nat.le_refl _⟩

theorem Shrinks.trans (h : Shrinks order w w') (h' : Shrinks order w' w'') :
    Shrinks order w w'' :=
  ⟨h'.totalBudgetBytes.trans h.totalBudgetBytes, h'.textBatchBytes.trans h.textBatchBytes,
    h'.vlmBatchBytes.trans h.vlmBatchBytes, fun entry hentry => h.apc entry (h'.apc entry hentry),
    fun hnil => h'.vision (h.vision hnil), Nat.le_trans h'.storedCacheBytes h.storedCacheBytes⟩

/-- The entries that can leave. -/
def size (order : υ → List (String × VisionCacheSnapshot κ ξ)) (w : VlmStores κ υ) : ℕ :=
  w.apc.entries.entries.length + (order w.vision.cache).length

theorem Summed.evictPrompt (h : w.Summed order) (hevict : w.evictPrompt = some w') :
    w'.Summed order ∧ Shrinks order w w' ∧ w'.size order < w.size order := by
  obtain ⟨apc, hapc, rfl⟩ := Option.map_eq_some_iff.mp hevict
  obtain ⟨hsummed, hbytes⟩ := h.apc.evictOldest hapc
  obtain ⟨oldest, rest, hentries, hrest, -⟩ := PromptCacheStore.evictOldest_eq_some hapc
  refine ⟨⟨hsummed, PromptCacheStore.not_overLimits_evictOldest h.limits hapc, h.vision⟩,
    ⟨rfl, rfl, rfl, (PromptCacheStore.evicts_evictOldest hapc).entries, id,
      Nat.add_le_add_right hbytes _⟩, ?_⟩
  rw [size, size, hentries, List.length_cons]
  dsimp only
  rw [hrest]
  omega

theorem evictPrompt_eq_none : w.evictPrompt = none ↔ w.apc.entries.entries = [] := by
  rw [VlmStores.evictPrompt, Option.map_eq_none_iff, PromptCacheStore.evictOldest_eq_none]

variable (hordered : vision.Ordered order)
include hordered

theorem Summed.evictVision (h : w.Summed order) (hevict : w.evictVision vision = some w') :
    w'.Summed order ∧ Shrinks order w w' ∧ w'.size order < w.size order := by
  obtain ⟨features, hfeatures, rfl⟩ := Option.map_eq_some_iff.mp hevict
  obtain ⟨hsummed, hbytes, hlength⟩ := h.vision.evictOldest hordered hfeatures
  refine ⟨⟨h.apc, h.limits, hsummed⟩, ⟨rfl, rfl, rfl, fun _ => id, fun hnil => ?_,
    Nat.add_le_add_left hbytes _⟩, Nat.add_lt_add_left hlength _⟩
  rw [hnil] at hlength
  exact absurd hlength (Nat.not_lt_zero _)

theorem evictVision_eq_none : w.evictVision vision = none ↔ order w.vision.cache = [] := by
  rw [VlmStores.evictVision, Option.map_eq_none_iff,
    VlmVisionFeatureCache.evictOldest_eq_none hordered]

/-- The loop of `enforce` ends: with as many rounds as there are entries it settles the stores. -/
theorem Summed.enforceRounds {rounds : ℕ} (h : w.Summed order) (hrounds : w.size order ≤ rounds) :
    (enforceRounds vision rounds w).Summed order ∧ (enforceRounds vision rounds w).Settled order ∧
      Shrinks order w (enforceRounds vision rounds w) := by
  induction rounds generalizing w with
  | zero =>
    rw [size, Nat.le_zero, Nat.add_eq_zero_iff, List.length_eq_zero_iff,
      List.length_eq_zero_iff] at hrounds
    exact ⟨h, .inr hrounds, .refl w⟩
  | succ rounds ih =>
    rw [VlmStores.enforceRounds]
    dsimp only
    split
    case isTrue hfits => exact ⟨h, .inl (of_decide_eq_true hfits), .refl w⟩
    case isFalse hexceeds =>
      cases hprompt : w.evictPrompt with
      | none =>
        dsimp only
        cases hvision : w.evictVision vision with
        | none =>
          exact ⟨h, .inr ⟨evictPrompt_eq_none.mp hprompt,
            (evictVision_eq_none hordered).mp hvision⟩, .refl w⟩
        | some w₂ =>
          obtain ⟨hsummed, hshrinks, hsize⟩ := h.evictVision hordered hvision
          obtain ⟨hsummed', hsettled, hshrinks'⟩ := ih hsummed (by omega)
          exact ⟨hsummed', hsettled, hshrinks.trans hshrinks'⟩
      | some w₁ =>
        obtain ⟨hsummed, hshrinks, hsize⟩ := h.evictPrompt hprompt
        dsimp only
        split
        case isTrue hfits => exact ⟨hsummed, .inl (of_decide_eq_true hfits), hshrinks⟩
        case isFalse =>
          cases hvision : w₁.evictVision vision with
          | none =>
            obtain ⟨hsummed', hsettled, hshrinks'⟩ := ih hsummed (by omega)
            exact ⟨hsummed', hsettled, hshrinks.trans hshrinks'⟩
          | some w₂ =>
            obtain ⟨hsummed₂, hshrinks₂, hsize₂⟩ := hsummed.evictVision hordered hvision
            obtain ⟨hsummed', hsettled, hshrinks'⟩ := ih hsummed₂ (by omega)
            exact ⟨hsummed', hsettled, (hshrinks.trans hshrinks₂).trans hshrinks'⟩

/-- A further round changes nothing. -/
theorem Summed.enforceRounds_succ {rounds : ℕ} (h : w.Summed order)
    (hrounds : w.size order ≤ rounds) :
    VlmStores.enforceRounds vision (rounds + 1) w = VlmStores.enforceRounds vision rounds w := by
  induction rounds generalizing w with
  | zero =>
    rw [size, Nat.le_zero, Nat.add_eq_zero_iff, List.length_eq_zero_iff,
      List.length_eq_zero_iff] at hrounds
    have hprompt := evictPrompt_eq_none.mpr hrounds.1
    have hvision := (evictVision_eq_none hordered).mpr hrounds.2
    rw [VlmStores.enforceRounds, VlmStores.enforceRounds]
    dsimp only
    rw [hprompt, hvision]
    exact ite_self w
  | succ rounds ih =>
    rw [VlmStores.enforceRounds, VlmStores.enforceRounds]
    dsimp only
    split
    case isTrue => rfl
    case isFalse =>
      cases hprompt : w.evictPrompt with
      | none =>
        cases hvision : w.evictVision vision with
        | none => rfl
        | some w₂ =>
          obtain ⟨hsummed, -, hsize⟩ := h.evictVision hordered hvision
          exact ih hsummed (by omega)
      | some w₁ =>
        obtain ⟨hsummed, -, hsize⟩ := h.evictPrompt hprompt
        dsimp only
        split
        case isTrue => rfl
        case isFalse =>
          cases hvision : w₁.evictVision vision with
          | none =>
            rw [Option.getD_none]
            exact ih hsummed (by omega)
          | some w₂ =>
            obtain ⟨hsummed₂, -, hsize₂⟩ := hsummed.evictVision hordered hvision
            rw [Option.getD_some]
            exact ih hsummed₂ (by omega)

theorem enforce_eq_size (w : VlmStores κ υ) :
    enforce vision w = VlmStores.enforceRounds vision (w.size order) w := by
  rw [enforce, Dict.keys, List.length_map, VlmVisionFeatureCache.totalEntries, hordered.internal]
  rfl

/-- `enforce` ends: no further round would change anything. -/
theorem Summed.enforceRounds_eq {rounds : ℕ} (h : w.Summed order)
    (hrounds : w.size order ≤ rounds) :
    VlmStores.enforceRounds vision rounds w = enforce vision w := by
  rw [enforce_eq_size hordered]
  induction rounds, hrounds using Nat.le_induction with
  | base => rfl
  | succ rounds hle ih => rw [h.enforceRounds_succ hordered hle, ih]

/-- What `enforce` does. -/
theorem Summed.enforce (h : w.Summed order) : (enforce vision w).Summed order ∧
    (VlmStores.enforce vision w).Settled order ∧ Shrinks order w (VlmStores.enforce vision w) := by
  rw [enforce_eq_size hordered]
  exact h.enforceRounds hordered (Nat.le_refl _)

end VlmStores
/-! ## The stores of a worker -/

/-- The settings of the caches. -/
structure CacheConfig where
  textCacheMaxEntries : ℕ := 32
  textCacheBudgetBytes : ℕ := 8 * 1024 * 1024
  vlmApcCacheMaxEntries : ℕ := 32
  vlmApcCacheBudgetBytes : ℕ := 8 * 1024 * 1024
  visionFeatureCacheMaxEntries : ℕ := 20
  visionFeatureCacheBudgetBytes : ℕ := 8 * 1024 * 1024

/-- The store of the text engine, which has no budget, and those of the VLM. -/
structure LoopStores (κ τ υ : Type) where
  text : PromptCacheStore Unit τ
  managed : VlmStores κ υ

/-- What is done with the stores. -/
inductive StoreUse (κ τ ξ : Type)
  | lookupText (promptTokens : List Token)
  | rememberText (sequenceTokens : List Token) (promptCache : τ)
  | resetText (clearCache resetCounters : Bool)
  | lookupPrompt (promptTokens : List Token) (cacheKey : ApcCacheKey)
  | rememberPrompt (sequenceTokens : List Token) (promptCache : κ) (cacheKey : ApcCacheKey)
  | getFeatures (cacheKey promptSignature : String)
  | putFeatures (cacheKey promptSignature : String) (promptKwargs : PromptKwargs κ ξ)
  | vlmBatch (bytes : ℕ)
  | event (event : StoreEvent)

namespace LoopStores

variable {κ τ υ ξ : Type}

/-- The stores that `_run_continuous_batch_loop` starts with. -/
def start (config : CacheConfig) (cache : υ) : LoopStores κ τ υ where
  text :=
    { maxEntries := config.textCacheMaxEntries, maxBytes := config.textCacheBudgetBytes }
  managed := .new config.vlmApcCacheMaxEntries config.vlmApcCacheBudgetBytes
    config.visionFeatureCacheMaxEntries config.visionFeatureCacheBudgetBytes
    (config.textCacheBudgetBytes + config.vlmApcCacheBudgetBytes +
      config.visionFeatureCacheBudgetBytes) cache

variable (textModel : PromptCacheModel τ) (model : PromptCacheModel κ)
  (vision : VisionFeatureCache υ κ ξ)

/-- What the text scheduler is given. -/
def textCaches : PromptCaches (LoopStores κ τ υ) τ where
  lookup promptTokens w :=
    let (found, text) := w.text.lookup textModel promptTokens ()
    (found, { w with text := text })
  remember sequenceTokens promptCache w :=
    { w with text := (w.text.remember textModel sequenceTokens promptCache ()).getD w.text }
  trim := textModel.trim
  entries w := w.text.entries.keys.length
  evictions w := w.text.stats.evictions
  setActiveBatchBytes bytes w := { w with managed := w.managed.apply vision (.textBatch bytes) }

/-- A use of the stores. -/
def use (w : LoopStores κ τ υ) : StoreUse κ τ ξ → LoopStores κ τ υ
  | .lookupText promptTokens => ((textCaches textModel vision).lookup promptTokens w).2
  | .rememberText sequenceTokens promptCache =>
      (textCaches textModel vision).remember sequenceTokens promptCache w
  | .resetText clearCache resetCounters =>
      { w with text := w.text.reset clearCache resetCounters }
  | .lookupPrompt promptTokens cacheKey =>
      { w with
        managed := ((VlmStores.caches model vision false).lookup promptTokens cacheKey w.managed).2 }
  | .rememberPrompt sequenceTokens promptCache cacheKey =>
      { w with
        managed := (VlmStores.caches model vision false).remember sequenceTokens promptCache cacheKey
          w.managed }
  | .getFeatures cacheKey promptSignature =>
      { w with
        managed := ((VlmStores.caches model vision false).visionGet cacheKey promptSignature
          w.managed).2 }
  | .putFeatures cacheKey promptSignature promptKwargs =>
      { w with
        managed := ((VlmStores.caches model vision false).visionPut cacheKey promptSignature
          promptKwargs w.managed).2 }
  | .vlmBatch bytes =>
      { w with
        managed := (VlmStores.caches model vision false).setActiveBatchBytes bytes w.managed }
  | .event event => { w with managed := w.managed.apply vision event }

/-- The stores while they are used, before the budget makes entries leave. -/
def charged (w : LoopStores κ τ υ) : StoreUse κ τ ξ → LoopStores κ τ υ
  | .rememberPrompt sequenceTokens promptCache cacheKey =>
      { w with
        managed.apc :=
          (w.managed.apc.remember model sequenceTokens promptCache cacheKey).getD w.managed.apc }
  | .putFeatures cacheKey promptSignature promptKwargs =>
      { w with
        managed.vision :=
          (w.managed.vision.put vision cacheKey promptSignature promptKwargs).2 }
  | .vlmBatch bytes => { w with managed.vlmBatchBytes := bytes }
  | .event (.textBatch bytes) => { w with managed.textBatchBytes := bytes }
  | other => w.use textModel model vision other

/-- The stored bytes, and those that are reported for the batches. -/
def bytes (w : LoopStores κ τ υ) : ℕ :=
  w.text.totalBytes + w.managed.storedCacheBytes +
    (w.managed.textBatchBytes + w.managed.vlmBatchBytes)

/-- There is no text cache, or all fits without an eviction; and no prompt cache of the VLM is
without bytes. -/
def Fits (w : LoopStores κ τ υ) (use : StoreUse κ τ ξ) : Prop :=
  ((w.charged textModel model vision use).text.entries.entries = [] ∨
    (w.charged textModel model vision use).bytes ≤ w.managed.totalBudgetBytes) ∧
  match use with
  | .rememberPrompt _ promptCache _ => 0 < model.nbytes promptCache
  | _ => True

/-- All stored and active bytes are within the budget, or all stores are empty. -/
def Within (order : υ → List (String × VisionCacheSnapshot κ ξ)) (w : LoopStores κ τ υ) : Prop :=
  w.bytes ≤ w.managed.totalBudgetBytes ∨ w.text.entries.entries = [] ∧
    w.managed.apc.entries.entries = [] ∧ order w.managed.vision.cache = []

/-! ## What a use keeps -/

/-- In every store the bytes that are kept are those of the entries, and the stores of prompt caches
are within their limits. -/
structure Summed (order : υ → List (String × VisionCacheSnapshot κ ξ)) (w : LoopStores κ τ υ) :
    Prop where
  text : w.text.Summed
  limits : ¬ w.text.OverLimits
  managed : w.managed.Summed order

/-- No prompt cache of the VLM is without bytes. -/
def Positive (w : LoopStores κ τ υ) : Prop :=
  ∀ entry ∈ w.managed.apc.entries.entries, 0 < entry.2.cacheBytes

variable {textModel model vision} {order : υ → List (String × VisionCacheSnapshot κ ξ)}
  {w w' : LoopStores κ τ υ}

variable (textModel model vision) in
/-- The use is charged, and then the budget makes entries leave, or it does not. -/
theorem use_eq_charged (w : LoopStores κ τ υ) (use : StoreUse κ τ ξ) :
    w.use textModel model vision use = w.charged textModel model vision use ∨
      w.use textModel model vision use =
        { w.charged textModel model vision use with
          managed := VlmStores.enforce vision (w.charged textModel model vision use).managed } := by
  cases use with
  | rememberPrompt sequenceTokens promptCache cacheKey =>
    rw [LoopStores.use, charged, VlmStores.caches]
    dsimp only
    cases w.managed.apc.remember model sequenceTokens promptCache cacheKey with
    | none => exact .inl rfl
    | some apc => exact .inr rfl
  | putFeatures cacheKey promptSignature promptKwargs =>
    rw [LoopStores.use, charged, VlmStores.caches]
    dsimp only
    split
    case h_1 heq => exact .inl (by rw [heq])
    case h_2 heq => exact .inr (by rw [heq])
  | vlmBatch bytes => exact .inr rfl
  | event event =>
    cases event with
    | textBatch bytes => exact .inr rfl
    | _ => exact .inl rfl
  | _ => exact .inl rfl

theorem summed_reset {ν κ : Type} [DecidableEq ν] {s : PromptCacheStore ν κ} (h : s.Summed)
    (hlimits : ¬ s.OverLimits) (clearCache resetCounters : Bool) :
    (s.reset clearCache resetCounters).Summed ∧
      ¬ (s.reset clearCache resetCounters).OverLimits := by
  cases clearCache with
  | false => exact ⟨h, hlimits⟩
  | true => exact ⟨rfl, by simp [PromptCacheStore.OverLimits, PromptCacheStore.reset]⟩

/-- A sum of positive numbers that is zero has no terms. -/
theorem eq_nil_of_sum {α : Type} {f : α → ℕ} {l : List α} (hpositive : ∀ x ∈ l, 0 < f x)
    (hsum : (l.map f).sum = 0) : l = [] := by
  cases l with
  | nil => rfl
  | cons x l =>
    rw [List.map_cons, List.sum_cons] at hsum
    have := hpositive x List.mem_cons_self
    omega

/-- The budget is kept when nothing is added. -/
theorem Within.of_shrinks (h : w.Within order) (hbytes : w'.text.totalBytes ≤ w.text.totalBytes)
    (htext : w.text.entries.entries = [] → w'.text.entries.entries = [])
    (hshrinks : w.managed.Shrinks order w'.managed) : w'.Within order := by
  rcases h with hle | ⟨hnil, hapc, hvision⟩
  · refine .inl ?_
    rw [bytes] at hle ⊢
    rw [hshrinks.totalBudgetBytes, hshrinks.textBatchBytes, hshrinks.vlmBatchBytes]
    have := hshrinks.storedCacheBytes
    omega
  · refine .inr ⟨htext hnil, List.eq_nil_iff_forall_not_mem.mpr fun entry hentry => ?_,
      hshrinks.vision hvision⟩
    have hmem := hshrinks.apc entry hentry
    rw [hapc] at hmem
    exact List.not_mem_nil hmem

variable (hordered : vision.Ordered order)
include hordered

theorem Summed.charged (h : w.Summed order) (use : StoreUse κ τ ξ) :
    (w.charged textModel model vision use).Summed order := by
  obtain ⟨htext, hlimits, hmanaged⟩ := h
  cases use with
  | lookupText promptTokens => exact ⟨htext, hlimits, hmanaged⟩
  | rememberText sequenceTokens promptCache =>
    change Summed order { w with
      text := (w.text.remember textModel sequenceTokens promptCache ()).getD w.text }
    cases hremember : w.text.remember textModel sequenceTokens promptCache () with
    | none => exact ⟨htext, hlimits, hmanaged⟩
    | some text =>
      obtain ⟨hsummed, hwithin⟩ := htext.remember hremember
      exact ⟨hsummed, hwithin, hmanaged⟩
  | resetText clearCache resetCounters =>
    obtain ⟨hsummed, hwithin⟩ := summed_reset htext hlimits clearCache resetCounters
    exact ⟨hsummed, hwithin, hmanaged⟩
  | lookupPrompt promptTokens cacheKey =>
    exact ⟨htext, hlimits, hmanaged.apc, hmanaged.limits, hmanaged.vision⟩
  | rememberPrompt sequenceTokens promptCache cacheKey =>
    rw [LoopStores.charged]
    cases hremember : w.managed.apc.remember model sequenceTokens promptCache cacheKey with
    | none => exact ⟨htext, hlimits, hmanaged.apc, hmanaged.limits, hmanaged.vision⟩
    | some apc =>
      obtain ⟨hsummed, hwithin⟩ := hmanaged.apc.remember hremember
      exact ⟨htext, hlimits, hsummed, hwithin, hmanaged.vision⟩
  | getFeatures cacheKey promptSignature =>
    exact ⟨htext, hlimits, hmanaged.apc, hmanaged.limits,
      (hmanaged.vision.get hordered cacheKey promptSignature).1⟩
  | putFeatures cacheKey promptSignature promptKwargs =>
    exact ⟨htext, hlimits, hmanaged.apc, hmanaged.limits,
      hmanaged.vision.put hordered cacheKey promptSignature promptKwargs⟩
  | vlmBatch bytes => exact ⟨htext, hlimits, hmanaged.apc, hmanaged.limits, hmanaged.vision⟩
  | event event =>
    cases event with
    | evictPrompt =>
      refine ⟨htext, hlimits, ?_⟩
      change ((w.managed.evictPrompt).getD w.managed).Summed order
      cases hevict : w.managed.evictPrompt with
      | none => exact hmanaged
      | some managed => exact (hmanaged.evictPrompt hevict).1
    | evictVision =>
      refine ⟨htext, hlimits, ?_⟩
      change ((w.managed.evictVision vision).getD w.managed).Summed order
      cases hevict : w.managed.evictVision vision with
      | none => exact hmanaged
      | some managed => exact (hmanaged.evictVision hordered hevict).1
    | textBatch bytes => exact ⟨htext, hlimits, hmanaged.apc, hmanaged.limits, hmanaged.vision⟩
    | reset clearCache resetCounters =>
      obtain ⟨hsummed, hwithin⟩ :=
        summed_reset hmanaged.apc hmanaged.limits clearCache resetCounters
      exact ⟨htext, hlimits, hsummed, hwithin, hmanaged.vision⟩

/-- Every use keeps the sums, and the limits. -/
theorem Summed.use (h : w.Summed order) (use : StoreUse κ τ ξ) :
    (w.use textModel model vision use).Summed order := by
  have hcharged : (w.charged textModel model vision use).Summed order := h.charged hordered use
  rcases use_eq_charged textModel model vision w use with heq | heq
  · rw [heq]
    exact hcharged
  · rw [heq]
    exact ⟨hcharged.text, hcharged.limits, (hcharged.managed.enforce hordered).1⟩

/-- The budget is kept after `enforce`, when there is no text cache or all fits before. -/
theorem within_enforce (hsummed : w.Summed order) (hpositive : w.Positive)
    (hfits : w.text.entries.entries = [] ∨ w.bytes ≤ w.managed.totalBudgetBytes) :
    Within order { w with managed := VlmStores.enforce vision w.managed } := by
  obtain ⟨hafter, hsettled, hshrinks⟩ := hsummed.managed.enforce hordered
  have hapc := hshrinks.apc
  rcases hfits with hnil | hle
  · have hzero : w.text.totalBytes = 0 := by
      rw [hsummed.text, PromptCacheStore.entryBytes, hnil, List.map_nil, List.sum_nil]
    rcases hsettled with hle | ⟨hempty, hvision⟩
    · rw [VlmStores.storedCacheTargetBytes] at hle
      by_cases hroom : (VlmStores.enforce vision w.managed).textBatchBytes +
          (VlmStores.enforce vision w.managed).vlmBatchBytes ≤
            (VlmStores.enforce vision w.managed).totalBudgetBytes
      · refine .inl ?_
        rw [bytes]
        dsimp only
        omega
      · -- The batches alone exceed the budget, so no byte may be stored.
        have hstored : (VlmStores.enforce vision w.managed).storedCacheBytes = 0 := by omega
        rw [VlmStores.storedCacheBytes, Nat.add_eq_zero_iff] at hstored
        refine .inr ⟨hnil, ?_, ?_⟩
        · refine eq_nil_of_sum (f := fun entry => entry.2.cacheBytes)
            (fun entry hentry => hpositive entry (hapc entry hentry)) ?_
          exact hafter.apc.symm.trans hstored.1
        · exact eq_nil_of_sum hafter.vision.positive (hafter.vision.bytes.symm.trans hstored.2)
    · exact .inr ⟨hnil, hempty, hvision⟩
  · have hwithin : w.Within order := .inl hle
    exact hwithin.of_shrinks (Nat.le_refl _) id hshrinks

omit hordered in
theorem Positive.charged (h : w.Positive) {use : StoreUse κ τ ξ}
    (hfits : w.Fits textModel model vision use) :
    (w.charged textModel model vision use).Positive := by
  cases use with
  | rememberPrompt sequenceTokens promptCache cacheKey =>
    intro entry hentry
    rw [LoopStores.charged] at hentry
    dsimp only at hentry
    cases hremember : w.managed.apc.remember model sequenceTokens promptCache cacheKey with
    | none =>
      rw [hremember] at hentry
      exact h entry hentry
    | some apc =>
      rw [hremember, Option.getD_some] at hentry
      rcases (PromptCacheStore.remember_eq_some hremember).1 entry hentry with rfl | hold
      · exact hfits.2
      · exact h entry hold
  | event event =>
    cases event with
    | evictPrompt =>
      change Positive { w with managed := (w.managed.evictPrompt).getD w.managed }
      cases hevict : w.managed.evictPrompt with
      | none => exact h
      | some managed =>
        obtain ⟨apc, hapc, rfl⟩ := Option.map_eq_some_iff.mp hevict
        exact fun entry hentry => h entry ((PromptCacheStore.evicts_evictOldest hapc).entries entry
          hentry)
    | evictVision =>
      change Positive { w with managed := (w.managed.evictVision vision).getD w.managed }
      cases hevict : w.managed.evictVision vision with
      | none => exact h
      | some managed =>
        obtain ⟨features, -, rfl⟩ := Option.map_eq_some_iff.mp hevict
        exact h
    | textBatch bytes => exact h
    | reset clearCache resetCounters =>
      cases clearCache with
      | false => exact h
      | true => exact fun entry hentry => (List.not_mem_nil hentry).elim
  | _ => exact h

theorem Positive.use (hsummed : w.Summed order) (h : w.Positive) {use : StoreUse κ τ ξ}
    (hfits : w.Fits textModel model vision use) :
    (w.use textModel model vision use).Positive := by
  have hcharged := h.charged hfits
  have hsummed' : (w.charged textModel model vision use).Summed order :=
    hsummed.charged hordered use
  rcases use_eq_charged textModel model vision w use with heq | heq
  · rw [heq]
    exact hcharged
  · rw [heq]
    exact fun entry hentry =>
      hcharged entry ((hsummed'.managed.enforce hordered).2.2.apc entry hentry)

/-- **A use that fits keeps the budget.** -/
theorem Within.use (hsummed : w.Summed order) (hpositive : w.Positive) (h : w.Within order)
    {use : StoreUse κ τ ξ} (hfits : w.Fits textModel model vision use) :
    (w.use textModel model vision use).Within order := by
  have hcharged := hpositive.charged hfits
  have hsummed' : (w.charged textModel model vision use).Summed order :=
    hsummed.charged hordered use
  have henforced := within_enforce hordered hsummed' hcharged
  cases use with
  | lookupText promptTokens => exact h.of_shrinks (Nat.le_refl _) id (.refl _)
  | rememberText sequenceTokens promptCache =>
    rcases hfits.1 with hnil | hle
    · have hzero : (w.use textModel model vision
          (.rememberText sequenceTokens promptCache)).text.totalBytes = 0 := by
        refine hsummed'.text.trans ?_
        rw [PromptCacheStore.entryBytes, hnil, List.map_nil, List.sum_nil]
      exact h.of_shrinks (hzero ▸ Nat.zero_le _) (fun _ => hnil) (.refl _)
    · exact .inl hle
  | resetText clearCache resetCounters =>
    cases clearCache with
    | false => exact h.of_shrinks (Nat.le_refl _) id (.refl _)
    | true => exact h.of_shrinks (Nat.zero_le _) (fun _ => rfl) (.refl _)
  | lookupPrompt promptTokens cacheKey =>
    exact h.of_shrinks (Nat.le_refl _) id ⟨rfl, rfl, rfl, fun _ => id, id, Nat.le_refl _⟩
  | rememberPrompt sequenceTokens promptCache cacheKey =>
    have hbudget := henforced hfits.1
    rw [LoopStores.use, VlmStores.caches]
    rw [LoopStores.charged] at hbudget
    dsimp only at hbudget ⊢
    cases hremember : w.managed.apc.remember model sequenceTokens promptCache cacheKey with
    | none => exact h
    | some apc =>
      rw [hremember] at hbudget
      exact hbudget
  | getFeatures cacheKey promptSignature =>
    have hbytes := (hsummed.managed.vision.get hordered cacheKey promptSignature).2
    refine h.of_shrinks (Nat.le_refl _) id ⟨rfl, rfl, rfl, fun _ => id, fun hnil => ?_, ?_⟩
    · change order (w.managed.vision.get vision cacheKey promptSignature).2.cache = []
      have hperm := hordered.get cacheKey w.managed.vision.cache
      rw [hnil] at hperm
      rw [VlmVisionFeatureCache.cache_get]
      exact hperm.eq_nil
    · exact Nat.add_le_add_left (Nat.le_of_eq hbytes) _
  | putFeatures cacheKey promptSignature promptKwargs =>
    have hbudget := henforced hfits.1
    rw [LoopStores.use, VlmStores.caches]
    rw [LoopStores.charged] at hbudget
    dsimp only at hbudget ⊢
    cases hput : w.managed.vision.put vision cacheKey promptSignature promptKwargs with
    | mk answer features =>
      cases answer with
      | none =>
        obtain ⟨hbytes, hsame⟩ := VlmVisionFeatureCache.put_eq_none hordered hput
        exact h.of_shrinks (Nat.le_refl _) id ⟨rfl, rfl, rfl, fun _ => id, fun hnil =>
          hsame.trans hnil, Nat.add_le_add_left (Nat.le_of_eq hbytes) _⟩
      | some stored =>
        rw [hput] at hbudget
        exact hbudget
  | vlmBatch bytes => exact henforced hfits.1
  | event event =>
    cases event with
    | evictPrompt =>
      refine h.of_shrinks (Nat.le_refl _) id ?_
      change w.managed.Shrinks order (w.managed.evictPrompt.getD w.managed)
      cases hevict : w.managed.evictPrompt with
      | none => exact .refl _
      | some managed => exact (hsummed.managed.evictPrompt hevict).2.1
    | evictVision =>
      refine h.of_shrinks (Nat.le_refl _) id ?_
      change w.managed.Shrinks order ((w.managed.evictVision vision).getD w.managed)
      cases hevict : w.managed.evictVision vision with
      | none => exact .refl _
      | some managed => exact (hsummed.managed.evictVision hordered hevict).2.1
    | textBatch bytes => exact henforced hfits.1
    | reset clearCache resetCounters =>
      cases clearCache with
      | false =>
        exact h.of_shrinks (Nat.le_refl _) id ⟨rfl, rfl, rfl, fun _ => id, id, Nat.le_refl _⟩
      | true =>
        exact h.of_shrinks (Nat.le_refl _) id ⟨rfl, rfl, rfl,
          fun _ hentry => (List.not_mem_nil hentry).elim, id,
          Nat.add_le_add_right (Nat.zero_le _) _⟩

/-- A use, as a step. -/
def step (textModel : PromptCacheModel τ) (model : PromptCacheModel κ)
    (vision : VisionFeatureCache υ κ ξ) (w : LoopStores κ τ υ) (use : StoreUse κ τ ξ) :
    Unit × LoopStores κ τ υ :=
  ((), w.use textModel model vision use)

omit hordered in
theorem summed_start {config : CacheConfig} {cache : υ} (hcache : order cache = []) :
    (start config cache : LoopStores κ τ υ).Summed order := by
  refine ⟨rfl, by simp [start, PromptCacheStore.OverLimits], rfl,
    by simp [start, VlmStores.new, PromptCacheStore.OverLimits], ?_, ?_⟩
  · simp [start, VlmStores.new, VlmVisionFeatureCache.entryBytes, hcache]
  · simp [start, VlmStores.new, hcache]

end LoopStores

/-- Caches that are their sizes. -/
def sizedCaches : PromptCacheModel ℕ where
  nbytes := id
  isEmpty _ := false
  trim promptCache n := some (promptCache - n)
  deepcopy _ promptCache := promptCache

/-- No feature cache. -/
def noFeatures : VisionFeatureCache Unit ℕ Unit where
  get _ _ := (none, ())
  put _ _ _ := ()
  length _ := 0
  contains _ _ := false
  internal _ := some []
  pop _ _ := ()
  nbytes _ := 0

/-- It has no entries. -/
def noEntries (_ : Unit) : List (String × VisionCacheSnapshot ℕ Unit) := []

theorem ordered_noFeatures : noFeatures.Ordered noEntries where
  internal _ := rfl
  get _ _ := .refl []
  put _ _ _ _ h := (List.not_mem_nil h).elim
  put_absent _ _ _ _ := rfl
  pop _ _ := rfl

namespace LoopStores

end LoopStores
end MlxRuntime
