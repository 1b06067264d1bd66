import MlxRuntime.Lib.Dict
import MlxRuntime.V1.Requests

/-!
# Stored prompt caches

`PromptCacheStore` keeps copies of prompt caches under a namespace and the tokens they are for.
A lookup copies the one that serves the most tokens of a prompt, trimmed when it has more.

## Main definitions

* `PromptCacheModel` — what is known of the prompt caches of a model.
* `PromptCacheStore` — the store, oldest entry first.
* `PromptCacheStore.lookup`, `PromptCacheStore.remember`, `PromptCacheStore.evictOldest`,
  `PromptCacheStore.reset` — its methods.
* `PromptCacheStore.mem_remember`, `PromptCacheStore.mem_evictOldest` — what they do to the entries.
-/

namespace MlxRuntime

/-- The prompt caches of a model. -/
structure PromptCacheModel (κ : Type) where
  /-- `_estimate_cache_bytes`. -/
  nbytes : κ → ℕ
  /-- There are no layers. -/
  isEmpty : κ → Bool
  /-- `_trim_cache`: what is left without the last tokens, when they can be dropped. -/
  trim : κ → ℕ → Option κ
  /-- `copy.deepcopy`; the number tells one copy from another. -/
  deepcopy : ℕ → κ → κ

/-- `PromptCacheStoreStats`, the counters. -/
structure PromptCacheStoreStats where
  hits : ℕ := 0
  misses : ℕ := 0
  exactHits : ℕ := 0
  shorterPrefixHits : ℕ := 0
  trimmedLongerPrefixHits : ℕ := 0
  evictions : ℕ := 0
  deriving DecidableEq

/-- The counters after a lookup. -/
def PromptCacheStoreStats.count {κ : Type} (stats : PromptCacheStoreStats) :
    Option (CachedPrompt κ) → PromptCacheStoreStats
  | none => { stats with misses := stats.misses + 1 }
  | some cached =>
      let stats := { stats with hits := stats.hits + 1 }
      match cached.matchKind with
      | .exact => { stats with exactHits := stats.exactHits + 1 }
      | .shorterPrefix => { stats with shorterPrefixHits := stats.shorterPrefixHits + 1 }
      | .trimmedLongerPrefix =>
          { stats with trimmedLongerPrefixHits := stats.trimmedLongerPrefixHits + 1 }

/-- `PromptCacheStore`; `ν` are the namespaces. -/
structure PromptCacheStore (ν κ : Type) where
  maxEntries : ℕ := 32
  maxBytes : ℕ := 8 * 1024 * 1024
  entries : Dict (ν × List Token) (CachedPrompt κ) := .empty
  totalBytes : ℕ := 0
  stats : PromptCacheStoreStats := {}
  /-- The number of copies that were made. -/
  copies : ℕ := 0

/-- The number of tokens that two sequences start with in common. -/
def commonPrefix : List Token → List Token → ℕ
  | token :: tokens, token' :: tokens' =>
      if token = token' then commonPrefix tokens tokens' + 1 else 0
  | _, _ => 0

namespace PromptCacheStore

variable {ν κ : Type} (model : PromptCacheModel κ)

/-- What an entry of the namespace is worth for a prompt. -/
def candidate (copy : ℕ) (promptTokens cachedTokens : List Token) (cached : CachedPrompt κ) :
    Option (CachedPrompt κ) :=
  let common := commonPrefix cachedTokens promptTokens
  if cachedTokens = promptTokens then
    some ⟨promptTokens, model.deepcopy copy cached.promptCache, cached.cacheBytes, .exact⟩
  else if cachedTokens.length < promptTokens.length ∧ common = cachedTokens.length then
    some ⟨cachedTokens, model.deepcopy copy cached.promptCache, cached.cacheBytes, .shorterPrefix⟩
  else
    let reusable := min common (promptTokens.length - 1)
    if reusable = 0 then none
    else
      (model.trim cached.promptCache (cachedTokens.length - reusable)).map fun trimmed =>
        ⟨promptTokens.take reusable, model.deepcopy copy trimmed, model.nbytes trimmed,
          .trimmedLongerPrefix⟩

/-- The candidate that serves more tokens, the first one when neither does. -/
def better : Option (CachedPrompt κ) → Option (CachedPrompt κ) → Option (CachedPrompt κ)
  | best, none => best
  | none, some candidate => some candidate
  | some best, some candidate =>
      if best.tokens.length < candidate.tokens.length then some candidate else some best

variable [DecidableEq ν]

/-- The loop of `lookup`, from the newest entry. -/
def best (copy : ℕ) (promptTokens : List Token) (cacheKey : ν)
    (entries : List ((ν × List Token) × CachedPrompt κ)) : Option (CachedPrompt κ) :=
  entries.foldl (fun found entry =>
    if entry.1.1 ≠ cacheKey then found
    else better found (candidate model copy promptTokens entry.1.2 entry.2)) none

/-- `lookup`. -/
def lookup (promptTokens : List Token) (cacheKey : ν) (s : PromptCacheStore ν κ) :
    Option (CachedPrompt κ) × PromptCacheStore ν κ :=
  let found := best model s.copies promptTokens cacheKey s.entries.entries.reverse
  (found, { s with stats := s.stats.count found, copies := s.copies + 1 })

/-- `evict_oldest`; there is no store when nothing was evicted. -/
def evictOldest (s : PromptCacheStore ν κ) : Option (PromptCacheStore ν κ) :=
  s.entries.entries.head?.map fun oldest =>
    { s with
      entries := s.entries.pop oldest.1
      totalBytes := s.totalBytes - oldest.2.cacheBytes
      stats := { s.stats with evictions := s.stats.evictions + 1 } }

/-- There are more entries or bytes than there may be. -/
def OverLimits (s : PromptCacheStore ν κ) : Prop :=
  s.maxEntries < s.entries.keys.length ∨ s.maxBytes < s.totalBytes

instance (s : PromptCacheStore ν κ) : Decidable s.OverLimits :=
  inferInstanceAs (Decidable (_ ∨ _))

/-- The loop at the end of `remember`; an entry leaves in each round. -/
def evictToLimits : ℕ → PromptCacheStore ν κ → PromptCacheStore ν κ
  | 0, s => s
  | rounds + 1, s =>
      if s.OverLimits then evictToLimits rounds (s.evictOldest.getD s) else s

/-- `remember`, without the budget; there is no store when nothing is remembered. -/
def remember (sequenceTokens : List Token) (promptCache : κ) (cacheKey : ν)
    (s : PromptCacheStore ν κ) : Option (PromptCacheStore ν κ) :=
  if model.isEmpty promptCache ∨ s.maxBytes < model.nbytes promptCache then none
  else
    let key := (cacheKey, sequenceTokens)
    let freed := ((s.entries.get? key).map CachedPrompt.cacheBytes).getD 0
    let entries := (s.entries.pop key).set key
      ⟨sequenceTokens, model.deepcopy s.copies promptCache, model.nbytes promptCache, .exact⟩
    some (evictToLimits entries.keys.length { s with
      entries := entries
      totalBytes := s.totalBytes - freed + model.nbytes promptCache
      copies := s.copies + 1 })

/-- `reset`. -/
def reset (clearCache resetCounters : Bool) (s : PromptCacheStore ν κ) : PromptCacheStore ν κ :=
  { s with
    entries := if clearCache then .empty else s.entries
    totalBytes := if clearCache then 0 else s.totalBytes
    stats := if resetCounters then {} else s.stats }

/-! ## What they do to the entries -/

variable {model} {s s' : PromptCacheStore ν κ}

@[simp] theorem entries_lookup (promptTokens : List Token) (cacheKey : ν)
    (s : PromptCacheStore ν κ) :
    (s.lookup model promptTokens cacheKey).2.entries = s.entries := rfl

@[simp] theorem copies_lookup (promptTokens : List Token) (cacheKey : ν)
    (s : PromptCacheStore ν κ) :
    (s.lookup model promptTokens cacheKey).2.copies = s.copies + 1 := rfl

/-- The entries of `s'` are entries of `s`, and no copies were made. -/
structure Evicts (s s' : PromptCacheStore ν κ) : Prop where
  entries : ∀ entry ∈ s'.entries.entries, entry ∈ s.entries.entries
  copies : s'.copies = s.copies

omit [DecidableEq ν] in
theorem Evicts.refl (s : PromptCacheStore ν κ) : Evicts s s := ⟨fun _ => id, rfl⟩

omit [DecidableEq ν] in
theorem Evicts.trans {s'' : PromptCacheStore ν κ} (h : Evicts s s') (h' : Evicts s' s'') :
    Evicts s s'' :=
  ⟨fun entry hentry => h.entries entry (h'.entries entry hentry), h'.copies.trans h.copies⟩

theorem evicts_evictOldest (h : s.evictOldest = some s') : Evicts s s' := by
  obtain ⟨oldest, -, rfl⟩ := Option.map_eq_some_iff.mp h
  exact ⟨fun entry hentry => (Dict.mem_pop.mp hentry).2, rfl⟩

theorem evicts_evictToLimits (rounds : ℕ) (s : PromptCacheStore ν κ) :
    Evicts s (evictToLimits rounds s) := by
  induction rounds generalizing s with
  | zero => exact .refl s
  | succ rounds ih =>
      rw [evictToLimits]
      split
      · cases hevict : s.evictOldest with
        | none => exact ih s
        | some s' => exact (evicts_evictOldest hevict).trans (ih s')
      · exact .refl s

/-- The entries after `remember` are that of the tokens, a copy, and older ones. -/
theorem remember_eq_some {sequenceTokens : List Token} {promptCache : κ} {cacheKey : ν}
    (h : s.remember model sequenceTokens promptCache cacheKey = some s') :
    (∀ entry ∈ s'.entries.entries, entry = ((cacheKey, sequenceTokens),
        ⟨sequenceTokens, model.deepcopy s.copies promptCache, model.nbytes promptCache, .exact⟩) ∨
      entry ∈ s.entries.entries) ∧ s'.copies = s.copies + 1 := by
  rw [remember] at h
  split at h
  · cases h
  · obtain rfl := Option.some.inj h
    refine ⟨fun entry hentry => ?_, (evicts_evictToLimits _ _).copies⟩
    have hkept := (evicts_evictToLimits _ _).entries entry hentry
    rcases Dict.mem_set.mp hkept with rfl | ⟨-, hold⟩
    · exact .inl rfl
    · exact .inr (Dict.mem_pop.mp hold).2

/-! ## What a lookup finds -/

theorem better_eq (best candidate : Option (CachedPrompt κ)) :
    better best candidate = best ∧ (best = none → candidate = none) ∨
      better best candidate = candidate ∧ candidate ≠ none := by
  cases best with
  | none => cases candidate <;> simp [better]
  | some best =>
      cases candidate with
      | none => simp [better]
      | some candidate =>
          rw [better]
          split <;> simp

variable {copy : ℕ} {promptTokens : List Token} {cacheKey : ν} {found : CachedPrompt κ}
  {entries : List ((ν × List Token) × CachedPrompt κ)}

/-- What is found is a candidate of an entry in the namespace. -/
theorem best_eq_some (h : best model copy promptTokens cacheKey entries = some found) :
    ∃ entry ∈ entries, entry.1.1 = cacheKey ∧
      candidate model copy promptTokens entry.1.2 entry.2 = some found := by
  induction entries using List.reverseRecOn with
  | nil => cases h
  | append_singleton entries entry ih =>
      rw [best, List.foldl_append, List.foldl_cons, List.foldl_nil] at h
      have hearlier : best model copy promptTokens cacheKey entries = some found →
          ∃ entry' ∈ entries ++ [entry], entry'.1.1 = cacheKey ∧
            candidate model copy promptTokens entry'.1.2 entry'.2 = some found := by
        intro hbest
        obtain ⟨entry', hentry', hfound⟩ := ih hbest
        exact ⟨entry', List.mem_append_left _ hentry', hfound⟩
      by_cases hkey : entry.1.1 ≠ cacheKey
      · rw [if_pos hkey] at h
        exact hearlier h
      · rw [if_neg hkey] at h
        rcases better_eq (best model copy promptTokens cacheKey entries)
          (candidate model copy promptTokens entry.1.2 entry.2) with ⟨heq, -⟩ | ⟨heq, -⟩
        · exact hearlier (heq.symm.trans h)
        · exact ⟨entry, List.mem_append_right _ List.mem_cons_self, not_not.mp hkey,
            heq.symm.trans h⟩

/-- When nothing is found, no entry of the namespace has a candidate. -/
theorem best_eq_none (h : best model copy promptTokens cacheKey entries = none) :
    ∀ entry ∈ entries, entry.1.1 = cacheKey →
      candidate model copy promptTokens entry.1.2 entry.2 = none := by
  induction entries using List.reverseRecOn with
  | nil => exact fun entry hentry => (List.not_mem_nil hentry).elim
  | append_singleton entries entry ih =>
      rw [best, List.foldl_append, List.foldl_cons, List.foldl_nil] at h
      intro entry' hentry' hkey'
      by_cases hkey : entry.1.1 ≠ cacheKey
      · rw [if_pos hkey] at h
        rcases List.mem_append.mp hentry' with hold | hnew
        · exact ih h entry' hold hkey'
        · exact absurd (List.mem_singleton.mp hnew ▸ hkey') hkey
      · rw [if_neg hkey] at h
        rcases better_eq (best model copy promptTokens cacheKey entries)
          (candidate model copy promptTokens entry.1.2 entry.2) with ⟨heq, hnone⟩ | ⟨heq, hsome⟩
        · have hbest := heq.symm.trans h
          rcases List.mem_append.mp hentry' with hold | hnew
          · exact ih hbest entry' hold hkey'
          · exact List.mem_singleton.mp hnew ▸ hnone hbest
        · exact absurd (heq.symm.trans h) hsome

/-- In a namespace that has no other tokens than those of the prompt, a lookup copies their entry. -/
theorem lookup_of_same (h : ∀ key ∈ s.entries.keys, key.1 = cacheKey → key.2 = promptTokens) :
    (s.lookup model promptTokens cacheKey).1 =
      (s.entries.get? (cacheKey, promptTokens)).map fun cached =>
        ⟨promptTokens, model.deepcopy s.copies cached.promptCache, cached.cacheBytes, .exact⟩ := by
  have hcandidate : ∀ entry ∈ s.entries.entries, entry.1.1 = cacheKey →
      entry.1 = (cacheKey, promptTokens) ∧
        candidate model s.copies promptTokens entry.1.2 entry.2 =
          some ⟨promptTokens, model.deepcopy s.copies entry.2.promptCache, entry.2.cacheBytes,
            .exact⟩ := by
    intro entry hentry hkey
    have htokens := h entry.1 (Dict.mem_keys.mpr ⟨entry.2, hentry⟩) hkey
    refine ⟨Prod.ext hkey htokens, ?_⟩
    rw [candidate, if_pos htokens]
  rw [lookup]
  cases hget : s.entries.get? (cacheKey, promptTokens) with
  | none =>
      rw [Option.map_none, Option.eq_none_iff_forall_ne_some]
      intro found hfound
      obtain ⟨entry, hentry, hkey, -⟩ := best_eq_some hfound
      have hmem := List.mem_reverse.mp hentry
      rw [Dict.get?_eq_none, ← (hcandidate entry hmem hkey).1] at hget
      exact hget (Dict.mem_keys.mpr ⟨entry.2, hmem⟩)
  | some cached =>
      have hmem := Dict.get?_eq_some.mp hget
      cases hbest : best model s.copies promptTokens cacheKey s.entries.entries.reverse with
      | none =>
          have hnone := best_eq_none hbest _ (List.mem_reverse.mpr hmem) rfl
          rw [(hcandidate _ hmem rfl).2] at hnone
          cases hnone
      | some found =>
          obtain ⟨entry, hentry, hkey, hfound⟩ := best_eq_some hbest
          obtain ⟨heq, hexact⟩ := hcandidate entry (List.mem_reverse.mp hentry) hkey
          have hvalue : entry.2 = cached :=
            Dict.value_unique (heq ▸ List.mem_reverse.mp hentry) hmem
          rw [← hfound, hexact, hvalue]
          rfl

end PromptCacheStore
end MlxRuntime
