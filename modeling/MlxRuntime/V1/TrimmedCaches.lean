import MlxRuntime.Lib.Run
import MlxRuntime.V1.PromptReuse

/-!
# Which tokens a trimmed cache covers

`_trim_mlx_prompt_cache` copies a prompt cache and has `mlx_lm` drop its last tokens.  A cache that
cannot be trimmed stays as it is, and `mlx_lm` says so by the number that it returns; nobody looks
at that number.

## Main definitions

* `MlxCaches` — the prompt caches of `mlx_lm`, with what it says of them.
* `PromptCacheUse`, `PromptCacheStore.use` — what is done with a store.
* `PromptCacheReply.Matches` — the cache that is handed out, or kept, covers its tokens.
* `PromptCacheUse.Fits` — what is trimmed can be trimmed.
* `matches_iff_fits` — these are the same in every run.
-/

namespace MlxRuntime

/-- The prompt caches of `mlx_lm`. -/
structure MlxCaches (κ : Type) where
  /-- The tokens that a cache was computed for. -/
  covers : κ → List Token
  /-- `can_trim_prompt_cache`. -/
  trimmable : κ → Bool
  /-- `trim_prompt_cache`: the cache then, and the number of tokens that it dropped. -/
  trimPromptCache : κ → ℕ → κ × ℕ
  /-- `_estimate_cache_bytes`. -/
  nbytes : κ → ℕ
  isEmpty : κ → Bool
  deepcopy : ℕ → κ → κ
  covers_deepcopy : ∀ copy cache, covers (deepcopy copy cache) = covers cache
  trim_trimmable : ∀ cache n, trimmable cache → n ≤ (covers cache).length →
    covers (trimPromptCache cache n).1 = (covers cache).take ((covers cache).length - n) ∧
      (trimPromptCache cache n).2 = n
  trim_not_trimmable : ∀ cache n, trimmable cache = false → trimPromptCache cache n = (cache, 0)

namespace MlxCaches

variable {κ : Type} (caches : MlxCaches κ)

/-- `_trim_mlx_prompt_cache`; what `trim_prompt_cache` returns is dropped. -/
def trimMlxPromptCache (promptCache : κ) (numTokens : ℕ) : Option κ :=
  some (caches.trimPromptCache promptCache numTokens).1

/-- What the store and the schedulers know of them. -/
def model : PromptCacheModel κ where
  nbytes := caches.nbytes
  isEmpty := caches.isEmpty
  trim := caches.trimMlxPromptCache
  deepcopy := caches.deepcopy

theorem trims_model : caches.model.Trims := fun _ _ => rfl

variable {caches} in
/-- A cache that can be trimmed is trimmed to its first tokens. -/
theorem covers_trim {cache : κ} {tokens : List Token} (hcovers : caches.covers cache = tokens)
    (htrimmable : caches.trimmable cache) {n : ℕ} (hn : n ≤ tokens.length) :
    caches.covers (caches.trimPromptCache cache (tokens.length - n)).1 = tokens.take n := by
  have htrim := (caches.trim_trimmable cache (tokens.length - n) htrimmable
    (by rw [hcovers]; exact Nat.sub_le _ _)).1
  rw [htrim, hcovers, Nat.sub_sub_self hn]

end MlxCaches

/-- What is done with a store of prompt caches: the lookup for a prompt, the end of a request, for
which the generator gave the cache of a sequence, an eviction, and a reset. -/
inductive PromptCacheUse {κ : Type} (caches : MlxCaches κ) (ν : Type)
  | lookup (promptTokens : List Token) (cacheKey : ν)
  | keep (promptCache : κ) (sequenceTokens promptTokens : List Token) (cacheKey : ν)
      (covers : caches.covers promptCache = sequenceTokens)
  | evictOldest
  | reset (clearCache resetCounters : Bool)

/-- What came of it. -/
inductive PromptCacheReply (κ : Type)
  | found (cached : Option (CachedPrompt κ))
  | kept (promptCache : Option κ) (promptTokens : List Token)
  | done

/-- The caches that are handed out or kept cover the tokens that they are said to be for. -/
def PromptCacheReply.Matches {κ : Type} (caches : MlxCaches κ) : PromptCacheReply κ → Prop
  | .found cached => ∀ found ∈ cached, caches.covers found.promptCache = found.tokens
  | .kept promptCache promptTokens => ∀ kept ∈ promptCache, caches.covers kept = promptTokens
  | .done => True

namespace PromptCacheStore

variable {ν κ : Type} [DecidableEq ν] {caches : MlxCaches κ}

/-- A use of the store. -/
def use (s : PromptCacheStore ν κ) : PromptCacheUse caches ν → PromptCacheReply κ × PromptCacheStore ν κ
  | .lookup promptTokens cacheKey =>
      let (found, s) := s.lookup caches.model promptTokens cacheKey
      (.found found, s)
  | .keep promptCache sequenceTokens promptTokens cacheKey _ =>
      match promptCacheForPromptTokens caches.model.trim promptCache sequenceTokens
          promptTokens with
      | none => (.kept none promptTokens, s)
      | some kept =>
          (.kept (some kept) promptTokens,
            (s.remember caches.model promptTokens kept cacheKey).getD s)
  | .evictOldest => (.done, s.evictOldest.getD s)
  | .reset clearCache resetCounters => (.done, s.reset clearCache resetCounters)

end PromptCacheStore

/-- What is trimmed can be trimmed.  A lookup uses the newest of the entries that serve the most
tokens, and takes it whole if the prompt starts with its tokens; at the end of a request, the tokens
behind the prompt are dropped, if there are any. -/
def PromptCacheUse.Fits {κ ν : Type} [DecidableEq ν] {caches : MlxCaches κ} (s : PromptCacheStore ν κ) :
    PromptCacheUse caches ν → Prop
  | .lookup promptTokens cacheKey => ∀ entry,
      FirstBest (fun entry => PromptCacheStore.served promptTokens entry.1.2)
        ((s.stored cacheKey).filter fun entry =>
          PromptCacheStore.Serves promptTokens entry.1.2) entry →
      entry.1.2 <+: promptTokens ∨ caches.trimmable entry.2.promptCache
  | .keep promptCache sequenceTokens promptTokens _ _ =>
      sequenceTokens.length < promptTokens.length ∨ promptTokens <+: sequenceTokens ∧
        (sequenceTokens = promptTokens ∨ caches.trimmable promptCache)
  | .evictOldest | .reset _ _ => True

namespace PromptCacheStore

variable {ν κ : Type} {caches : MlxCaches κ} {copy : ℕ}
  {promptTokens cachedTokens : List Token} {cached found : CachedPrompt κ}

/-! ## One candidate -/

theorem commonPrefix_of_initial (h : cachedTokens <+: promptTokens) :
    commonPrefix cachedTokens promptTokens = cachedTokens.length := by
  induction cachedTokens generalizing promptTokens with
  | nil => cases promptTokens <;> rfl
  | cons token tokens ih =>
    cases promptTokens with
    | nil => exact absurd (List.prefix_nil.mp h) (List.cons_ne_nil _ _)
    | cons token' tokens' =>
      obtain ⟨rfl, hrest⟩ := List.cons_prefix_cons.mp h
      rw [commonPrefix, if_pos rfl, ih hrest, List.length_cons]

/-- Tokens that the prompt starts with are used whole. -/
theorem candidate_whole (h : cachedTokens <+: promptTokens)
    (hfound : candidate caches.model copy promptTokens cachedTokens cached = some found) :
    found.promptCache = caches.deepcopy copy cached.promptCache ∧ found.tokens = cachedTokens := by
  rw [candidate] at hfound
  dsimp only at hfound
  split at hfound
  case isTrue heq =>
    cases hfound
    exact ⟨rfl, heq.symm⟩
  case isFalse hne =>
    have hlt : cachedTokens.length < promptTokens.length :=
      Nat.lt_of_le_of_ne h.length_le fun heq => hne (h.eq_of_length heq)
    rw [if_pos ⟨hlt, commonPrefix_of_initial h⟩] at hfound
    cases hfound
    exact ⟨rfl, rfl⟩

/-- Other tokens are trimmed to those that are worth something. -/
theorem candidate_trimmed (h : ¬ cachedTokens <+: promptTokens)
    (hfound : candidate caches.model copy promptTokens cachedTokens cached = some found) :
    found.promptCache = caches.deepcopy copy (caches.trimPromptCache cached.promptCache
        (cachedTokens.length - worth promptTokens cachedTokens)).1 ∧
      found.tokens = promptTokens.take (worth promptTokens cachedTokens) := by
  rw [candidate] at hfound
  dsimp only at hfound
  have hne : cachedTokens ≠ promptTokens := fun heq => h (heq ▸ List.prefix_rfl)
  rw [if_neg hne, if_neg fun hshort => h (prefix_of_commonPrefix hshort.2)] at hfound
  split at hfound
  case isTrue => cases hfound
  case isFalse =>
    obtain ⟨trimmed, htrim, rfl⟩ := Option.map_eq_some_iff.mp hfound
    cases htrim
    exact ⟨rfl, rfl⟩

theorem worth_le (promptTokens cachedTokens : List Token) :
    worth promptTokens cachedTokens ≤ cachedTokens.length :=
  Nat.le_trans (Nat.min_le_left _ _) (commonPrefix_le_left _ _)

/-- What stored tokens are worth is the same of the prompt. -/
theorem take_worth (promptTokens cachedTokens : List Token) :
    cachedTokens.take (worth promptTokens cachedTokens) =
      promptTokens.take (worth promptTokens cachedTokens) := by
  have htake := congrArg (List.take (promptTokens.length - 1))
    (take_commonPrefix cachedTokens promptTokens)
  rw [List.take_take, List.take_take] at htake
  rwa [worth, Nat.min_comm]

/-- The candidate of an entry covers its tokens if it is whole, or could be trimmed. -/
theorem covers_candidate (hcovers : caches.covers cached.promptCache = cachedTokens)
    (hfound : candidate caches.model copy promptTokens cachedTokens cached = some found) :
    caches.covers found.promptCache = found.tokens ↔
      cachedTokens <+: promptTokens ∨ caches.trimmable cached.promptCache := by
  by_cases hinitial : cachedTokens <+: promptTokens
  · obtain ⟨hcache, htokens⟩ := candidate_whole hinitial hfound
    rw [hcache, htokens, caches.covers_deepcopy, hcovers]
    exact iff_of_true rfl (.inl hinitial)
  · obtain ⟨hcache, htokens⟩ := candidate_trimmed hinitial hfound
    rw [hcache, htokens, caches.covers_deepcopy]
    cases htrimmable : caches.trimmable cached.promptCache with
    | true =>
      rw [MlxCaches.covers_trim hcovers htrimmable (worth_le _ _)]
      exact iff_of_true (take_worth _ _) (.inr rfl)
    | false =>
      rw [caches.trim_not_trimmable _ _ htrimmable, hcovers]
      refine iff_of_false (fun heq => hinitial ?_) (by simpa using hinitial)
      rw [heq]
      exact List.take_prefix _ _

/-- What is kept of a request covers its prompt if nothing else was in the sequence, or it could be
trimmed. -/
theorem covers_kept {promptCache : κ} {sequenceTokens : List Token}
    (hcovers : caches.covers promptCache = sequenceTokens) :
    (∀ kept ∈ promptCacheForPromptTokens caches.model.trim promptCache sequenceTokens promptTokens,
      caches.covers kept = promptTokens) ↔
      sequenceTokens.length < promptTokens.length ∨ promptTokens <+: sequenceTokens ∧
        (sequenceTokens = promptTokens ∨ caches.trimmable promptCache) := by
  rw [promptCacheForPromptTokens]
  rcases Nat.lt_trichotomy sequenceTokens.length promptTokens.length with hlt | heq | hgt
  · rw [if_pos hlt]
    exact iff_of_true (fun kept hkept => by cases hkept) (.inl hlt)
  · rw [if_neg (by omega), if_pos heq]
    constructor
    · intro h
      have hsame := hcovers.symm.trans (h promptCache rfl)
      exact .inr ⟨hsame ▸ List.prefix_rfl, .inl hsame⟩
    · rintro (hlt | ⟨hinitial, -⟩) kept hkept
      · omega
      · cases hkept
        rw [hcovers, hinitial.eq_of_length heq.symm]
  · rw [if_neg (by omega), if_neg (by omega)]
    have hne : sequenceTokens ≠ promptTokens := fun heq => by rw [heq] at hgt; omega
    cases htrimmable : caches.trimmable promptCache with
    | true =>
      have htrim := MlxCaches.covers_trim hcovers htrimmable (Nat.le_of_lt hgt)
      constructor
      · intro h
        rw [h _ rfl] at htrim
        exact .inr ⟨htrim ▸ List.take_prefix _ _, .inr rfl⟩
      · rintro (hlt | ⟨hinitial, -⟩) kept hkept
        · omega
        · cases hkept
          rw [htrim, ← List.prefix_iff_eq_take.mp hinitial]
    | false =>
      have hsame := congrArg Prod.fst (caches.trim_not_trimmable promptCache
        (sequenceTokens.length - promptTokens.length) htrimmable)
      constructor
      · intro h
        have hkept := h _ rfl
        rw [hsame, hcovers] at hkept
        exact absurd hkept hne
      · rintro (hlt | ⟨-, heq | htrue⟩)
        · omega
        · exact absurd heq hne
        · cases htrue

/-! ## The store -/

variable [DecidableEq ν] {s : PromptCacheStore ν κ}

/-- Every cache covers the tokens that it is stored under. -/
def Covering (caches : MlxCaches κ) (s : PromptCacheStore ν κ) : Prop :=
  ∀ entry ∈ s.entries.entries, caches.covers entry.2.promptCache = entry.1.2

omit [DecidableEq ν] in
theorem Covering.of_evicts {s' : PromptCacheStore ν κ} (h : s.Covering caches)
    (hevicts : Evicts s s') : s'.Covering caches :=
  fun entry hentry => h entry (hevicts.entries entry hentry)

/-- What serves has a candidate, since a cache is trimmed as if it always could be. -/
theorem offers_iff {cacheKey : ν} {entry : (ν × List Token) × CachedPrompt κ}
    (hkey : entry.1.1 = cacheKey) :
    offers caches.model copy promptTokens cacheKey entry =
      decide (Serves promptTokens entry.1.2) := by
  rw [Bool.eq_iff_iff, decide_eq_true_iff]
  constructor
  · intro h
    obtain ⟨found, hfound⟩ := Option.isSome_iff_exists.mp (of_decide_eq_true h).2
    exact (tokens_candidate hfound).1
  · intro h
    obtain ⟨found, hfound⟩ : ∃ found, candidate caches.model copy promptTokens entry.1.2 entry.2 =
        some found := candidate_of_serves h (caches.trims_model _ _)
    exact decide_eq_true ⟨hkey, by rw [hfound]; rfl⟩

/-- A lookup hands out a cache that covers its tokens if the entry that it uses fits. -/
theorem covers_lookup (h : s.Covering caches) (cacheKey : ν) :
    (∀ found ∈ (s.lookup caches.model promptTokens cacheKey).1,
      caches.covers found.promptCache = found.tokens) ↔
      (PromptCacheUse.lookup promptTokens cacheKey : PromptCacheUse caches ν).Fits s := by
  have hfilter : (s.stored cacheKey).filter
        (offers caches.model s.copies promptTokens cacheKey) =
      (s.stored cacheKey).filter fun entry => Serves promptTokens entry.1.2 :=
    List.filter_congr fun entry hentry => offers_iff (mem_stored.mp hentry).2
  have hentries : ∀ {entry}, entry ∈ (s.stored cacheKey).filter
        (fun entry => Serves promptTokens entry.1.2) →
      entry ∈ s.stored cacheKey ∧ Serves promptTokens entry.1.2 := fun hentry => by
    obtain ⟨hstored, hserves⟩ := List.mem_filter.mp hentry
    exact ⟨hstored, of_decide_eq_true hserves⟩
  constructor
  · intro hmatches entry hfirst
    obtain ⟨hstored, hserves⟩ := hentries hfirst.mem
    obtain ⟨found, hfound⟩ := Option.isSome_iff_exists.mp
      (lookup_isSome caches.trims_model hstored hserves)
    obtain ⟨used, hused, hcandidate⟩ := lookup_eq_some hfound
    rw [hfilter] at hused
    obtain rfl := hfirst.unique hused
    exact (covers_candidate (h _ (mem_stored.mp hstored).1) hcandidate).mp (hmatches found hfound)
  · intro hfits found hfound
    obtain ⟨used, hused, hcandidate⟩ := lookup_eq_some hfound
    rw [hfilter] at hused
    have hstored := (hentries hused.mem).1
    exact (covers_candidate (h _ (mem_stored.mp hstored).1) hcandidate).mpr (hfits used hused)

/-- What a use of the store says is right if and only if what it trims can be trimmed. -/
theorem matches_use (h : s.Covering caches) (use : PromptCacheUse caches ν) :
    (s.use use).1.Matches caches ↔ use.Fits s := by
  cases use with
  | lookup promptTokens cacheKey => exact covers_lookup h cacheKey
  | keep promptCache sequenceTokens promptTokens cacheKey hcovers =>
    rw [PromptCacheUse.Fits, ← covers_kept hcovers, PromptCacheStore.use]
    cases promptCacheForPromptTokens caches.model.trim promptCache sequenceTokens promptTokens with
    | none => exact Iff.rfl
    | some kept => exact Iff.rfl
  | evictOldest => exact Iff.rfl
  | reset => exact Iff.rfl

/-- The caches that are stored then cover their tokens. -/
theorem Covering.use (h : s.Covering caches) {use : PromptCacheUse caches ν}
    (hmatches : (s.use use).1.Matches caches) : (s.use use).2.Covering caches := by
  cases use with
  | lookup promptTokens cacheKey => exact h
  | keep promptCache sequenceTokens promptTokens cacheKey hcovers =>
    rw [PromptCacheStore.use] at hmatches ⊢
    cases hkept : promptCacheForPromptTokens caches.model.trim promptCache sequenceTokens
        promptTokens with
    | none => exact h
    | some kept =>
      rw [hkept] at hmatches
      have hcover : caches.covers kept = promptTokens := hmatches kept rfl
      dsimp only
      cases hremember : s.remember caches.model promptTokens kept cacheKey with
      | none => exact h
      | some s' =>
        intro entry hentry
        rcases (remember_eq_some hremember).1 entry hentry with rfl | hold
        · exact (caches.covers_deepcopy _ _).trans hcover
        · exact h entry hold
  | evictOldest =>
    rw [PromptCacheStore.use]
    cases hevict : s.evictOldest with
    | none => exact h
    | some s' => exact h.of_evicts (evicts_evictOldest hevict)
  | reset clearCache resetCounters =>
    cases clearCache with
    | false => exact h
    | true => exact fun entry hentry => (List.not_mem_nil hentry).elim

/-- **Which trimmed caches match their tokens.**  In every run from an empty store, all caches that
are handed out or kept cover the tokens that they are said to be for, if and only if everything that
was trimmed could be trimmed. -/
theorem matches_iff_fits (caches : MlxCaches κ) (maxEntries maxBytes : ℕ)
    (uses : List (PromptCacheUse caches ν)) :
    Run.Each use (fun s op => (s.use op).1.Matches caches)
        { maxEntries := maxEntries, maxBytes := maxBytes } uses ↔
      Run.Each use (fun s op => op.Fits s)
        { maxEntries := maxEntries, maxBytes := maxBytes } uses :=
  Run.each_iff (fun _ op h => matches_use h op) (fun _ _ h => h.use) uses
    (show Covering caches _ from fun _ hentry => (List.not_mem_nil hentry).elim)

end PromptCacheStore

/-- Caches that are the tokens they cover, and whether they can be trimmed. -/
def flaggedCaches : MlxCaches (List Token × Bool) where
  covers := Prod.fst
  trimmable := Prod.snd
  trimPromptCache cache n :=
    if cache.2 then ((cache.1.take (cache.1.length - n), true), n) else (cache, 0)
  nbytes cache := cache.1.length
  isEmpty _ := false
  deepcopy _ cache := cache
  covers_deepcopy _ _ := rfl
  trim_trimmable cache n h _ := by
    rw [if_pos h]
    exact ⟨rfl, rfl⟩
  trim_not_trimmable cache n h := by rw [h, if_neg Bool.false_ne_true]

namespace PromptCacheStore

/-- A cache that cannot be trimmed is handed out for fewer tokens than it covers. -/
theorem not_matches_untrimmable :
    ¬ Run.Each use (fun s op => (s.use op).1.Matches flaggedCaches)
        ({} : PromptCacheStore Unit (List Token × Bool))
        ([.keep ([1, 2, 3], false) [1, 2, 3] [1, 2, 3] () rfl, .lookup [1, 2, 9] ()] :
          List (PromptCacheUse flaggedCaches Unit)) := by
  rintro ⟨-, hlookup, -⟩
  have hcovers := hlookup ⟨[1, 2], ([1, 2, 3], false), 3, .trimmedLongerPrefix⟩ rfl
  revert hcovers
  decide

end PromptCacheStore
end MlxRuntime
