import MlxRuntime.V1.VlmReuse

/-!
# Prompt caches that are handed over

A prompt cache is an object, and the generator may extend one that it was handed.  The store of
prompt caches keeps copies and gives out copies.  The cache of features keeps the arguments of a
request, and the object with them: a request that is served by it may be handed an object that was
extended for an earlier one.

## Main definitions

* `PromptCacheObject`, `CacheUse` — an object, and what the generator has made of the objects.
* `TracksCaches` — the generator extends only what it was handed.
* `VlmScheduler.HandsOwn` — what is handed over covers the tokens passed with it, and no others.
* `VlmScheduler.ServesFresh` — the cache of features does not serve an object that was extended.
* `VlmScheduler.hands_own_iff` — the second is just when the first holds.
-/

namespace MlxRuntime

/-- A prompt cache: its identity, and the tokens that it covered when it was obtained. -/
structure PromptCacheObject where
  id : ℕ
  covers : List Token
  deriving DecidableEq

/-- The prompt caches of a model as objects: a copy covers the same, under its own identity. -/
def objectCaches (nbytes : PromptCacheObject → ℕ) (isEmpty : PromptCacheObject → Bool)
    (trim : PromptCacheObject → ℕ → Option PromptCacheObject) :
    PromptCacheModel PromptCacheObject where
  nbytes := nbytes
  isEmpty := isEmpty
  trim := trim
  deepcopy n promptCache := ⟨n, promptCache.covers⟩

/-- What the generator has made of the prompt caches. -/
structure CacheUse where
  /-- It was handed the object. -/
  handed : ℕ → Prop
  /-- What it appended to the object. -/
  appended : ℕ → List Token
  /-- What the prompt cache of a sequence covered, with its prompt, when it was inserted. -/
  covered : ℕ → List Token
  /-- The tokens that were passed for it, with its prompt. -/
  listed : ℕ → List Token

namespace CacheUse

/-- What an object covers now. -/
def content (u : CacheUse) (promptCache : PromptCacheObject) : List Token :=
  promptCache.covers ++ u.appended promptCache.id

/-- No object was handed over, and the sequences are as they were. -/
structure Extends (u u' : CacheUse) : Prop where
  handed : ∀ id, u'.handed id → u.handed id
  covered : u'.covered = u.covered
  listed : u'.listed = u.listed

end CacheUse

/-- The generator extends only objects that were handed to it, and knows what it was passed for
each sequence; the prompt cache of a response covers the tokens it is told to. -/
structure TracksCaches {γ ρ F ξ ι : Type} (engine : VlmEngine γ ρ F PromptCacheObject ξ ι)
    (gen : VlmGenerator γ F PromptCacheObject ξ) (view : γ → CacheUse) : Prop where
  engineCalls : ∀ u, EngineKeepsUids engine fun g _ => view g = u
  appended : ∀ g id, (view g).appended id ≠ [] → (view g).handed id
  construct : ∀ key g, (view g).Extends (view (gen.construct key g).2)
  next : ∀ g, (view g).Extends (view (gen.next g).2)
  remove : ∀ uid g, (view g).Extends (view (gen.remove uid g).2)
  response : ∀ {g prompts responses response promptCache},
    (gen.next g).1 = .ok (prompts, responses) → response ∈ responses →
    response.promptCache = some promptCache →
    ∃ rest, promptCache.covers = (view g).covered response.uid ++ rest ∧
      response.allTokens = some ((view g).listed response.uid ++ rest)
  handed : ∀ inserts g id, (view (gen.insert inserts g).2).handed id → (view g).handed id ∨
    ∃ i ∈ inserts, ∃ promptCache, i.promptKwargs.promptCache = some promptCache ∧
      promptCache.id = id
  /-- A uid for each prompt, all of them new. -/
  inserted : ∀ {inserts g uids}, (gen.insert inserts g).1 = .ok uids →
    uids.length = inserts.length ∧ uids.Nodup ∧
    (∀ entry ∈ inserts.zip uids, (view (gen.insert inserts g).2).covered entry.2 =
        (entry.1.promptKwargs.promptCache.map (view g).content).getD [] ++ entry.1.prompt ∧
      (view (gen.insert inserts g).2).listed entry.2 =
        entry.1.promptKwargs.allTokens.getD [] ++ entry.1.prompt) ∧
    ∀ uid, uid ∉ uids → (view (gen.insert inserts g).2).covered uid = (view g).covered uid ∧
      (view (gen.insert inserts g).2).listed uid = (view g).listed uid
  refused : ∀ {inserts g e}, (gen.insert inserts g).1 = .error e →
    (view (gen.insert inserts g).2).covered = (view g).covered ∧
      (view (gen.insert inserts g).2).listed = (view g).listed

/-- An embedding has no prompt cache. -/
def EmbedsPlainly {γ ρ F κ ξ ι : Type} (engine : VlmEngine γ ρ F κ ξ ι) : Prop :=
  ∀ inputs g kwargs, (engine.getInputEmbeddings inputs g).1 = .ok (some kwargs) →
    kwargs.promptCache = none ∧ kwargs.allTokens = none

/-- Prompts of different tokens have different signatures. -/
def SignsPrompts {γ ρ F κ ξ ι : Type} (engine : VlmEngine γ ρ F κ ξ ι) : Prop :=
  ∀ prompt g tokens prompt' g' tokens', (engine.buildPromptTokens prompt g).1 = .ok tokens →
    (engine.buildPromptTokens prompt' g').1 = .ok tokens' →
    engine.promptSignature prompt tokens = engine.promptSignature prompt' tokens' →
    tokens = tokens'

/-- Trimming drops the last tokens. -/
def TrimsLast (trim : PromptCacheObject → ℕ → Option PromptCacheObject) : Prop :=
  ∀ promptCache n trimmed, trim promptCache n = some trimmed →
    trimmed.covers = promptCache.covers.take (promptCache.covers.length - n)

namespace VlmScheduler

variable {ρ F ξ ι γ υ : Type} (engine : VlmEngine γ ρ F PromptCacheObject ξ ι)
  (store : VlmCaches (VlmStores PromptCacheObject υ) PromptCacheObject ξ)

/-- What a request hands over covers the tokens that it passes, and they start its prompt. -/
def HandsOwn (u : CacheUse) (job : ScheduledVlmRequest ρ F PromptCacheObject ξ) : Prop :=
  ∀ promptCache, job.promptKwargs.promptCache = some promptCache →
    ∃ tokens, job.promptKwargs.allTokens = some tokens ∧ u.content promptCache = tokens ∧
      tokens <+: job.fullPromptTokens

/-- Where the cache of features serves the request with a prompt cache, nothing was appended to
that since. -/
def ServesFresh (u : CacheUse) (w : VlmStores PromptCacheObject υ)
    (job : ScheduledVlmRequest ρ F PromptCacheObject ξ) : Prop :=
  ∀ kwargs promptCache, (featuresFor engine store job w).1 = some kwargs →
    kwargs.promptCache = some promptCache → u.appended promptCache.id = []

/-- The arguments have no prompt cache, or one that covers the tokens passed with it. -/
inductive Covers (tokens : List Token) (bound : ℕ) : PromptKwargs PromptCacheObject ξ → Prop
  | none {kwargs : PromptKwargs PromptCacheObject ξ} (hcache : kwargs.promptCache = none)
      (htokens : kwargs.allTokens = none) : Covers tokens bound kwargs
  | some {kwargs : PromptKwargs PromptCacheObject ξ} {promptCache : PromptCacheObject}
      (hcache : kwargs.promptCache = some promptCache) (htokens : kwargs.allTokens = some tokens)
      (hcovers : promptCache.covers = tokens) (hid : promptCache.id < bound) :
      Covers tokens bound kwargs

/-- What holds of the caches. -/
structure Isolated (holds : υ → String → VisionCacheSnapshot PromptCacheObject ξ → Prop)
    (u : CacheUse) (w : VlmStores PromptCacheObject υ) : Prop where
  keyed : w.Keyed
  covers : ∀ entry ∈ w.apc.entries.entries, entry.2.promptCache.covers = entry.1.2
  snapshots : ∀ {key snapshot}, holds w.vision.cache key snapshot → ∃ prompt g tokens,
    (engine.buildPromptTokens prompt g).1 = .ok tokens ∧
    snapshot.promptSignature = engine.promptSignature prompt tokens ∧
    Covers tokens w.apc.copies snapshot.promptKwargs
  handed : ∀ id, u.handed id → id < w.apc.copies
  appended : ∀ id, u.appended id ≠ [] → u.handed id

/-- A request that is prepared, with what it hands over. -/
structure Owns (u : CacheUse) (w : VlmStores PromptCacheObject υ)
    (job : ScheduledVlmRequest ρ F PromptCacheObject ξ) : Prop where
  key : job.apcCacheKey.promptTokens = job.fullPromptTokens
  promptTokens : job.promptTokens = job.fullPromptTokens
  cached : ∀ cached, job.cachedPrompt = some cached → cached.tokens = job.fullPromptTokens
  covers : Covers job.fullPromptTokens w.apc.copies job.promptKwargs
  whole : job.promptKwargs.promptCache = none → job.cachedPrompt = none
  content : ∀ promptCache, job.promptKwargs.promptCache = some promptCache →
    u.content promptCache = job.fullPromptTokens

/-! ## What the calls keep -/

variable {engine} {nbytes : PromptCacheObject → ℕ} {isEmpty : PromptCacheObject → Bool}
  {trim : PromptCacheObject → ℕ → Option PromptCacheObject}
  {vision : VisionFeatureCache υ PromptCacheObject ξ} {apcManager : Bool}
  {holds : υ → String → VisionCacheSnapshot PromptCacheObject ξ → Prop} {u : CacheUse}
  {w w' : VlmStores PromptCacheObject υ} {tokens : List Token}
  {job : ScheduledVlmRequest ρ F PromptCacheObject ξ}

theorem Covers.mono {bound bound' : ℕ} {kwargs : PromptKwargs PromptCacheObject ξ}
    (h : Covers tokens bound kwargs) (hbound : bound ≤ bound') : Covers tokens bound' kwargs := by
  cases h with
  | none hcache htokens => exact .none hcache htokens
  | some hcache htokens hcovers hid => exact .some hcache htokens hcovers (hid.trans_le hbound)

/-- Entries leave, and copies are made. -/
theorem Isolated.sub (h : Isolated engine holds u w)
    (hentries : ∀ entry ∈ w'.apc.entries.entries, entry ∈ w.apc.entries.entries)
    (hvision : ∀ {key snapshot}, holds w'.vision.cache key snapshot →
      holds w.vision.cache key snapshot)
    (hcopies : w.apc.copies ≤ w'.apc.copies) : Isolated engine holds u w' where
  keyed entry hentry := h.keyed entry (hentries entry hentry)
  covers entry hentry := h.covers entry (hentries entry hentry)
  snapshots hheld := by
    obtain ⟨prompt, g, tokens, htokens, hsignature, hcovers⟩ := h.snapshots (hvision hheld)
    exact ⟨prompt, g, tokens, htokens, hsignature, hcovers.mono hcopies⟩
  handed id hid := (h.handed id hid).trans_le hcopies
  appended := h.appended

theorem Isolated.evicts (h : Isolated engine holds u w) (hevicts : w.Evicts holds w') :
    Isolated engine holds u w' :=
  h.sub hevicts.apc.entries hevicts.vision hevicts.apc.copies.ge

/-- The generator was called. -/
theorem Isolated.extends {u' : CacheUse} (h : Isolated engine holds u w)
    (hhanded : ∀ id, u'.handed id → id < w.apc.copies)
    (happended : ∀ id, u'.appended id ≠ [] → u'.handed id) : Isolated engine holds u' w :=
  ⟨h.keyed, h.covers, h.snapshots, hhanded, happended⟩

/-- The prompt cache of a sequence, trimmed to a first part of it. -/
theorem covers_promptCacheForPromptTokens (htrim : TrimsLast trim)
    {promptCache value : PromptCacheObject} {sequence : List Token}
    (hcovers : promptCache.covers = sequence) (hstart : tokens <+: sequence)
    (h : promptCacheForPromptTokens trim promptCache sequence tokens = some value) :
    value.covers = tokens := by
  rw [promptCacheForPromptTokens] at h
  have hle := hstart.length_le
  rw [if_neg (Nat.not_lt.mpr hle)] at h
  by_cases hlength : sequence.length = tokens.length
  · rw [if_pos hlength] at h
    rw [← Option.some.inj h, hcovers]
    exact (hstart.eq_of_length hlength.symm).symm
  · rw [if_neg hlength] at h
    rw [htrim _ _ _ h, hcovers, Nat.sub_sub_self hle]
    exact (List.prefix_iff_eq_take.mp hstart).symm

/-- What a response leaves in the store. -/
theorem covers_value (htrim : TrimsLast trim) {response : VlmGeneration PromptCacheObject}
    {promptCache value : PromptCacheObject} {sequence rest generated : List Token}
    (hcovers : promptCache.covers = sequence ++ rest)
    (hlisted : response.allTokens = some (sequence ++ rest)) (hstart : tokens <+: sequence)
    (h : promptCacheForPromptTokens trim promptCache (sequenceOf response tokens generated) tokens =
      some value) : value.covers = tokens := by
  rw [sequenceOf, hlisted] at h
  have hwhole : tokens <+: sequence ++ rest := hstart.trans (List.prefix_append _ _)
  cases hsequence : sequence ++ rest with
  | cons token more =>
      rw [hsequence] at h hcovers hwhole
      exact covers_promptCacheForPromptTokens htrim hcovers hwhole h
  | nil =>
      rw [hsequence] at h hcovers hwhole
      obtain rfl := List.prefix_nil.mp hwhole
      rw [promptCacheForPromptTokens] at h
      dsimp only at h
      split at h
      · cases h
      · split at h
        · rw [← Option.some.inj h, hcovers]
        · rw [htrim _ _ _ h, hcovers]
          exact List.take_nil

/-- What the cache of features serves is for the same prompt. -/
theorem Isolated.features (h : Isolated engine holds u w) (hvision : vision.Lawful holds)
    (hsigns : SignsPrompts engine)
    (htokenized : ∃ g, (engine.buildPromptTokens job.prompt g).1 = .ok job.fullPromptTokens)
    {kwargs : PromptKwargs PromptCacheObject ξ}
    (hserved : (featuresFor engine (VlmStores.caches (objectCaches nbytes isEmpty trim) vision
      apcManager) job w).1 = some kwargs) :
    Covers job.fullPromptTokens w.apc.copies kwargs := by
  rw [featuresFor] at hserved
  split at hserved
  · obtain ⟨snapshot, hget, rfl⟩ := Option.map_eq_some_iff.mp hserved
    obtain ⟨hheld, hsignature⟩ := VlmVisionFeatureCache.get_eq_some hget
    obtain ⟨prompt, g, tokens, htokens, hsigned, hcovers⟩ := h.snapshots (hvision.get hheld)
    obtain ⟨g', hjob⟩ := htokenized
    rwa [hsigns _ _ _ _ _ _ hjob htokens (hsignature.symm.trans hsigned)]
  · cases hserved

/-- What the store of prompt caches has for a prompt. -/
theorem Isolated.cached (h : Isolated engine holds u w)
    (hprepares : PreparesFrom engine (VlmStores.caches (objectCaches nbytes isEmpty trim) vision
      apcManager) w job w') {cached : CachedPrompt PromptCacheObject}
    (hcached : job.cachedPrompt = some cached) :
    cached.tokens = job.fullPromptTokens ∧
      cached.promptCache = ⟨w.apc.copies, job.fullPromptTokens⟩ := by
  rw [cachedPrompt_eq h.keyed hprepares, Option.map_eq_some_iff] at hcached
  obtain ⟨entry, hentry, rfl⟩ := hcached
  exact ⟨rfl, congrArg (PromptCacheObject.mk w.apc.copies)
    (h.covers _ (Dict.get?_eq_some.mp hentry))⟩

/-- **What a preparation hands over**, where the cache of features serves no object that was
extended. -/
theorem Isolated.owns (h : Isolated engine holds u w) (hvision : vision.Lawful holds)
    (hsigns : SignsPrompts engine) (hembeds : EmbedsPlainly engine)
    (hprepares : PreparesFrom engine (VlmStores.caches (objectCaches nbytes isEmpty trim) vision
      apcManager) w job w') :
    Covers job.fullPromptTokens (w.apc.copies + 1) job.promptKwargs ∧
      (job.promptKwargs.promptCache = none → job.cachedPrompt = none) ∧
      (ServesFresh engine (VlmStores.caches (objectCaches nbytes isEmpty trim) vision apcManager) u
        w job → ∀ promptCache, job.promptKwargs.promptCache = some promptCache →
          u.content promptCache = job.fullPromptTokens) := by
  obtain ⟨kwargs, heq, hkwargs⟩ := hprepares.kwargs
  have hcached : ∀ cached, job.cachedPrompt = some cached →
      cached.tokens = job.fullPromptTokens ∧
        cached.promptCache = ⟨w.apc.copies, job.fullPromptTokens⟩ :=
    fun _ hcached => h.cached hprepares hcached
  -- without a prompt cache of its own, the request has the copy of the store, if there is one
  have hplain : kwargs.promptCache = none → kwargs.allTokens = none →
      Covers job.fullPromptTokens (w.apc.copies + 1) job.promptKwargs ∧
      (job.promptKwargs.promptCache = none → job.cachedPrompt = none) ∧
      ∀ promptCache, job.promptKwargs.promptCache = some promptCache →
          u.content promptCache = job.fullPromptTokens := by
    intro hnone htokens
    rw [heq, withPrompt, hnone, htokens]
    cases hprompt : job.cachedPrompt with
    | none => exact ⟨.none rfl rfl, fun _ => rfl, fun _ h => by cases h⟩
    | some cached =>
        obtain ⟨htokens, hcopy⟩ := hcached cached hprompt
        refine ⟨.some rfl (congrArg some htokens) (congrArg PromptCacheObject.covers hcopy) ?_,
          (fun h => by cases h), fun promptCache hsome => ?_⟩
        · rw [hcopy]
          exact Nat.lt_succ_self _
        · obtain rfl := Option.some.inj hsome
          have hfresh : u.appended w.apc.copies = [] := by
            by_contra hne
            exact lt_irrefl _ (h.handed _ (h.appended _ hne))
          rw [CacheUse.content, hcopy, hfresh, List.append_nil]
  rcases hkwargs with hserved | ⟨-, inputs, g, hembedded⟩
  · cases h.features hvision hsigns hprepares.tokenized hserved with
    | none hcache htokens =>
        obtain ⟨hcovers, hwhole, hcontent⟩ := hplain hcache htokens
        exact ⟨hcovers, hwhole, fun _ => hcontent⟩
    | @some served hcache htokens hcovers hid =>
        have hsame : job.promptKwargs.promptCache = some served := by
          rw [heq, withPrompt, hcache, Option.some_or]
        refine ⟨.some hsame ?_ hcovers (hid.trans (Nat.lt_succ_self _)), fun hnone => ?_,
          fun hfresh promptCache hsome => ?_⟩
        · rw [heq, withPrompt, htokens, Option.some_or]
        · rw [hsame] at hnone
          cases hnone
        · obtain rfl := Option.some.inj (hsame.symm.trans hsome)
          rw [CacheUse.content, hfresh kwargs _ hserved hcache, hcovers, List.append_nil]
  · obtain ⟨hcovers, hwhole, hcontent⟩ := hplain (hembeds _ _ _ hembedded).1
      (hembeds _ _ _ hembedded).2
    exact ⟨hcovers, hwhole, fun _ => hcontent⟩

theorem copies_asks
    (h : Asks (VlmStores.caches (objectCaches nbytes isEmpty trim) vision apcManager) w w') :
    w.apc.copies ≤ w'.apc.copies := by
  induction h with
  | refl => exact le_rfl
  | visionGet key signature _ ih => exact ih
  | lookup tokens key _ ih => exact ih.trans (Nat.le_succ _)

theorem Isolated.asked (h : Isolated engine holds u w) (hvision : vision.Lawful holds)
    (hasks : Asks (VlmStores.caches (objectCaches nbytes isEmpty trim) vision apcManager) w w') :
    Isolated engine holds u w' := by
  induction hasks with
  | refl => exact h
  | visionGet key signature _ ih =>
      refine ih.sub (fun _ => id) (fun hheld => ?_) le_rfl
      exact hvision.after_get (VlmVisionFeatureCache.cache_get vision key signature _ ▸ hheld)
  | lookup tokens key _ ih => exact ih.sub (fun _ => id) id (Nat.le_succ _)

/-- The features of a request are put into their cache. -/
theorem Isolated.visionPut (h : Isolated engine holds u w) (hvision : vision.Lawful holds)
    {prompt : String} (htokens : ∃ g, (engine.buildPromptTokens prompt g).1 = .ok tokens)
    {kwargs : PromptKwargs PromptCacheObject ξ} (hcovers : Covers tokens w.apc.copies kwargs)
    (key : String) :
    Isolated engine holds u ((VlmStores.caches (objectCaches nbytes isEmpty trim) vision
      apcManager).visionPut key (engine.promptSignature prompt tokens) kwargs w).2 := by
  generalize hput : w.vision.put vision key (engine.promptSignature prompt tokens) kwargs = stored
  have hstored : Isolated engine holds u { w with vision := stored.2 } := by
    refine ⟨h.keyed, h.covers, fun {key' snapshot} hheld => ?_, h.handed, h.appended⟩
    have hcases := VlmVisionFeatureCache.cache_put vision key
      (engine.promptSignature prompt tokens) kwargs w.vision
    rw [hput] at hcases
    rcases hcases with hsame | hnew
    · exact h.snapshots (hsame ▸ hheld)
    · rcases hvision.put (hnew ▸ hheld) with ⟨-, rfl⟩ | hold
      · obtain ⟨g, htokens⟩ := htokens
        exact ⟨prompt, g, tokens, htokens, rfl, hcovers⟩
      · exact h.snapshots hold
  rw [VlmStores.caches]
  dsimp only
  rw [hput]
  obtain ⟨_ | bytes, features⟩ := stored
  · exact hstored
  · exact hstored.evicts (VlmStores.evicts_enforce hvision _)

theorem copies_visionPut (key signature : String) (kwargs : PromptKwargs PromptCacheObject ξ)
    (w : VlmStores PromptCacheObject υ) :
    ((VlmStores.caches (objectCaches nbytes isEmpty trim) vision apcManager).visionPut key signature
      kwargs w).2.apc.copies = w.apc.copies := by
  rw [VlmStores.caches]
  dsimp only
  split
  · rfl
  · exact (VlmStores.evicts_enforce (VlmStores.lawful_true vision) _).apc.copies

theorem Owns.mono (h : Owns u w job) (hcopies : w.apc.copies ≤ w'.apc.copies) : Owns u w' job :=
  ⟨h.key, h.promptTokens, h.cached, h.covers.mono hcopies, h.whole, h.content⟩

theorem Owns.lt (h : Owns u w job) {promptCache : PromptCacheObject}
    (hcache : job.promptKwargs.promptCache = some promptCache) : promptCache.id < w.apc.copies := by
  cases h.covers with
  | none hnone _ =>
      rw [hcache] at hnone
      cases hnone
  | some hsome _ _ hid => exact Option.some.inj (hcache.symm.trans hsome) ▸ hid

/-- What the generator makes of the prompt. -/
theorem Owns.sequence (h : Owns u w job) :
    job.fullPromptTokens <+: ((insertOf job).promptKwargs.promptCache.map u.content).getD [] ++
        (insertOf job).prompt ∧
      (insertOf job).promptKwargs.allTokens.getD [] ++ (insertOf job).prompt =
        ((insertOf job).promptKwargs.promptCache.map u.content).getD [] ++
          (insertOf job).prompt := by
  have hkwargs : (insertOf job).promptKwargs = job.promptKwargs := rfl
  rw [hkwargs]
  cases h.covers with
  | none hnone htokens =>
      have hprompt : (insertOf job).prompt = job.fullPromptTokens := by
        rw [insertOf, h.whole hnone, h.promptTokens]
      rw [hnone, htokens, hprompt]
      exact ⟨List.prefix_rfl, rfl⟩
  | some hsome htokens _ _ =>
      rw [hsome, htokens, Option.map_some, Option.getD_some, Option.getD_some, h.content _ hsome]
      exact ⟨List.prefix_append _ _, rfl⟩

/-- A preparation keeps what the caches hold apart. -/
theorem Isolated.prepares (h : Isolated engine holds u w) (hvision : vision.Lawful holds)
    (hsigns : SignsPrompts engine) (hembeds : EmbedsPlainly engine)
    (hprepares : PreparesFrom engine (VlmStores.caches (objectCaches nbytes isEmpty trim) vision
      apcManager) w job w') :
    Isolated engine holds u w' ∧ w.apc.copies + 1 ≤ w'.apc.copies := by
  obtain ⟨hcovers, -, -⟩ := h.owns hvision hsigns hembeds hprepares
  generalize hstore : VlmStores.caches (objectCaches nbytes isEmpty trim) vision apcManager = store
    at hprepares
  have hasks := (asks_featuresFor store engine job w).lookup job.fullPromptTokens job.apcCacheKey
  have hcopies : (store.lookup job.fullPromptTokens job.apcCacheKey
      (featuresFor engine store job w).2).2.apc.copies = w.apc.copies + 1 := by
    rw [← hstore]
    show (featuresFor engine _ job w).2.apc.copies + 1 = _
    rw [apc_featuresFor]
  have hfound : Isolated engine holds u (store.lookup job.fullPromptTokens job.apcCacheKey
      (featuresFor engine store job w).2).2 := by
    subst hstore
    exact h.asked hvision hasks
  rw [hprepares.after]
  dsimp only
  split
  · rw [← hcopies] at hcovers ⊢
    subst hstore
    exact ⟨hfound.visionPut hvision hprepares.tokenized hcovers _, (copies_visionPut _ _ _ _).ge⟩
  · exact ⟨hfound, hcopies.ge⟩

variable {gen : VlmGenerator γ F PromptCacheObject ξ} {view : γ → CacheUse}

variable (nbytes isEmpty apcManager) in
/-- The calls keep what the caches hold apart. -/
theorem cacheRule_isolated (htracks : TracksCaches engine gen view) (hvision : vision.Lawful holds)
    (hsigns : SignsPrompts engine) (hembeds : EmbedsPlainly engine) (htrim : TrimsLast trim) :
    CacheRule engine gen (VlmStores.caches (objectCaches nbytes isEmpty trim) vision apcManager)
      view (fun u w => Isolated engine holds u w)
      (fun u uid tokens key => key.promptTokens = tokens ∧ tokens <+: u.covered uid ∧
        u.listed uid = u.covered uid) (fun u w job => Owns u w job)
      (fun u w job => ServesFresh engine
        (VlmStores.caches (objectCaches nbytes isEmpty trim) vision apcManager) u w job) where
  engineCalls := htracks.engineCalls
  construct key g := by
    have hextends := htracks.construct key g
    refine ⟨fun w h => h.extends (fun id hid => h.handed id (hextends.handed id hid))
      (htracks.appended _), fun uid tokens key h => ?_⟩
    rwa [hextends.covered, hextends.listed]
  next g := by
    have hextends := htracks.next g
    refine ⟨fun w h => h.extends (fun id hid => h.handed id (hextends.handed id hid))
      (htracks.appended _), fun uid tokens key h => ?_⟩
    rwa [hextends.covered, hextends.listed]
  remove uid g := by
    have hextends := htracks.remove uid g
    refine ⟨fun w h => h.extends (fun id hid => h.handed id (hextends.handed id hid))
      (htracks.appended _), fun uid tokens key h => ?_⟩
    rwa [hextends.covered, hextends.listed]
  setActiveBatchBytes := by
    intro u w n h
    have hevicts := VlmStores.evicts_enforce hvision { w with vlmBatchBytes := n }
    exact h.evicts ⟨hevicts.apc, hevicts.vision⟩
  remember := by
    intro g prompts responses response promptCache tokens generated key value w hnext hresponse
      hcache hjob h hvalue
    obtain ⟨hkey, hstart, hlisted⟩ := hjob
    obtain ⟨rest, hcovers, htold⟩ := htracks.response hnext hresponse hcache
    rw [← (htracks.next g).covered] at hcovers
    rw [← (htracks.next g).listed, hlisted] at htold
    have hsame := covers_value htrim hcovers htold hstart hvalue
    rw [VlmStores.caches]
    dsimp only
    cases hstored : w.apc.remember (objectCaches nbytes isEmpty trim) tokens value key with
    | none => exact h
    | some apc =>
        obtain ⟨hentries, hcopies⟩ := PromptCacheStore.remember_eq_some hstored
        have hremembered : Isolated engine holds (view (gen.next g).2) { w with apc := apc } := by
          refine ⟨fun entry hentry => ?_, fun entry hentry => ?_, fun hheld => ?_, fun id hid => ?_,
            h.appended⟩
          · rcases hentries entry hentry with rfl | hold
            · exact hkey
            · exact h.keyed entry hold
          · rcases hentries entry hentry with rfl | hold
            · exact hsame
            · exact h.covers entry hold
          · obtain ⟨prompt, g, tokens, htokens, hsignature, hcovers⟩ := h.snapshots hheld
            exact ⟨prompt, g, tokens, htokens, hsignature, hcovers.mono (by rw [hcopies]; omega)⟩
          · rw [hcopies]
            exact (h.handed id hid).trans (Nat.lt_succ_self _)
        exact hremembered.evicts (VlmStores.evicts_enforce hvision _)
  asks := by
    intro u w w' hasks
    exact ⟨fun h => h.asked hvision hasks, fun job h => h.mono (copies_asks hasks)⟩
  prepares := by
    intro u w job w' hprepares h
    obtain ⟨hisolated, hcopies⟩ := h.prepares hvision hsigns hembeds hprepares
    obtain ⟨hcovers, hwhole, hcontent⟩ := h.owns hvision hsigns hembeds hprepares
    refine ⟨hisolated, fun hfresh => ?_, fun job' h' => h'.mono (by omega)⟩
    exact ⟨hprepares.key, hprepares.promptTokens, fun cached hcached =>
      (h.cached hprepares hcached).1, hcovers.mono hcopies, hwhole, hcontent hfresh⟩
  insert := by
    intro batch g w h hready
    refine h.extends (fun id hid => ?_) (htracks.appended _)
    rcases htracks.handed _ _ _ hid with hold | ⟨i, hi, promptCache, hcache, rfl⟩
    · exact h.handed id hold
    · obtain ⟨job, hjob, rfl⟩ := List.mem_map.mp hi
      exact (hready job hjob).lt hcache
  inserted := by
    intro batch g w uids h hready hcall _
    obtain ⟨-, -, hnew, hold⟩ := htracks.inserted hcall
    refine ⟨fun entry hentry => ?_, fun uid tokens key huid hjob => ?_⟩
    · have hjob := hready _ (List.of_mem_zip hentry).1
      have hmem : (insertOf entry.1, entry.2) ∈ (batch.map insertOf).zip uids := by
        rw [List.zip_map_left]
        exact List.mem_map.mpr ⟨entry, hentry, rfl⟩
      obtain ⟨hcovered, hlisted⟩ := hnew _ hmem
      rw [hcovered, hlisted]
      exact ⟨hjob.key, hjob.sequence⟩
    · rw [(hold uid huid).1, (hold uid huid).2]
      exact hjob
  refused := by
    intro batch g hnone uid tokens key hjob
    cases hcall : (gen.insert (batch.map insertOf) g).1 with
    | error e =>
        obtain ⟨hcovered, hlisted⟩ := htracks.refused hcall
        rwa [hcovered, hlisted]
    | ok uids =>
        obtain ⟨hlength, hnodup, -⟩ := htracks.inserted hcall
        rw [List.length_map] at hlength
        exact absurd (uidsError_eq_none.mpr ⟨hlength, hnodup⟩) (hnone uids hcall)

/-- What a request hands over is its own just when the cache of features serves no object that was
extended. -/
theorem Isolated.handsOwn_iff (h : Isolated engine holds u w) (hvision : vision.Lawful holds)
    (hsigns : SignsPrompts engine) (hembeds : EmbedsPlainly engine)
    (hprepares : PreparesFrom engine (VlmStores.caches (objectCaches nbytes isEmpty trim) vision
      apcManager) w job w') :
    HandsOwn u job ↔ ServesFresh engine
      (VlmStores.caches (objectCaches nbytes isEmpty trim) vision apcManager) u w job := by
  obtain ⟨hcovers, -, hcontent⟩ := h.owns hvision hsigns hembeds hprepares
  constructor
  · intro hown kwargs promptCache hserved hcache
    obtain ⟨kwargs', heq, hkwargs⟩ := hprepares.kwargs
    have hsame : kwargs' = kwargs := by
      rcases hkwargs with hserved' | ⟨hnone, -⟩
      · exact Option.some.inj (hserved'.symm.trans hserved)
      · rw [hserved] at hnone
        cases hnone
    subst hsame
    cases h.features hvision hsigns hprepares.tokenized hserved with
    | none hnone _ =>
        rw [hcache] at hnone
        cases hnone
    | @some served hsome htokens hfull _ =>
        obtain rfl := Option.some.inj (hcache.symm.trans hsome)
        obtain ⟨tokens, hpassed, hnow, -⟩ := hown promptCache (by
          rw [heq, withPrompt, hcache, Option.some_or])
        rw [heq, withPrompt, htokens, Option.some_or] at hpassed
        rw [← Option.some.inj hpassed, CacheUse.content, hfull] at hnow
        exact List.append_right_eq_self.mp hnow
  · intro hfresh promptCache hcache
    cases hcovers with
    | none hnone _ =>
        rw [hcache] at hnone
        cases hnone
    | some _ htokens _ _ =>
        exact ⟨_, htokens, hcontent hfresh promptCache hcache, List.prefix_rfl⟩

variable [DecidableEq ρ] [DecidableEq F]

/-- A generator with the objects that it was handed, and for each sequence the tokens that its
prompt cache covers and those that it was told. -/
structure ExtendingState where
  handed : List ℕ := []
  sequences : List (List Token × List Token) := []

/-- It appends a token to every object that it is handed. -/
def extendingUse (g : ExtendingState) : CacheUse where
  handed id := id ∈ g.handed
  appended id := if id ∈ g.handed then [5] else []
  covered uid := (g.sequences[uid]?.map Prod.fst).getD []
  listed uid := (g.sequences[uid]?.map Prod.snd).getD []

/-- The response with which a sequence ends: it has one more token. -/
def extendedResponse (sequence : (List Token × List Token) × ℕ) :
    VlmGeneration PromptCacheObject :=
  ⟨sequence.2, some 5, [], some "stop", some ⟨0, sequence.1.1 ++ [5]⟩,
    some (sequence.1.2 ++ [5]), none, none, none⟩

/-- The sequence of a request that is inserted. -/
def insertedSequence (g : ExtendingState) (i : VlmInsert PromptCacheObject Unit) :
    List Token × List Token :=
  ((i.promptKwargs.promptCache.map (extendingUse g).content).getD [] ++ i.prompt,
    i.promptKwargs.allTokens.getD [] ++ i.prompt)

/-- Every sequence ends at once. -/
def extendingVlm : VlmGenerator ExtendingState ℕ PromptCacheObject Unit where
  construct _ g := (.ok (), g)
  next g := (.ok ([], g.sequences.zipIdx.map extendedResponse), g)
  insert inserts g := (.ok (List.range' g.sequences.length inserts.length),
    { handed := g.handed ++ inserts.filterMap fun i =>
        i.promptKwargs.promptCache.map PromptCacheObject.id
      sequences := g.sequences ++ inserts.map (insertedSequence g) })
  remove _ g := (.ok (), g)
  promptCacheNbytes _ := 0

/-- Prompts of one token, with a picture. -/
def pictureEngine : VlmEngine ExtendingState ℕ ℕ PromptCacheObject Unit Unit where
  modelId := "vlm"
  processorType := "Processor"
  chatTemplate := none
  adapterName := none
  tenantScope := none
  decode := none
  extractChatAndImage _ g := (.ok ["cat.png"], g)
  buildPromptStr _ _ g := (.ok "what is it", g)
  buildPromptTokens _ g := (.ok [1], g)
  validateTokenLimits _ _ := .ok ()
  prepareInputs _ _ g := (.ok (), g)
  getInputEmbeddings _ g := (.ok (some ⟨(), none, none⟩), g)
  imageCacheKey _ _ := ["file:cat"]
  imageApcHash _ _ := 0
  promptSignature prompt _ := prompt
  imageDimensions _ := (none, none)

/-- A cache of features that is a dictionary. -/
def dictFeatures : VisionFeatureCache (List (String × VisionCacheSnapshot PromptCacheObject Unit))
    PromptCacheObject Unit where
  get key v := ((v.find? fun entry => entry.1 = key).map Prod.snd, v)
  put key snapshot v := v.filter (fun entry => entry.1 ≠ key) ++ [(key, snapshot)]
  length v := v.length
  contains key v := v.any fun entry => entry.1 = key
  internal v := some v
  pop key v := v.filter fun entry => entry.1 ≠ key
  nbytes _ := 1

/-- The caches of the example. -/
def pictureCaches : VlmCaches (VlmStores PromptCacheObject
    (List (String × VisionCacheSnapshot PromptCacheObject Unit))) PromptCacheObject Unit :=
  VlmStores.caches (objectCaches (fun _ => 1) (fun _ => false)
    fun k n => some { k with covers := k.covers.take (k.covers.length - n) }) dictFeatures false

/-- A run of the example. -/
def pictureRun (ops : List (CacheOp ℕ ℕ StoreEvent)) :
    VlmScheduler ℕ ℕ PromptCacheObject Unit ExtendingState
      (VlmStores PromptCacheObject (List (String × VisionCacheSnapshot PromptCacheObject Unit))) :=
  Run.exec (cacheStep pictureEngine extendingVlm pictureCaches {}
    fun w event => w.apply dictFeatures event) (.start {} (.new 32 64 20 64 128 [])) ops

/-- A request from its submission to its response. -/
def served (id : ℕ) : List (CacheOp ℕ ℕ StoreEvent) :=
  [.scheduler (.submit (plainRequest id "vlm")), .scheduler (.tick fun _ _ => false),
    .scheduler (.tick fun _ _ => false)]

/-- A sequence that was inserted is the one at its uid. -/
theorem getElem?_insert {α β : Type} (sequences : List β) (f : α → β) (inserts : List α)
    {entry : α × ℕ}
    (hentry : entry ∈ inserts.zip (List.range' sequences.length inserts.length)) :
    (sequences ++ inserts.map f)[entry.2]? = some (f entry.1) := by
  obtain ⟨k, hk, rfl⟩ := List.mem_iff_getElem.mp hentry
  rw [List.getElem_zip]
  dsimp only
  rw [List.getElem_range', Nat.one_mul, List.getElem?_append_right (Nat.le_add_right _ _),
    Nat.add_sub_cancel_left, List.getElem?_map, List.getElem?_eq_getElem, Option.map_some]

theorem tracksCaches_extending : TracksCaches pictureEngine extendingVlm extendingUse where
  engineCalls u := by constructor <;> intros <;> exact fun _ _ h => h
  appended g id h := by
    by_contra hid
    exact h (if_neg hid)
  construct key g := ⟨fun _ => id, rfl, rfl⟩
  next g := ⟨fun _ => id, rfl, rfl⟩
  remove uid g := ⟨fun _ => id, rfl, rfl⟩
  response := by
    intro g prompts responses response promptCache hnext hresponse hcache
    obtain rfl := (Prod.mk.inj (Except.ok.inj hnext)).2
    obtain ⟨⟨sequence, uid⟩, hmem, rfl⟩ := List.mem_map.mp hresponse
    have hsequence : g.sequences[uid]? = some sequence := List.mem_zipIdx_iff_getElem?.mp hmem
    refine ⟨[5], ?_, ?_⟩
    · rw [← Option.some.inj hcache]
      simp [extendingUse, extendedResponse, hsequence]
    · simp [extendingUse, extendedResponse, hsequence]
  handed inserts g id h := by
    rcases List.mem_append.mp h with hold | hnew
    · exact .inl hold
    · obtain ⟨i, hi, hid⟩ := List.mem_filterMap.mp hnew
      obtain ⟨promptCache, hcache, rfl⟩ := Option.map_eq_some_iff.mp hid
      exact .inr ⟨i, hi, promptCache, hcache, rfl⟩
  inserted := by
    intro inserts g uids h
    obtain rfl := Except.ok.inj h
    refine ⟨List.length_range', List.nodup_range', fun entry hentry => ?_, fun uid huid => ?_⟩
    · have hsequence := getElem?_insert g.sequences (insertedSequence g) inserts hentry
      simp [extendingUse, extendingVlm, hsequence, insertedSequence]
    · have hout : (g.sequences ++ inserts.map (insertedSequence g))[uid]? = g.sequences[uid]? := by
        rcases Nat.lt_or_ge uid g.sequences.length with hlt | hge
        · exact List.getElem?_append_left hlt
        · rw [List.getElem?_eq_none hge, List.getElem?_eq_none]
          rw [List.mem_range'_1] at huid
          rw [List.length_append, List.length_map]
          omega
      simp [extendingUse, extendingVlm, hout]
  refused h := by cases h

theorem lawful_dictFeatures : dictFeatures.Lawful fun v key snapshot => (key, snapshot) ∈ v where
  get h := by
    obtain ⟨entry, hentry, rfl⟩ := Option.map_eq_some_iff.mp h
    have hkey := List.find?_some hentry
    rw [decide_eq_true_eq] at hkey
    rw [← hkey]
    exact List.mem_of_find?_eq_some hentry
  after_get := id
  put h := by
    rcases List.mem_append.mp h with hold | hnew
    · exact .inr (List.mem_filter.mp hold).1
    · obtain ⟨rfl, rfl⟩ := Prod.mk.inj (List.mem_singleton.mp hnew)
      exact .inl ⟨rfl, rfl⟩
  pop h := (List.mem_filter.mp h).1

end VlmScheduler
end MlxRuntime
