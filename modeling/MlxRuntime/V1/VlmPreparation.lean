import MlxRuntime.V1.VlmAdmission
import MlxRuntime.V1.VlmStores

/-!
# What a preparation makes of a request

A preparation asks the feature cache and the store of prompt caches, and puts what they have into
the `prompt_kwargs` of the request.  The requests that an admission inserts are those that it has
prepared.

## Main definitions

* `VlmScheduler.PreparesFrom` — a preparation, by the caches before and after it.
* `VlmScheduler.preparations` — the preparations of an admission, with the state before each.
* `VlmScheduler.CacheRule` — what is kept by the calls of the engine, the generator and the caches.
* `VlmScheduler.Inv`, `VlmScheduler.inv_step` — the invariant, and every operation.
-/

namespace MlxRuntime.VlmScheduler

open Method

variable {ρ F κ ξ ι γ ω : Type}

section Preparation

variable (engine : VlmEngine γ ρ F κ ξ ι) (store : VlmCaches ω κ ξ)

/-- What the feature cache answers for a request. -/
def featuresFor (job : ScheduledVlmRequest ρ F κ ξ) (w : ω) : Option (PromptKwargs κ ξ) × ω :=
  if job.imagePaths ≠ [] then
    store.visionGet ("|".intercalate job.apcCacheKey.imageCacheKey)
      (engine.promptSignature job.prompt job.fullPromptTokens) w
  else (none, w)

/-- `setdefault` of what the store of prompt caches has. -/
def withPrompt (kwargs : PromptKwargs κ ξ) (cached : Option (CachedPrompt κ)) : PromptKwargs κ ξ :=
  { kwargs with
    promptCache := kwargs.promptCache.or (cached.map CachedPrompt.promptCache)
    allTokens := kwargs.allTokens.or (cached.map CachedPrompt.tokens) }

/-- The request comes from a preparation that found the caches `w`, and left `w'`. -/
structure PreparesFrom (w : ω) (job : ScheduledVlmRequest ρ F κ ξ) (w' : ω) : Prop where
  tokenized : ∃ g, (engine.buildPromptTokens job.prompt g).1 = .ok job.fullPromptTokens
  promptTokens : job.promptTokens = job.fullPromptTokens
  key : job.apcCacheKey.promptTokens = job.fullPromptTokens
  cached : job.cachedPrompt = (store.lookup job.fullPromptTokens job.apcCacheKey
    (featuresFor engine store job w).2).1
  /-- The other arguments are those of the feature cache, or those of the embedding. -/
  kwargs : ∃ kwargs, job.promptKwargs = withPrompt kwargs job.cachedPrompt ∧
    ((featuresFor engine store job w).1 = some kwargs ∨
      (featuresFor engine store job w).1 = none ∧
        ∃ inputs g, (engine.getInputEmbeddings inputs g).1 = .ok (some kwargs))
  after : w' =
    let found := (store.lookup job.fullPromptTokens job.apcCacheKey
      (featuresFor engine store job w).2).2
    if job.imagePaths ≠ [] ∧ (featuresFor engine store job w).1.isNone then
      (store.visionPut ("|".intercalate job.apcCacheKey.imageCacheKey)
        (engine.promptSignature job.prompt job.fullPromptTokens) job.promptKwargs found).2
    else found

/-- The caches were asked. -/
inductive Asks (w : ω) : ω → Prop
  | refl : Asks w w
  | visionGet {w' : ω} (key signature : String) (h : Asks w w') :
      Asks w (store.visionGet key signature w').2
  | lookup {w' : ω} (tokens : List Token) (key : ApcCacheKey) (h : Asks w w') :
      Asks w (store.lookup tokens key w').2

variable {engine store} {s s' : VlmScheduler ρ F κ ξ γ ω}

/-- The caches are as they were. -/
abbrev CachesAre (w : ω) (s : VlmScheduler ρ F κ ξ γ ω) : Prop := s.caches = w

variable {w : ω}

theorem cachesAre_prepareCall {α : Type} (f : γ → Except PyError α × γ) (h : CachesAre w s) :
    (prepareCall f : Preparing ρ F κ ξ γ ω α).wp
      (fun a s' => CachesAre w s' ∧ ∃ g, (f g).1 = .ok a) (fun _ => CachesAre w) s := by
  rw [prepareCall, wp_call]
  refine ⟨fun a g hg => ⟨h, s.library, ?_⟩, fun _ _ _ => h⟩
  have hfst := congrArg Prod.fst hg
  dsimp only at hfst
  cases hcall : (f s.library).1 with
  | error e =>
      rw [hcall] at hfst
      cases hfst
  | ok out =>
      rw [hcall] at hfst
      exact congrArg Except.ok (Except.ok.inj hfst)

theorem cachesAre_checkCancelled [DecidableEq ρ] (requestId : ρ) (marked : Bool)
    (h : CachesAre w s) :
    (checkCancelled requestId marked : Preparing ρ F κ ξ γ ω Unit).wp (fun _ => CachesAre w)
      (fun _ => CachesAre w) s := by
  rw [checkCancelled, wp_bind, wp_get]
  exact wp_when.mpr ⟨fun _ => h, fun _ => h⟩

theorem cachesAre_embed [DecidableEq ρ] (requestId : ρ) (marked : Bool)
    (cached : Option (PromptKwargs κ ξ)) (inputs : ι) (h : CachesAre w s) :
    (embed engine requestId marked cached inputs : Preparing ρ F κ ξ γ ω (PromptKwargs κ ξ)).wp
      (fun kwargs s' => CachesAre w s' ∧ (cached = some kwargs ∨ cached = none ∧
        ∃ inputs g, (engine.getInputEmbeddings inputs g).1 = .ok (some kwargs)))
      (fun _ => CachesAre w) s := by
  cases cached with
  | some kwargs => exact ⟨h, .inl rfl⟩
  | none =>
      rw [embed, wp_bind]
      refine (cachesAre_prepareCall _ h).mono (fun output s₁ h₁ => ?_) fun _ _ => id
      obtain ⟨h₁, g, hcall⟩ := h₁
      rw [wp_bind]
      refine (cachesAre_checkCancelled requestId marked h₁).mono (fun _ s₂ h₂ => ?_)
        fun _ _ => id
      cases output with
      | none => exact h₂
      | some kwargs => exact ⟨h₂, .inr ⟨rfl, inputs, g, hcall⟩⟩

variable (store) in
theorem asks_featuresFor (engine : VlmEngine γ ρ F κ ξ ι) (job : ScheduledVlmRequest ρ F κ ξ)
    (w : ω) : Asks store w (featuresFor engine store job w).2 := by
  rw [featuresFor]
  split
  · exact .visionGet _ _ .refl
  · exact .refl

/-- **A preparation**, by the caches before and after it. -/
theorem preparesFrom_prepareRequest [DecidableEq ρ] (marks : ℕ → Bool) (request : ChatRequest ρ F)
    (h : CachesAre w s) :
    (prepareRequest engine store marks request :
      Preparing ρ F κ ξ γ ω (ScheduledVlmRequest ρ F κ ξ)).wp
      (fun job s' => PreparesFrom engine store w job s'.caches)
      (fun _ s' => Asks store w s'.caches) s := by
  have hasks : ∀ s' : VlmScheduler ρ F κ ξ γ ω, CachesAre w s' →
      Asks store w s'.caches := by
    intro s' h
    rw [h]
    exact .refl
  have hsame := fun (_ : PreparationError) => hasks
  unfold prepareRequest
  dsimp only
  rw [wp_bind]
  refine (cachesAre_checkCancelled _ _ h).mono (fun _ s h => ?_) hsame
  rw [wp_bind]
  refine (cachesAre_prepareCall _ h).mono (fun images s h => ?_) hsame
  obtain ⟨h, -⟩ := h
  rw [wp_bind]
  refine (cachesAre_checkCancelled _ _ h).mono (fun _ s h => ?_) hsame
  rw [wp_bind]
  refine (cachesAre_prepareCall _ h).mono (fun prompt s h => ?_) hsame
  obtain ⟨h, -⟩ := h
  rw [wp_bind]
  refine (cachesAre_prepareCall _ h).mono (fun tokens s h => ?_) hsame
  obtain ⟨h, htokenized⟩ := h
  rw [wp_bind, wp_ofExcept]
  refine ⟨fun _ _ => ?_, fun _ _ => hasks s h⟩
  rw [wp_bind]
  refine (cachesAre_checkCancelled _ _ h).mono (fun _ s h => ?_) hsame
  rw [wp_bind]
  refine (cachesAre_prepareCall _ h).mono (fun inputs s h => ?_) hsame
  obtain ⟨h, -⟩ := h
  rw [wp_bind]
  refine (cachesAre_checkCancelled _ _ h).mono (fun _ s h => ?_) hsame
  rw [wp_bind, wp_get]
  -- from here on, what is known of the request are its tokens and its keys
  have hkey : (engine.apcCacheKey tokens images inputs s.library).promptTokens = tokens ∧
      (engine.apcCacheKey tokens images inputs s.library).imageCacheKey =
        engine.imageCacheKey images s.library := ⟨rfl, rfl⟩
  rw [← hkey.2]
  generalize engine.apcCacheKey tokens images inputs s.library = key at hkey
  have htokens := hkey.1
  generalize hvision : "|".intercalate key.imageCacheKey = visionKey
  generalize hsignature : engine.promptSignature prompt tokens = signature
  rw [wp_bind, wp_call, show s.caches = w from h]
  refine ⟨fun cached w₁ hcached => ?_, fun e w₁ he => ?_⟩
  · have hfeatures : (if images ≠ [] then store.visionGet visionKey signature w else (none, w)) =
        (cached, w₁) := by
      split at hcached
      · obtain ⟨hfst, hsnd⟩ := Prod.mk.inj hcached
        rw [if_pos ‹_›]
        exact Prod.ext (Except.ok.inj hfst) hsnd
      · obtain ⟨hfst, hsnd⟩ := Prod.mk.inj hcached
        rw [if_neg ‹_›]
        exact Prod.ext (Except.ok.inj hfst) hsnd
    have hanswer : ∀ job : ScheduledVlmRequest ρ F κ ξ, job.imagePaths = images →
        job.apcCacheKey = key → job.prompt = prompt → job.fullPromptTokens = tokens →
        featuresFor engine store job w = (cached, w₁) := by
      intro job himages hkey hprompt htokens
      rw [featuresFor, himages, hkey, hprompt, htokens, hvision, hsignature, hfeatures]
    have hasked : Asks store w w₁ := by
      split at hfeatures
      · have hasked : Asks store w (store.visionGet visionKey signature w).2 :=
          .visionGet visionKey signature .refl
        rwa [hfeatures] at hasked
      · obtain rfl := (Prod.mk.inj hfeatures).2
        exact .refl
    rw [wp_bind, wp_call]
    refine ⟨fun found w₂ hfound => ?_, fun e w₂ he => ?_⟩
    · obtain ⟨hfst, hsnd⟩ := Prod.mk.inj hfound
      have hlookup : store.lookup tokens key w₁ = (found, w₂) :=
        Prod.ext (Except.ok.inj hfst) hsnd
      clear hfst hsnd hfound hcached hfeatures
      rw [wp_bind]
      refine (cachesAre_embed request.requestId (marks 4) cached inputs (w := w₂) rfl).mono
        (fun kwargs s₃ h₃ => ?_) fun e s₃ h₃ => ?_
      · obtain ⟨hcaches, hkwargs⟩ := h₃
        rw [wp_bind, wp_call, show s₃.caches = w₂ from hcaches]
        refine ⟨fun bytes w₄ hbytes => ?_, fun e w₄ he => ?_⟩
        · rw [wp_pure]
          refine ⟨htokenized, rfl, htokens, ?_, ⟨kwargs, rfl, ?_⟩, ?_⟩
          · rw [hanswer _ rfl rfl rfl rfl]
            exact (congrArg Prod.fst hlookup).symm
          · rw [hanswer _ rfl rfl rfl rfl]
            exact hkwargs
          · rw [hanswer _ rfl rfl rfl rfl]
            dsimp only
            rw [hlookup, hvision, hsignature]
            split at hbytes
            · rw [if_pos ‹_›]
              exact (Prod.mk.inj hbytes).2.symm
            · rw [if_neg ‹_›]
              exact (Prod.mk.inj hbytes).2.symm
        · split at he
          · cases congrArg Prod.fst he
          · cases congrArg Prod.fst he
      · rw [show s₃.caches = w₂ from h₃]
        have hafter := hasked.lookup tokens key
        rwa [hlookup] at hafter
    · cases congrArg Prod.fst he
  · split at he
    · cases congrArg Prod.fst he
    · cases congrArg Prod.fst he

end Preparation

/-! ## The preparations of an admission -/

section Preparations

variable [DecidableEq ρ] [DecidableEq F] (engine : VlmEngine γ ρ F κ ξ ι)
  (gen : VlmGenerator γ F κ ξ) (store : VlmCaches ω κ ξ) (config : V1Config)

/-- The preparations of the loop of `_admit_pending` that bring a request, with the state before
each; `ready` are the requests that are ready. -/
def preparationsOf (marks : ρ → ℕ → Bool) :
    List (ChatRequest ρ F) → ℕ → VlmScheduler ρ F κ ξ γ ω →
      List (VlmScheduler ρ F κ ξ γ ω × ScheduledVlmRequest ρ F κ ξ)
  | [], _, _ => []
  | request :: rest, ready, s =>
      if config.decodeConcurrency ≤ s.active.keys.length + ready then []
      else if some (samplingKey request) ≠ s.generatorSamplingKey then
        preparationsOf marks rest ready { s with pending := rest }
      else
        match (prepare engine store config marks request).run { s with pending := rest } with
        | (.error _, _) => []
        | (.ok job, s') =>
            job.toList.map (({ s with pending := rest }, ·)) ++
              if config.promptConcurrency ≤ ready + job.toList.length then []
              else preparationsOf marks rest (ready + job.toList.length) s'

/-- The preparations of an admission that bring a request. -/
def admissionPreparations (marks : ρ → ℕ → Bool) (a : VlmScheduler ρ F κ ξ γ ω) :
    List (VlmScheduler ρ F κ ξ γ ω × ScheduledVlmRequest ρ F κ ξ) :=
  if a.pending = [] ∨ config.decodeConcurrency ≤ a.active.keys.length then []
  else
    match (ensureGenerator gen).run a with
    | (.ok true, s') => preparationsOf engine store config marks a.pending 0 s'
    | (.ok false, _) | (.error _, _) => []

/-- The preparations of a tick that bring a request. -/
def preparations (marks : ρ → ℕ → Bool) (s : VlmScheduler ρ F κ ξ γ ω) :
    List (VlmScheduler ρ F κ ξ γ ω × ScheduledVlmRequest ρ F κ ξ) :=
  match admissionState engine gen store config s with
  | none => []
  | some a => admissionPreparations engine gen store config marks a

/-- The batch that a tick inserts. -/
def batchOf (marks : ρ → ℕ → Bool) (s : VlmScheduler ρ F κ ξ γ ω) :
    List (ScheduledVlmRequest ρ F κ ξ) :=
  match admissionState engine gen store config s with
  | none => []
  | some a =>
      if a.pending = [] ∨ config.decodeConcurrency ≤ a.active.keys.length then []
      else
        match (ensureGenerator gen).run a with
        | (.ok true, s') =>
            match (takeBatch engine store config marks a.pending [] []).run s' with
            | (.ok (_, batch), _) => batch
            | (.error _, _) => []
        | (.ok false, _) | (.error _, _) => []

variable {engine gen store config} {s s' : VlmScheduler ρ F κ ξ γ ω} {marks : ρ → ℕ → Bool}

/-- What a call of `prepare` has done. -/
structure HasPrepared {υ : Type} (engine : VlmEngine γ ρ F κ ξ ι) (store : VlmCaches ω κ ξ)
    (view : γ → υ) (s : VlmScheduler ρ F κ ξ γ ω) (job : Option (ScheduledVlmRequest ρ F κ ξ))
    (s' : VlmScheduler ρ F κ ξ γ ω) : Prop where
  steady : Steady (fun _ _ => False) s s'
  view : view s'.library = view s.library
  asked : job = none → Asks store s.caches s'.caches
  prepared : ∀ job', job = some job' → PreparesFrom engine store s.caches job' s'.caches

variable (store config marks) in
omit [DecidableEq F] in
theorem hasPrepared_prepare {υ : Type} {view : γ → υ}
    (hengine : ∀ v, EngineKeepsUids engine fun g _ => view g = v) (request : ChatRequest ρ F)
    (s : VlmScheduler ρ F κ ξ γ ω) :
    (prepare engine store config marks request :
      Call ρ F κ ξ γ ω (Option (ScheduledVlmRequest ρ F κ ξ))).wp (HasPrepared engine store view s)
      (fun _ _ => False) s := by
  let s₀ : VlmScheduler ρ F κ ξ γ ω := { s with preparing := request.requestId :: s.preparing }
  have hstart : Framed (fun g _ => view g = view s.library) s s₀ :=
    ⟨⟨rfl, rfl, rfl, rfl, fun _ => id⟩, rfl⟩
  have hcaches : CachesAre s.caches s₀ := rfl
  have hprepared := (framed_prepareRequest store (hengine (view s.library))
    (marks request.requestId) request hstart).and (preparesFrom_prepareRequest _ request hcaches)
  -- what follows the preparation writes neither the library nor the caches
  have hend : ∀ s₁ result, Framed (fun g _ => view g = view s.library) s s₁ →
      (∀ e, result = .error e → Asks store s.caches s₁.caches) →
      (∀ job, result = .ok job → PreparesFrom engine store s.caches job s₁.caches) → (do
        let job ← endPreparation engine store config request.requestId result
        .modify fun s => { s with
          preparing := s.preparing.filter (· ≠ request.requestId)
          cancelledPreparing := s.cancelledPreparing.filter (· ≠ request.requestId) }
        return job : Call ρ F κ ξ γ ω (Option (ScheduledVlmRequest ρ F κ ξ))).wp
          (HasPrepared engine store view s) (fun _ _ => False) s₁ := by
    intro s₁ result h hasked hjob
    have hview : view s₁.library = view s.library := h.issued 0 rfl
    have hsteady : Steady (fun _ _ => False) s s₁ :=
      ⟨h.pending, h.active, h.generator, h.generatorSamplingKey, fun _ => id⟩
    cases result with
    | ok job =>
        refine ⟨hsteady.trans ⟨rfl, rfl, rfl, rfl, fun _ => id⟩, hview, (fun h => by cases h), ?_⟩
        rintro job' hjob'
        obtain rfl := Option.some.inj hjob'
        exact hjob job rfl
    | error e =>
        cases e with
        | cancelled =>
            exact ⟨hsteady.trans ⟨rfl, rfl, rfl, rfl, fun _ => id⟩, hview, fun _ => hasked _ rfl,
              fun _ h => by cases h⟩
        | raised e =>
            exact ⟨hsteady.trans ⟨rfl, rfl, rfl, rfl, fun _ => id⟩, hview, fun _ => hasked _ rfl,
              fun _ h => by cases h⟩
  unfold prepare
  rw [wp_bind, wp_modify, wp_bind, wp_attempt]
  refine hprepared.mono (fun job s₁ h => ?_) fun e s₁ h => ?_
  · refine hend s₁ (.ok job) h.1.1 (fun _ h => by cases h) fun job' hjob' => ?_
    exact Except.ok.inj hjob' ▸ h.2
  · exact hend s₁ (.error e) h.1 (fun _ _ => h.2) (fun _ h => by cases h)

end Preparations

/-! ## What a tick keeps -/

section Rule

variable {υ : Type} (engine : VlmEngine γ ρ F κ ξ ι) (gen : VlmGenerator γ F κ ξ)
  (store : VlmCaches ω κ ξ) (view : γ → υ) (W : υ → ω → Prop)
  (J : υ → ℕ → List Token → ApcCacheKey → Prop) (P : υ → ω → ScheduledVlmRequest ρ F κ ξ → Prop)
  (ok : υ → ω → ScheduledVlmRequest ρ F κ ξ → Prop)

/-- The caches satisfy `W` and the requests that run `J`; what is seen of the library is `view`. -/
structure Inv (s : VlmScheduler ρ F κ ξ γ ω) : Prop where
  caches : W (view s.library) s.caches
  jobs : ∀ entry ∈ s.active.entries,
    J (view s.library) entry.1 entry.2.fullPromptTokens entry.2.apcCacheKey

/-- A call of the generator keeps `W` and `J`. -/
structure Keeps (g g' : γ) : Prop where
  caches : ∀ w, W (view g) w → W (view g') w
  jobs : ∀ uid tokens key, J (view g) uid tokens key → J (view g') uid tokens key

/-- The sequence that `_finish` takes a response for. -/
def sequenceOf (response : VlmGeneration κ) (fullPromptTokens generated : List Token) : List Token :=
  match response.allTokens with
  | some (token :: tokens) => token :: tokens
  | _ => fullPromptTokens ++ generated

/-- What the calls keep; a request that was prepared from caches with `ok` has `P`. -/
structure CacheRule : Prop where
  engineCalls : ∀ v, EngineKeepsUids engine fun g _ => view g = v
  construct : ∀ key g, Keeps view W J g (gen.construct key g).2
  next : ∀ g, Keeps view W J g (gen.next g).2
  remove : ∀ uid g, Keeps view W J g (gen.remove uid g).2
  setActiveBatchBytes : ∀ {v w} n, W v w → W v (store.setActiveBatchBytes n w)
  /-- The prompt cache of a response. -/
  remember : ∀ {g prompts responses response promptCache fullPromptTokens generated key value w},
    (gen.next g).1 = .ok (prompts, responses) → response ∈ responses →
    response.promptCache = some promptCache →
    J (view (gen.next g).2) response.uid fullPromptTokens key → W (view (gen.next g).2) w →
    promptCacheForPromptTokens store.trim promptCache
      (sequenceOf response fullPromptTokens generated) fullPromptTokens = some value →
    W (view (gen.next g).2) (store.remember fullPromptTokens value key w)
  asks : ∀ {v w w'}, Asks store w w' → (W v w → W v w') ∧ ∀ job, P v w job → P v w' job
  prepares : ∀ {v w job w'}, PreparesFrom engine store w job w' → W v w →
    W v w' ∧ (ok v w job → P v w' job) ∧ ∀ job', P v w job' → P v w' job'
  insert : ∀ {batch : List (ScheduledVlmRequest ρ F κ ξ)} {g w}, W (view g) w → (∀ job ∈ batch, P (view g) w job) →
    W (view (gen.insert (batch.map insertOf) g).2) w
  /-- The requests of a batch run, and those that ran before under other uids. -/
  inserted : ∀ {batch : List (ScheduledVlmRequest ρ F κ ξ)} {g w uids}, W (view g) w → (∀ job ∈ batch, P (view g) w job) →
    (gen.insert (batch.map insertOf) g).1 = .ok uids → uidsError uids batch.length = none →
    (∀ entry ∈ batch.zip uids, J (view (gen.insert (batch.map insertOf) g).2) entry.2
      entry.1.fullPromptTokens entry.1.apcCacheKey) ∧
    ∀ uid tokens key, uid ∉ uids → J (view g) uid tokens key →
      J (view (gen.insert (batch.map insertOf) g).2) uid tokens key
  /-- No request of the batch runs. -/
  refused : ∀ {batch : List (ScheduledVlmRequest ρ F κ ξ)} {g}, (∀ uids, (gen.insert (batch.map insertOf) g).1 = .ok uids →
      uidsError uids batch.length ≠ none) →
    ∀ uid tokens key, J (view g) uid tokens key →
      J (view (gen.insert (batch.map insertOf) g).2) uid tokens key

variable {engine gen store view W J P ok} {config : V1Config} {s s' : VlmScheduler ρ F κ ξ γ ω}
  {uid : ℕ} {job : ScheduledVlmRequest ρ F κ ξ}

theorem Inv.of_eq (h : Inv view W J s) (hlibrary : s'.library = s.library)
    (hcaches : s'.caches = s.caches) (hactive : s'.active = s.active) : Inv view W J s' :=
  ⟨hlibrary ▸ hcaches ▸ h.caches, hlibrary ▸ hactive ▸ h.jobs⟩

theorem Inv.pop (h : Inv view W J s) (uid : ℕ) :
    Inv view W J { s with active := s.active.pop uid } :=
  ⟨h.caches, fun entry hentry => h.jobs entry (Dict.mem_pop.mp hentry).2⟩

/-- A request changes, but for its tokens and its key. -/
theorem Inv.putJob (h : Inv view W J s) (hjob : s.active.get? uid = some job)
    {job' : ScheduledVlmRequest ρ F κ ξ} (htokens : job'.fullPromptTokens = job.fullPromptTokens)
    (hkey : job'.apcCacheKey = job.apcCacheKey) :
    Inv view W J { s with active := s.active.set uid job' } := by
  refine ⟨h.caches, fun entry hentry => ?_⟩
  rcases Dict.mem_set.mp hentry with rfl | ⟨-, hold⟩
  · dsimp only
    rw [htokens, hkey]
    exact h.jobs (uid, job) (Dict.get?_eq_some.mp hjob)
  · exact h.jobs entry hold

theorem Inv.keeps (h : Inv view W J s) {g : γ} (hg : Keeps view W J s.library g) :
    Inv view W J { s with library := g } :=
  ⟨hg.caches _ h.caches, fun entry hentry => hg.jobs _ _ _ (h.jobs entry hentry)⟩

theorem inv_generate {α : Type} {f : γ → Except PyError α × γ}
    (hf : Keeps view W J s.library (f s.library).2) (h : Inv view W J s) :
    (generate f : Call ρ F κ ξ γ ω α).wp (fun _ => Inv view W J) (fun _ => Inv view W J) s := by
  rw [generate, wp_call]
  constructor
  · intro a g hg
    rw [hg] at hf
    exact h.keeps hf
  · intro e g hg
    rw [hg] at hf
    exact h.keeps hf

theorem inv_reportActiveBatch (hrule : CacheRule engine gen store view W J P ok)
    (h : Inv view W J s) :
    (reportActiveBatch gen store : Call ρ F κ ξ γ ω Unit).wp (fun _ => Inv view W J)
      (fun _ _ => False) s :=
  ⟨hrule.setActiveBatchBytes _ h.caches, h.jobs⟩

theorem inv_close (hrule : CacheRule engine gen store view W J P ok) (h : Inv view W J s) :
    (close store : Call ρ F κ ξ γ ω Unit).wp (fun _ => Inv view W J) (fun _ _ => False) s :=
  ⟨hrule.setActiveBatchBytes _ h.caches, h.jobs⟩

/-- The invariant, while the responses of a step are handled. -/
abbrev InvAt (view : γ → υ) (W : υ → ω → Prop) (J : υ → ℕ → List Token → ApcCacheKey → Prop)
    (g : γ) (s : VlmScheduler ρ F κ ξ γ ω) : Prop :=
  Inv view W J s ∧ s.library = g

variable {g : γ} {prompts : List (VlmProgress κ)} {responses : List (VlmGeneration κ)}
  {response : VlmGeneration κ}

/-- What `_finish` stores, if it does. -/
theorem rememberPrompt_wp {Q : Unit → VlmScheduler ρ F κ ξ γ ω → Prop}
    {E : PyError → VlmScheduler ρ F κ ξ γ ω → Prop} (hsame : Q () s)
    (hstored : ∀ promptCache value, response.promptCache = some promptCache →
      promptCacheForPromptTokens store.trim promptCache
        (sequenceOf response job.fullPromptTokens job.generatedTokens) job.fullPromptTokens =
          some value →
      Q () { s with caches := store.remember job.fullPromptTokens value job.apcCacheKey s.caches }) :
    (rememberPrompt store job response : Call ρ F κ ξ γ ω Unit).wp Q E s := by
  unfold rememberPrompt
  split
  · exact hsame
  · dsimp only
    split
    · exact hsame
    · exact hstored _ _ ‹_› ‹_›

theorem inv_finishActive (hrule : CacheRule engine gen store view W J P ok)
    (hnext : (gen.next g).1 = .ok (prompts, responses)) (hresponse : response ∈ responses)
    (finishReason : String) (h : InvAt view W J (gen.next g).2 s) :
    (finishActive engine gen store config response finishReason : Call ρ F κ ξ γ ω Unit).wp
      (fun _ => InvAt view W J (gen.next g).2) (fun _ => InvAt view W J (gen.next g).2) s := by
  obtain ⟨h, hlibrary⟩ := h
  rw [finishActive, wp_bind, wp_get]
  cases hjob : s.active.get? response.uid with
  | none => exact ⟨h, hlibrary⟩
  | some job =>
      have hentry := h.jobs _ (Dict.get?_eq_some.mp hjob)
      have hcaches := hrule.setActiveBatchBytes
        (if s.generator.isSome then gen.promptCacheNbytes s.library else 0) h.caches
      simp only [finish, wp_bind]
      rw [wp_ofExcept]
      refine ⟨fun rendered _ => ?_, fun e _ => ⟨h, hlibrary⟩⟩
      rw [reportActiveBatch, wp_modify]
      refine rememberPrompt_wp ?_ fun promptCache value hcache hvalue => ?_
      · exact ⟨⟨hcaches, (h.pop _).jobs⟩, hlibrary⟩
      · refine ⟨⟨?_, (h.pop _).jobs⟩, hlibrary⟩
        rw [hlibrary] at hcaches hentry
        have hkept := hrule.remember hnext hresponse hcache hentry hcaches hvalue
        show W (view s.library) _
        rw [hlibrary]
        exact hkept

theorem inv_acceptResponse (hrule : CacheRule engine gen store view W J P ok)
    (hnext : (gen.next g).1 = .ok (prompts, responses)) (hresponse : response ∈ responses)
    (h : InvAt view W J (gen.next g).2 s) :
    (acceptResponse engine gen store config response : Call ρ F κ ξ γ ω Unit).wp
      (fun _ => InvAt view W J (gen.next g).2) (fun _ => InvAt view W J (gen.next g).2) s := by
  obtain ⟨h, hlibrary⟩ := h
  rw [acceptResponse, wp_bind, wp_get]
  cases hjob : s.active.get? response.uid with
  | none => exact ⟨h, hlibrary⟩
  | some job =>
      simp only [wp_bind, VlmScheduler.putJob, wp_modify]
      rw [wp_ofExcept]
      let decoding := ScheduledVlmRequest.decoding job s.active.keys.length response.token
      have hdecoding : Inv view W J { s with active := s.active.set response.uid decoding } :=
        h.putJob hjob rfl rfl
      refine ⟨fun delta _ => ?_, fun e _ => ⟨hdecoding, hlibrary⟩⟩
      have hrendered : Inv view W J { s with
          active := (s.active.set response.uid decoding).set response.uid
            { decoding with renderedText := job.renderedText ++ delta } } :=
        hdecoding.putJob (Dict.get?_set_self _ _) rfl rfl
      -- the delta is told or not, and the request goes on or ends
      have htold : ∀ sink, InvAt view W J (gen.next g).2 { s with
          active := (s.active.set response.uid decoding).set response.uid
            { decoding with renderedText := job.renderedText ++ delta }
          sink := sink } :=
        fun sink => ⟨hrendered.of_eq rfl rfl rfl, hlibrary⟩
      cases hreason : response.finishReason with
      | none => exact wp_when.mpr ⟨fun _ => htold _, fun _ => htold _⟩
      | some reason =>
          refine wp_when.mpr ⟨fun _ => ?_, fun _ => ?_⟩
          · exact inv_finishActive hrule hnext hresponse reason (htold _)
          · exact inv_finishActive hrule hnext hresponse reason (htold _)

theorem inv_stepGenerator (hrule : CacheRule engine gen store view W J P ok)
    (h : Inv view W J s) :
    (stepGenerator engine gen store config : Call ρ F κ ξ γ ω Unit).wp
      (fun _ => Inv view W J) (fun _ => Inv view W J) s := by
  have hkeeps := hrule.next s.library
  rw [stepGenerator, wp_bind, generate, wp_call]
  refine ⟨fun answer g hg => ?_, fun e g hg => ?_⟩
  · obtain ⟨prompts, responses⟩ := answer
    have hnext : (gen.next s.library).1 = .ok (prompts, responses) := by rw [hg]
    have hlibrary : (gen.next s.library).2 = g := by rw [hg]
    rw [hlibrary] at hkeeps
    have hstart : InvAt view W J (gen.next s.library).2 { s with library := g } :=
      ⟨h.keeps hkeeps, hlibrary.symm⟩
    rw [wp_bind]
    refine (wp_forM (I := InvAt view W J (gen.next s.library).2) (E := fun _ => Inv view W J)
      (fun progress _ s' hs' => ?_) hstart).mono (fun _ s' hs' => ?_) fun _ _ => id
    · rw [acceptProgress, wp_bind, wp_get]
      cases hjob : s'.active.get? progress.uid with
      | none => exact hs'
      | some job => exact ⟨hs'.1.putJob hjob rfl rfl, hs'.2⟩
    · refine (wp_forM (I := InvAt view W J (gen.next s.library).2)
        (E := fun _ => InvAt view W J (gen.next s.library).2)
        (fun response hresponse s' hs' => ?_) hs').mono (fun _ _ hs' => hs'.1) fun _ _ hs' => hs'.1
      exact inv_acceptResponse hrule hnext hresponse hs'
  · rw [hg] at hkeeps
    exact h.keeps hkeeps

variable (config) in
theorem inv_cancel [DecidableEq ρ] (hrule : CacheRule engine gen store view W J P ok)
    (requestId : ρ) (h : Inv view W J s) :
    (cancel engine gen store config requestId : Call ρ F κ ξ γ ω Bool).wp
      (fun _ => Inv view W J) (fun _ => Inv view W J) s := by
  rw [cancel, wp_bind, wp_get]
  cases hfind : s.pending.find? fun request => request.requestId = requestId with
  | some request => exact h.of_eq rfl rfl rfl
  | none =>
      cases hentry : s.active.entries.find? fun entry => entry.2.request.requestId = requestId with
      | none =>
          dsimp only
          rw [wp_bind, wp_when]
          exact ⟨fun _ => h.of_eq rfl rfl rfl, fun _ => h⟩
      | some entry =>
          obtain ⟨uid, job⟩ := entry
          have hpop := h.pop uid
          simp only [wp_bind, wp_modify, countCancellation, respond, emit, wp_get]
          rw [wp_when]
          refine ⟨fun _ => ?_, fun _ => hpop.of_eq rfl rfl rfl⟩
          refine (inv_generate (hrule.remove uid _) ?_).mono (fun _ _ => id) fun _ _ => id
          exact hpop.of_eq rfl rfl rfl

/-- The requests of a batch are prepared. -/
def Ready (view : γ → υ) (P : υ → ω → ScheduledVlmRequest ρ F κ ξ → Prop)
    (batch : List (ScheduledVlmRequest ρ F κ ξ)) (s : VlmScheduler ρ F κ ξ γ ω) : Prop :=
  ∀ job ∈ batch, P (view s.library) s.caches job

variable [DecidableEq ρ] [DecidableEq F] {marks : ρ → ℕ → Bool}

omit [DecidableEq ρ] [DecidableEq F] in
/-- A preparation keeps the invariant, and what is ready. -/
theorem inv_prepare (batch : List (ScheduledVlmRequest ρ F κ ξ))
    (hrule : CacheRule engine gen store view W J P ok) {job : Option (ScheduledVlmRequest ρ F κ ξ)}
    (hprepared : HasPrepared engine store view s job s') (h : Inv view W J s) :
    Inv view W J s' ∧ ((∀ job', job = some job' → ok (view s.library) s.caches job') →
      Ready view P batch s → Ready view P (batch ++ job.toList) s') := by
  cases job with
  | none =>
      obtain ⟨hW, hP⟩ := hrule.asks (v := view s.library) (hprepared.asked rfl)
      refine ⟨⟨?_, ?_⟩, fun _ hready job hjob => ?_⟩
      · rw [hprepared.view]
        exact hW h.caches
      · rw [hprepared.view, hprepared.steady.active]
        exact h.jobs
      · rw [hprepared.view]
        exact hP job (hready job (by simpa using hjob))
  | some new =>
      obtain ⟨hW, hnew, hP⟩ := hrule.prepares (hprepared.prepared new rfl) h.caches
      refine ⟨⟨?_, ?_⟩, fun hok hready job hjob => ?_⟩
      · rw [hprepared.view]
        exact hW
      · rw [hprepared.view, hprepared.steady.active]
        exact h.jobs
      · rw [hprepared.view]
        rcases List.mem_append.mp hjob with hold | hlast
        · exact hP job (hready job hold)
        · obtain rfl := List.mem_singleton.mp hlast
          exact hnew (hok _ rfl)

variable {trace : List (VlmScheduler ρ F κ ξ γ ω × ScheduledVlmRequest ρ F κ ξ)}
  {batch : List (ScheduledVlmRequest ρ F κ ξ)}

/-- What is known of the preparations. -/
abbrev Found (engine : VlmEngine γ ρ F κ ξ ι) (store : VlmCaches ω κ ξ) (view : γ → υ)
    (W : υ → ω → Prop)
    (trace : List (VlmScheduler ρ F κ ξ γ ω × ScheduledVlmRequest ρ F κ ξ)) : Prop :=
  ∀ p ∈ trace, W (view p.1.library) p.1.caches ∧ ∃ w, PreparesFrom engine store p.1.caches p.2 w

/-- The condition on the preparations. -/
abbrev AllOk (view : γ → υ) (ok : υ → ω → ScheduledVlmRequest ρ F κ ξ → Prop)
    (trace : List (VlmScheduler ρ F κ ξ γ ω × ScheduledVlmRequest ρ F κ ξ)) : Prop :=
  ∀ p ∈ trace, ok (view p.1.library) p.1.caches p.2

/-- What the loop of `_admit_pending` has done. -/
structure Batches (engine : VlmEngine γ ρ F κ ξ ι) (store : VlmCaches ω κ ξ) (view : γ → υ)
    (W : υ → ω → Prop) (J : υ → ℕ → List Token → ApcCacheKey → Prop)
    (P ok : υ → ω → ScheduledVlmRequest ρ F κ ξ → Prop)
    (trace : List (VlmScheduler ρ F κ ξ γ ω × ScheduledVlmRequest ρ F κ ξ))
    (batch : List (ScheduledVlmRequest ρ F κ ξ)) (s : VlmScheduler ρ F κ ξ γ ω)
    (result : List (ScheduledVlmRequest ρ F κ ξ)) (s' : VlmScheduler ρ F κ ξ γ ω) : Prop where
  inv : Inv view W J s'
  prepared : result = batch ++ trace.map Prod.snd
  found : Found engine store view W trace
  ready : AllOk view ok trace → Ready view P batch s → Ready view P result s'

variable (config marks batch) in
theorem batches_takeBatch (hrule : CacheRule engine gen store view W J P ok)
    (queue skipped : List (ChatRequest ρ F)) (h : Inv view W J s) :
    (takeBatch engine store config marks queue skipped batch : Call ρ F κ ξ γ ω _).wp
      (fun r => Batches engine store view W J P ok
        (preparationsOf engine store config marks queue batch.length s) batch s r.2)
      (fun _ _ => False) s := by
  induction queue generalizing skipped batch s with
  | nil =>
      exact ⟨h, (List.append_nil _).symm, fun _ hp => (List.not_mem_nil hp).elim, fun _ => id⟩
  | cons request rest ih =>
      rw [takeBatch, preparationsOf, wp_bind, wp_get]
      by_cases hfull : config.decodeConcurrency ≤ s.active.keys.length + batch.length
      · rw [if_pos hfull, if_pos hfull]
        exact ⟨h, (List.append_nil _).symm, fun _ hp => (List.not_mem_nil hp).elim, fun _ => id⟩
      rw [if_neg hfull, if_neg hfull, wp_bind, wp_modify]
      have hrest : Inv view W J { s with pending := rest } := h.of_eq rfl rfl rfl
      by_cases hother : some (samplingKey request) ≠ s.generatorSamplingKey
      · rw [if_pos hother, if_pos hother]
        exact (ih _ _ hrest).mono (fun r s' h => ⟨h.inv, h.prepared, h.found, h.ready⟩) fun _ _ => id
      rw [if_neg hother, if_neg hother]
      have hprepare := hasPrepared_prepare store config marks hrule.engineCalls request
        { s with pending := rest }
      unfold wp at hprepare
      rcases hrun : (prepare engine store config marks request).run
        { s with pending := rest } with ⟨e | job, s₁⟩
      · rw [hrun] at hprepare
        exact hprepare.elim
      rw [hrun] at hprepare
      dsimp only at hprepare ⊢
      rw [wp_bind]
      refine wp_of_run hrun ?_
      have hfound : Found engine store view W
          (job.toList.map (({ s with pending := rest }, ·))) := by
        intro p hp
        obtain ⟨new, hnew, rfl⟩ := List.mem_map.mp hp
        exact ⟨hrest.caches, s₁.caches, hprepare.prepared new (Option.mem_toList.mp hnew)⟩
      have hsnd : (job.toList.map (({ s with pending := rest }, ·))).map Prod.snd = job.toList := by
        rw [List.map_map]
        exact List.map_id _
      obtain ⟨hinv, hready⟩ := inv_prepare batch hrule hprepare hrest
      have hlast : AllOk view ok (job.toList.map (({ s with pending := rest }, ·))) →
          Ready view P batch s → Ready view P (batch ++ job.toList) s₁ := by
        intro hok hbatch
        refine hready (fun new hnew => ?_) hbatch
        exact hok _ (List.mem_map.mpr ⟨new, Option.mem_toList.mpr hnew, rfl⟩)
      rw [List.length_append]
      by_cases hlimit : config.promptConcurrency ≤ batch.length + job.toList.length
      · rw [if_pos hlimit, if_pos hlimit, List.append_nil]
        exact ⟨hinv, by rw [hsnd], hfound, hlast⟩
      · rw [if_neg hlimit, if_neg hlimit, ← List.length_append]
        refine (ih _ _ hinv).mono (fun r s' h => ⟨h.inv, ?_, ?_, fun hok hbatch => ?_⟩) fun _ _ => id
        · rw [h.prepared, List.map_append, hsnd, List.append_assoc]
        · intro p hp
          exact (List.mem_append.mp hp).elim (hfound p) (h.found p)
        · refine h.ready (fun p hp => hok p (List.mem_append_right _ hp)) ?_
          exact hlast (fun p hp => hok p (List.mem_append_left _ hp)) hbatch

omit [DecidableEq ρ] [DecidableEq F] in
theorem inv_insertBatch (hrule : CacheRule engine gen store view W J P ok) (h : Inv view W J s)
    (hready : Ready view P batch s) :
    (insertBatch gen store batch : Call ρ F κ ξ γ ω Unit).wp (fun _ => Inv view W J)
      (fun _ => Inv view W J) s := by
  have hcaches := hrule.insert h.caches hready
  have hinserted := fun uids => @hrule.inserted _ _ _ uids h.caches hready
  have hrefused := @hrule.refused batch s.library
  rw [insertBatch, wp_bind, generate, wp_call]
  rcases hcall : gen.insert (batch.map insertOf) s.library with ⟨e | uids, g⟩
  · rw [hcall] at hcaches hrefused
    refine ⟨fun _ _ h => ?_, fun e' g' hg => ?_⟩
    · cases congrArg Prod.fst h
    obtain rfl := congrArg Prod.snd hg
    exact ⟨hcaches, fun entry hentry => hrefused (fun _ h => by cases h) _ _ _
      (h.jobs entry hentry)⟩
  · rw [hcall] at hcaches hrefused hinserted
    refine ⟨fun uids' g' hg => ?_, fun _ _ h => (by cases congrArg Prod.fst h)⟩
    obtain ⟨huids, rfl⟩ := Prod.mk.inj hg
    obtain rfl := Except.ok.inj huids
    cases herror : uidsError uids batch.length with
    | some e =>
        refine ⟨hcaches, fun entry hentry => hrefused (fun uids' huids' => ?_) _ _ _
          (h.jobs entry hentry)⟩
        obtain rfl := Except.ok.inj huids'
        rw [herror]
        exact Option.some_ne_none e
    | none =>
        obtain ⟨hnew, hold⟩ := hinserted uids rfl herror
        dsimp only
        rw [wp_bind, activate, wp_modify, reportActiveBatch, wp_modify]
        refine ⟨hrule.setActiveBatchBytes _ hcaches, fun entry hentry => ?_⟩
        rcases Dict.mem_setAll hentry with ⟨hbefore, hfresh⟩ | ⟨p, hp, active, rfl⟩
        · refine hold _ _ _ (fun hmem => hfresh ?_) (h.jobs entry hbefore)
          have hlength := uidsError_eq_none.mp herror
          rwa [List.map_snd_zip hlength.1.le]
        · exact hnew p hp

omit [DecidableEq ρ] in
theorem inv_ensureGenerator (hrule : CacheRule engine gen store view W J P ok)
    (h : Inv view W J s) :
    (ensureGenerator gen : Call ρ F κ ξ γ ω Bool).wp (fun _ => Inv view W J)
      (fun _ => Inv view W J) s := by
  rw [ensureGenerator, wp_bind, wp_get]
  cases hgenerator : s.generator with
  | none =>
      cases hhead : s.pending.head? with
      | none => exact h
      | some head =>
          simp only [Option.map_some, wp_bind, wp_modify]
          refine (inv_generate (hrule.construct _ _) ?_).mono (fun _ _ h => ?_) fun _ _ => id
          · exact h.of_eq rfl rfl rfl
          · exact h.of_eq rfl rfl rfl
  | some key =>
      dsimp only
      split
      · exact h.of_eq rfl rfl rfl
      · exact h

variable (config marks) in
/-- **An admission** inserts what it has prepared. -/
theorem inv_admitPending (hrule : CacheRule engine gen store view W J P ok) (h : Inv view W J s) :
    Found engine store view W (admissionPreparations engine gen store config marks s) ∧
    (AllOk view ok (admissionPreparations engine gen store config marks s) →
      (admitPending engine gen store config marks).wp (fun _ => Inv view W J)
        (fun _ => Inv view W J) s) := by
  rw [admissionPreparations, admitPending, wp_bind, wp_get]
  by_cases hbusy : s.pending = [] ∨ config.decodeConcurrency ≤ s.active.keys.length
  · rw [if_pos hbusy, if_pos hbusy]
    exact ⟨fun _ hp => (List.not_mem_nil hp).elim, fun _ => h⟩
  rw [if_neg hbusy, if_neg hbusy, wp_bind]
  have hensure := inv_ensureGenerator hrule h
  unfold wp at hensure
  rcases hrun : (ensureGenerator gen : Call ρ F κ ξ γ ω Bool).run s with ⟨e | ready, s₁⟩
  · rw [hrun] at hensure
    refine ⟨fun _ hp => (List.not_mem_nil hp).elim, fun _ => ?_⟩
    unfold wp
    rw [hrun]
    exact hensure
  rw [hrun] at hensure
  cases ready with
  | false =>
      refine ⟨fun _ hp => (List.not_mem_nil hp).elim, fun _ => wp_of_run hrun ?_⟩
      exact wp_when.mpr ⟨fun h => absurd h Bool.false_ne_true, fun _ => hensure⟩
  | true =>
      have hbatches := batches_takeBatch config marks [] hrule s.pending [] hensure
      unfold wp at hbatches
      rcases hloop : (takeBatch engine store config marks s.pending [] [] :
        Call ρ F κ ξ γ ω _).run s₁ with ⟨e | r, s₂⟩
      · rw [hloop] at hbatches
        exact hbatches.elim
      rw [hloop] at hbatches
      refine ⟨hbatches.found, fun hok => wp_of_run hrun ?_⟩
      refine wp_when.mpr ⟨fun _ => ?_, fun h => absurd rfl h⟩
      rw [wp_bind]
      refine wp_of_run hloop ?_
      rw [wp_bind, wp_modify]
      have hrest : Inv view W J { s₂ with pending := r.1 ++ s₂.pending } :=
        hbatches.inv.of_eq rfl rfl rfl
      have hready : Ready view P r.2 { s₂ with pending := r.1 ++ s₂.pending } :=
        hbatches.ready hok fun _ hjob => (List.not_mem_nil hjob).elim
      split
      · rw [wp_bind, wp_get, wp_when]
        exact ⟨fun _ => (inv_close hrule hrest).mono (fun _ _ => id) fun _ _ => False.elim,
          fun _ => hrest⟩
      · exact inv_insertBatch hrule hrest hready

variable (config) in
omit [DecidableEq ρ] [DecidableEq F] in
theorem inv_beforeAdmission (hrule : CacheRule engine gen store view W J P ok)
    (h : Inv view W J s) :
    (beforeAdmission engine gen store config : Call ρ F κ ξ γ ω Bool).wp (fun _ => Inv view W J)
      (fun _ => Inv view W J) s := by
  have hrest : ∀ s', Inv view W J s' → (do
      let s ← .get
      .when (s.generator.isSome ∧ s.active.keys = [] ∧ s.pending = []) (close store)
      return true : Call ρ F κ ξ γ ω Bool).wp (fun _ => Inv view W J) (fun _ => Inv view W J)
        s' := by
    intro s' hs'
    rw [wp_bind, wp_get, wp_bind, wp_when]
    exact ⟨fun _ => (inv_close hrule hs').mono (fun _ _ => id) fun _ _ => False.elim,
      fun _ => hs'⟩
  rw [beforeAdmission, wp_bind, wp_get]
  split
  · exact h
  · rw [wp_bind, wp_when]
    refine ⟨fun _ => ?_, fun _ => hrest s h⟩
    rw [wp_bind]
    refine (inv_stepGenerator hrule h).mono (fun _ s' hs' => ?_) fun _ _ => id
    refine (inv_reportActiveBatch hrule hs').mono (fun _ => hrest) fun _ _ => False.elim

variable (config marks) in
/-- The batch is what was prepared. -/
theorem batchOf_eq (hrule : CacheRule engine gen store view W J P ok) (h : Inv view W J s) :
    batchOf engine gen store config marks s =
      (preparations engine gen store config marks s).map Prod.snd := by
  have hbefore := inv_beforeAdmission config hrule h
  rw [batchOf, preparations, admissionState]
  unfold wp at hbefore
  generalize (beforeAdmission engine gen store config).run s = before at hbefore ⊢
  obtain ⟨_ | _ | _, a⟩ := before
  · rfl
  · rfl
  have hensure := inv_ensureGenerator hrule (s := a) hbefore
  dsimp only
  rw [admissionPreparations]
  split
  · rfl
  unfold wp at hensure
  generalize (ensureGenerator gen : Call ρ F κ ξ γ ω Bool).run a = ensured at hensure ⊢
  obtain ⟨_ | _ | _, s₁⟩ := ensured
  · rfl
  · rfl
  have hbatches := batches_takeBatch config marks [] hrule a.pending [] (s := s₁) hensure
  unfold wp at hbatches
  dsimp only
  rcases hloop : (takeBatch engine store config marks a.pending [] [] :
    Call ρ F κ ξ γ ω _).run s₁ with ⟨e | r, s₂⟩
  · rw [hloop] at hbatches
    exact hbatches.elim
  · rw [hloop] at hbatches
    exact hbatches.prepared

variable (config marks) in
/-- **A tick.** -/
theorem inv_tick (hrule : CacheRule engine gen store view W J P ok) (h : Inv view W J s) :
    Found engine store view W (preparations engine gen store config marks s) ∧
    (AllOk view ok (preparations engine gen store config marks s) →
      Inv view W J ((tick engine gen store config marks).run s).2) := by
  have hbefore := inv_beforeAdmission config hrule h
  rw [preparations, admissionState, run_tick]
  unfold wp at hbefore
  generalize (beforeAdmission engine gen store config).run s = before at hbefore ⊢
  obtain ⟨_ | _ | _, a⟩ := before
  · exact ⟨fun _ hp => (List.not_mem_nil hp).elim, fun _ => hbefore⟩
  · exact ⟨fun _ hp => (List.not_mem_nil hp).elim, fun _ => hbefore⟩
  · obtain ⟨hfound, hinv⟩ := inv_admitPending config marks hrule hbefore
    exact ⟨hfound, fun hok => (hinv hok).after⟩

end Rule

/-! ## Runs -/

/-- An operation of the scheduler, or something else that happens to the caches. -/
inductive CacheOp (ρ F ε : Type)
  | scheduler (op : Op ρ F)
  | caches (event : ε)

section Runs

variable {ε υ : Type} [DecidableEq ρ] [DecidableEq F] (engine : VlmEngine γ ρ F κ ξ ι)
  (gen : VlmGenerator γ F κ ξ) (store : VlmCaches ω κ ξ) (config : V1Config) (apply : ω → ε → ω)

/-- The scheduler after an operation; the answer is what it returned or raised. -/
def cacheStep (s : VlmScheduler ρ F κ ξ γ ω) :
    CacheOp ρ F ε → Except PyError Unit × VlmScheduler ρ F κ ξ γ ω
  | .scheduler op => step engine gen store config s op
  | .caches event => (.ok (), { s with caches := apply s.caches event })

/-- The condition on the preparations of an operation. -/
def PreparesOk (view : γ → υ) (ok : υ → ω → ScheduledVlmRequest ρ F κ ξ → Prop)
    (s : VlmScheduler ρ F κ ξ γ ω) : CacheOp ρ F ε → Prop
  | .scheduler (.tick marks) => AllOk view ok (preparations engine gen store config marks s)
  | .scheduler (.submit _) | .scheduler (.cancel _) | .caches _ => True

variable {engine gen store config apply} {view : γ → υ} {W : υ → ω → Prop}
  {J : υ → ℕ → List Token → ApcCacheKey → Prop} {P ok : υ → ω → ScheduledVlmRequest ρ F κ ξ → Prop}
  {s : VlmScheduler ρ F κ ξ γ ω}

theorem inv_cacheStep (hrule : CacheRule engine gen store view W J P ok)
    (happly : ∀ v w event, W v w → W v (apply w event)) (op : CacheOp ρ F ε) (h : Inv view W J s)
    (hok : PreparesOk engine gen store config view ok s op) :
    Inv view W J (cacheStep engine gen store config apply s op).2 := by
  cases op with
  | caches event => exact ⟨happly _ _ event h.caches, h.jobs⟩
  | scheduler op =>
      cases op with
      | submit request =>
          rw [cacheStep, step, run_bind]
          rcases run_submit engine request s with ⟨message, n, hrun⟩ | hrun
          · rw [hrun]
            exact h.of_eq rfl rfl rfl
          · rw [hrun]
            exact h.of_eq rfl rfl rfl
      | cancel requestId =>
          have hcancel := inv_cancel config hrule requestId h
          refine wp.after (m := do let _ ← cancel engine gen store config requestId) ?_
          rw [wp_bind]
          exact hcancel.mono (fun _ _ => id) fun _ _ => id
      | tick marks => exact (inv_tick config marks hrule h).2 hok

/-- **Every run** whose preparations are all as they should keeps the invariant. -/
theorem inv_exec (hrule : CacheRule engine gen store view W J P ok)
    (happly : ∀ v w event, W v w → W v (apply w event)) (h : Inv view W J s)
    {ops : List (CacheOp ρ F ε)}
    (hops : Run.Each (cacheStep engine gen store config apply)
      (PreparesOk engine gen store config view ok) s ops) :
    Inv view W J (Run.exec (cacheStep engine gen store config apply) s ops) :=
  Run.exec_invariant (fun _ op h hok => inv_cacheStep hrule happly op h hok) h hops

/-- The preparations of a tick after a run. -/
theorem found_exec (hrule : CacheRule engine gen store view W J P ok)
    (happly : ∀ v w event, W v w → W v (apply w event)) (h : Inv view W J s)
    {ops : List (CacheOp ρ F ε)}
    (hops : Run.Each (cacheStep engine gen store config apply)
      (PreparesOk engine gen store config view ok) s ops) (marks : ρ → ℕ → Bool) :
    Found engine store view W (preparations engine gen store config marks
      (Run.exec (cacheStep engine gen store config apply) s ops)) :=
  (inv_tick config marks hrule (inv_exec hrule happly h hops)).1

end Runs
end MlxRuntime.VlmScheduler
