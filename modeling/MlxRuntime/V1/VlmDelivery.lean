import MlxRuntime.Lib.Run
import MlxRuntime.V1.VlmScheduler

/-!
# The VLM scheduler delivers each request once

As for the text scheduler, what a method does to a request is a move of its custody.  A
preparation touches the library and the caches only.  The requests that run have the settings of
the generator's sampler.

## Main definitions

* `VlmScheduler.custody` — where the requests are.
* `VlmFreshUids` — what `insert` returns, and what the other calls keep.
* `VlmScheduler.Serves` — the invariant.
* `VlmScheduler.serves_cancel`, `VlmScheduler.serves_tick` — the methods keep it.
* `VlmScheduler.step`, `VlmScheduler.effect_step` — the operations of a caller.
-/

namespace MlxRuntime

open Method Custody

/-- A call keeps the uids that were issued. -/
def KeepsUids {γ α : Type} (issued : γ → ℕ → Prop) (f : γ → Except PyError α × γ) : Prop :=
  ∀ g uid, issued g uid → issued (f g).2 uid

/-- `insert` returns fresh distinct uids, one for each prompt. -/
structure VlmFreshUids {γ ρ F κ ξ ι : Type} (engine : VlmEngine γ ρ F κ ξ ι)
    (gen : VlmGenerator γ F κ ξ) (issued : γ → ℕ → Prop) : Prop where
  insert : ∀ inserts g, ∃ uids g', gen.insert inserts g = (.ok uids, g') ∧
    uids.length = inserts.length ∧ uids.Nodup ∧ (∀ uid ∈ uids, ¬ issued g uid) ∧
    (∀ uid ∈ uids, issued g' uid) ∧ ∀ uid, issued g uid → issued g' uid
  next : KeepsUids issued gen.next
  remove : ∀ uid, KeepsUids issued (gen.remove uid)
  extractChatAndImage : ∀ request, KeepsUids issued (engine.extractChatAndImage request)
  buildPromptStr : ∀ request n, KeepsUids issued (engine.buildPromptStr request n)
  buildPromptTokens : ∀ prompt, KeepsUids issued (engine.buildPromptTokens prompt)
  prepareInputs : ∀ prompt images, KeepsUids issued (engine.prepareInputs prompt images)
  getInputEmbeddings : ∀ inputs, KeepsUids issued (engine.getInputEmbeddings inputs)

/-- The calls of the engine keep the uids that were issued. -/
structure EngineKeepsUids {γ ρ F κ ξ ι : Type} (engine : VlmEngine γ ρ F κ ξ ι)
    (issued : γ → ℕ → Prop) : Prop where
  extractChatAndImage : ∀ request, KeepsUids issued (engine.extractChatAndImage request)
  buildPromptStr : ∀ request n, KeepsUids issued (engine.buildPromptStr request n)
  buildPromptTokens : ∀ prompt, KeepsUids issued (engine.buildPromptTokens prompt)
  prepareInputs : ∀ prompt images, KeepsUids issued (engine.prepareInputs prompt images)
  getInputEmbeddings : ∀ inputs, KeepsUids issued (engine.getInputEmbeddings inputs)

theorem VlmFreshUids.engine {γ ρ F κ ξ ι : Type} {engine : VlmEngine γ ρ F κ ξ ι}
    {gen : VlmGenerator γ F κ ξ} {issued : γ → ℕ → Prop} (h : VlmFreshUids engine gen issued) :
    EngineKeepsUids engine issued :=
  ⟨h.extractChatAndImage, h.buildPromptStr, h.buildPromptTokens, h.prepareInputs,
    h.getInputEmbeddings⟩

namespace VlmScheduler

variable {ρ F κ ξ ι γ ω : Type}

/-- The ids of the requests that run. -/
def runningIds (s : VlmScheduler ρ F κ ξ γ ω) : List ρ :=
  s.active.values.map fun job => job.request.requestId

/-- Where the requests are, besides those that were put aside and those of a batch. -/
def custody (skipped : List (ChatRequest ρ F)) (batch : List ρ)
    (s : VlmScheduler ρ F κ ξ γ ω) : Custody ρ where
  queue := (skipped ++ s.pending).map ChatRequest.requestId
  batch := batch
  running := s.runningIds
  log := s.sink.map SinkEvent.note

/-- What holds of the requests that run. -/
structure Sane (issued : γ → ℕ → Prop) (config : V1Config) (s : VlmScheduler ρ F κ ξ γ ω) :
    Prop where
  bounded : s.active.keys.length ≤ config.decodeConcurrency
  issued : ∀ uid ∈ s.active.keys, issued s.library uid
  sampled : ∀ job ∈ s.active.values, s.generator = some (samplingKey job.request)
  keyed : ∀ key, s.generator = some key → s.generatorSamplingKey = some key

/-- The requests moved from `c` to where they are, and those that run are as they should. -/
def Serves (issued : γ → ℕ → Prop) (config : V1Config) (c : Custody ρ)
    (s : VlmScheduler ρ F κ ξ γ ω) : Prop :=
  Moves c (custody [] [] s) ∧ Sane issued config s

variable {engine : VlmEngine γ ρ F κ ξ ι} {gen : VlmGenerator γ F κ ξ} {store : VlmCaches ω κ ξ}
  {config : V1Config} {issued : γ → ℕ → Prop} {c : Custody ρ}
  {s s' : VlmScheduler ρ F κ ξ γ ω} {uid : ℕ} {job : ScheduledVlmRequest ρ F κ ξ}

/-! ## What changes nothing -/

/-- The queue, the requests that run and the generator are as they were. -/
structure Steady (issued : γ → ℕ → Prop) (s s' : VlmScheduler ρ F κ ξ γ ω) : Prop where
  pending : s'.pending = s.pending
  active : s'.active = s.active
  generator : s'.generator = s.generator
  generatorSamplingKey : s'.generatorSamplingKey = s.generatorSamplingKey
  issued : ∀ uid, issued s.library uid → issued s'.library uid

theorem Steady.trans {s'' : VlmScheduler ρ F κ ξ γ ω} (h : Steady issued s s')
    (h' : Steady issued s' s'') : Steady issued s s'' :=
  ⟨h'.pending.trans h.pending, h'.active.trans h.active, h'.generator.trans h.generator,
    h'.generatorSamplingKey.trans h.generatorSamplingKey,
    fun uid hissued => h'.issued uid (h.issued uid hissued)⟩

theorem Steady.sane (h : Steady issued s s') (hs : Sane issued config s) :
    Sane issued config s' where
  bounded := h.active ▸ hs.bounded
  issued := fun uid huid => h.issued uid (hs.issued uid (h.active ▸ huid))
  sampled := fun job hjob => h.generator ▸ hs.sampled job (h.active ▸ hjob)
  keyed := fun key hkey => h.generatorSamplingKey ▸ hs.keyed key (h.generator ▸ hkey)

/-- Nothing was told either. -/
structure Framed (issued : γ → ℕ → Prop) (s s' : VlmScheduler ρ F κ ξ γ ω) : Prop extends
    Steady issued s s' where
  sink : s'.sink = s.sink

theorem Framed.refl : Framed issued s s := ⟨⟨rfl, rfl, rfl, rfl, fun _ => id⟩, rfl⟩

theorem Framed.trans {s'' : VlmScheduler ρ F κ ξ γ ω} (h : Framed issued s s')
    (h' : Framed issued s' s'') : Framed issued s s'' :=
  ⟨h.toSteady.trans h'.toSteady, h'.sink.trans h.sink⟩

theorem Framed.custody_eq (h : Framed issued s s') (skipped : List (ChatRequest ρ F))
    (batch : List ρ) : custody skipped batch s' = custody skipped batch s := by
  rw [custody, custody, runningIds, runningIds, h.pending, h.active, h.sink]

theorem Framed.serves (h : Framed issued s s') (hs : Serves issued config c s) :
    Serves issued config c s' :=
  ⟨h.custody_eq [] [] ▸ hs.1, h.toSteady.sane hs.2⟩

/-- What the custody does not see. -/
theorem Serves.uncounted (h : Serves issued config c s) (cancelledPreparing : List ρ) (n : ℕ) :
    Serves issued config c
      { s with cancelledPreparing := cancelledPreparing, workerCancellationCount := n } :=
  Framed.serves (s := s) ⟨⟨rfl, rfl, rfl, rfl, fun _ => id⟩, rfl⟩ h

theorem serves_generate {α : Type} {f : γ → Except PyError α × γ} (hf : KeepsUids issued f)
    (h : Serves issued config c s) :
    (generate f : Call ρ F κ ξ γ ω α).wp (fun _ => Serves issued config c)
      (fun _ => Serves issued config c) s := by
  have hframe : Framed issued s { s with library := (f s.library).2 } :=
    ⟨⟨rfl, rfl, rfl, rfl, hf s.library⟩, rfl⟩
  rw [generate, wp_call]
  constructor
  · intro a g hg
    rw [hg] at hframe
    exact hframe.serves h
  · intro e g hg
    rw [hg] at hframe
    exact hframe.serves h

theorem serves_reportActiveBatch (h : Serves issued config c s) :
    (reportActiveBatch gen store : Call ρ F κ ξ γ ω Unit).wp (fun _ => Serves issued config c)
      (fun _ => Serves issued config c) s :=
  have hframe : Framed issued s
      ((reportActiveBatch gen store : Call ρ F κ ξ γ ω Unit).run s).2 :=
    ⟨⟨rfl, rfl, rfl, rfl, fun _ => id⟩, rfl⟩
  hframe.serves h

/-- A request that runs is written under its id. -/
theorem Serves.putJob {job' : ScheduledVlmRequest ρ F κ ξ} (h : Serves issued config c s)
    (hjob : s.active.get? uid = some job) (hid : job'.request = job.request) :
    Serves issued config c { s with active := s.active.set uid job' } := by
  have hkeys : (s.active.set uid job').keys = s.active.keys :=
    Dict.keys_set_of_mem (Dict.mem_keys.mpr ⟨job, Dict.get?_eq_some.mp hjob⟩) _
  have hcustody : custody [] [] { s with active := s.active.set uid job' } = custody [] [] s :=
    Custody.ext rfl rfl (Dict.map_values_set hjob (by rw [hid])) rfl
  refine ⟨hcustody ▸ h.1, hkeys ▸ h.2.bounded, fun uid' huid' => h.2.issued uid' (hkeys ▸ huid'),
    fun job₁ hjob₁ => ?_, h.2.keyed⟩
  obtain ⟨uid₁, hentry⟩ := Dict.mem_values.mp hjob₁
  rcases Dict.mem_set.mp hentry with heq | ⟨-, hentry⟩
  · obtain ⟨rfl, rfl⟩ := Prod.mk.inj heq
    rw [hid]
    exact h.2.sampled job (Dict.mem_values.mpr ⟨uid₁, Dict.get?_eq_some.mp hjob⟩)
  · exact h.2.sampled job₁ (Dict.mem_values.mpr ⟨uid₁, hentry⟩)

/-! ## Deltas and responses -/

theorem custody_sink (skipped : List (ChatRequest ρ F)) (batch : List ρ) (event : SinkEvent ρ) :
    custody skipped batch { s with sink := s.sink ++ [event] } =
      { custody skipped batch s with
        log := (custody skipped batch s).log ++ [event.note] } := by
  simp [custody, runningIds]

/-- A request that runs is among those that run. -/
theorem mem_runningIds (hjob : s.active.get? uid = some job) :
    job.request.requestId ∈ s.runningIds :=
  List.mem_map_of_mem (Dict.mem_values.mpr ⟨uid, Dict.get?_eq_some.mp hjob⟩)

theorem Serves.delta {delta : Text} (h : Serves issued config c s)
    (hjob : s.active.get? uid = some job) :
    Serves issued config c
      { s with sink := s.sink ++ [.delta job.request.requestId delta] } := by
  refine ⟨h.1.tail ?_, h.2.bounded, h.2.issued, h.2.sampled, h.2.keyed⟩
  rw [custody_sink]
  exact Move.progress (mem_runningIds hjob)

/-- A request that runs ends with an event, and runs no more. -/
theorem Serves.endRunning {event : SinkEvent ρ} (h : Serves issued config c s)
    (hjob : s.active.get? uid = some job) (hevent : event.note = .ended job.request.requestId) :
    Serves issued config c
      { s with sink := s.sink ++ [event], active := s.active.pop uid } := by
  obtain ⟨l, l', hrunning, hpop⟩ :=
    Dict.exists_map_values_of_get? (fun job => job.request.requestId) hjob
  have hafter : custody [] [] { s with sink := s.sink ++ [event], active := s.active.pop uid } =
      { custody [] [] s with
        running := l ++ l'
        log := (custody [] [] s).log ++ [.ended job.request.requestId] } := by
    simp [custody, ← hevent, runningIds, hpop]
  refine ⟨h.1.tail ?_, ?_, ?_, ?_, h.2.keyed⟩
  · rw [hafter]
    exact Move.endRunning hrunning
  · exact (Dict.length_keys_pop_le uid).trans h.2.bounded
  · exact fun other hother => h.2.issued other (Dict.mem_keys_pop.mp hother).2
  · intro other hother
    obtain ⟨uid', hentry⟩ := Dict.mem_values.mp hother
    exact h.2.sampled other (Dict.mem_values.mpr ⟨uid', (Dict.mem_pop.mp hentry).2⟩)

/-- A request that waits ends with an event, and waits no more. -/
theorem Serves.endPending {event : SinkEvent ρ} {l l' : List (ChatRequest ρ F)}
    {request : ChatRequest ρ F} (h : Serves issued config c s)
    (hpending : s.pending = l ++ request :: l')
    (hevent : event.note = .ended request.requestId) :
    Serves issued config c { s with pending := l ++ l', sink := s.sink ++ [event] } := by
  have hqueue : (custody [] [] s).queue = l.map ChatRequest.requestId ++
      request.requestId :: l'.map ChatRequest.requestId := by
    simp [custody, hpending]
  have hafter : custody [] [] { s with pending := l ++ l', sink := s.sink ++ [event] } =
      { custody [] [] s with
        queue := l.map ChatRequest.requestId ++ l'.map ChatRequest.requestId
        log := (custody [] [] s).log ++ [.ended request.requestId] } := by
    simp [custody, ← hevent, runningIds]
  refine ⟨h.1.tail ?_, h.2.bounded, h.2.issued, h.2.sampled, h.2.keyed⟩
  rw [hafter]
  exact Move.endQueued hqueue

/-! ## The steps of the generator -/

variable (issued) in
theorem framed_rememberPrompt (response : VlmGeneration κ) :
    (rememberPrompt store job response : Call ρ F κ ξ γ ω Unit).wp
      (fun _ => Framed issued s) (fun _ => Framed issued s) s := by
  unfold rememberPrompt
  split
  · exact Framed.refl
  · dsimp only
    split
    · exact Framed.refl
    · exact ⟨⟨rfl, rfl, rfl, rfl, fun _ => id⟩, rfl⟩

theorem serves_finishActive (response : VlmGeneration κ) (finishReason : String)
    (h : Serves issued config c s) :
    (finishActive engine gen store config response finishReason : Call ρ F κ ξ γ ω Unit).wp
      (fun _ => Serves issued config c) (fun _ => Serves issued config c) s := by
  rw [finishActive, wp_bind, wp_get]
  cases hjob : s.active.get? response.uid with
  | none => exact h
  | some job =>
      simp only [finish, wp_bind]
      rw [wp_ofExcept]
      refine ⟨fun rendered _ => ?_, fun e _ => h⟩
      let reported := ((reportActiveBatch gen store : Call ρ F κ ξ γ ω Unit).run s).2
      have hreported : Framed issued s reported := ⟨⟨rfl, rfl, rfl, rfl, fun _ => id⟩, rfl⟩
      change (rememberPrompt store job response).wp _ _ reported
      refine (framed_rememberPrompt issued response).mono ?_ ?_
      · intro _ s' hremembered
        have hframe := hreported.trans hremembered
        have hjob' : s'.active.get? response.uid = some job := by rw [hframe.active, hjob]
        exact (hframe.serves h).endRunning hjob' rfl
      · exact fun _ s' hremembered => (hreported.trans hremembered).serves h

theorem serves_acceptProgress (progress : VlmProgress κ) (h : Serves issued config c s) :
    (acceptProgress progress : Call ρ F κ ξ γ ω Unit).wp (fun _ => Serves issued config c)
      (fun _ => Serves issued config c) s := by
  rw [acceptProgress, wp_bind, wp_get]
  cases hjob : s.active.get? progress.uid with
  | none => exact h
  | some job => exact h.putJob hjob rfl

theorem serves_acceptResponse (response : VlmGeneration κ) (h : Serves issued config c s) :
    (acceptResponse engine gen store config response : Call ρ F κ ξ γ ω Unit).wp
      (fun _ => Serves issued config c) (fun _ => Serves issued config c) s := by
  rw [acceptResponse, wp_bind, wp_get]
  cases hjob : s.active.get? response.uid with
  | none => exact h
  | some job =>
      let started := ScheduledVlmRequest.decoding job s.active.keys.length response.token
      have hstarted : Serves issued config c
          { s with active := s.active.set response.uid started } := h.putJob hjob rfl
      have hget : (s.active.set response.uid started).get? response.uid = some started :=
        Dict.get?_set_self _ _
      simp only [wp_bind]
      change (ofExcept _).wp _ _ { s with active := s.active.set response.uid started }
      rw [wp_ofExcept]
      refine ⟨fun delta _ => ?_, fun e _ => hstarted⟩
      rw [wp_when]
      -- the end of the request, if the response is its last
      constructor
      · intro _
        split
        · exact (hstarted.delta hget).putJob hget rfl
        · exact serves_finishActive response _ ((hstarted.delta hget).putJob hget rfl)
      · intro _
        split
        · exact hstarted.putJob hget rfl
        · exact serves_finishActive response _ (hstarted.putJob hget rfl)

theorem serves_stepGenerator (hfresh : VlmFreshUids engine gen issued)
    (h : Serves issued config c s) :
    (stepGenerator engine gen store config : Call ρ F κ ξ γ ω Unit).wp
      (fun _ => Serves issued config c) (fun _ => Serves issued config c) s := by
  rw [stepGenerator, wp_bind]
  refine (serves_generate hfresh.next h).mono ?_ fun _ _ => id
  rintro ⟨prompts, responses⟩ s' hs'
  rw [wp_bind]
  refine (wp_forM (fun progress _ _ => serves_acceptProgress progress) hs').mono ?_ fun _ _ => id
  intro _ s'' hs''
  exact wp_forM (fun response _ _ => serves_acceptResponse response) hs''

/-! ## Cancellation -/

/-- `cancel`. -/
theorem serves_cancel [DecidableEq ρ] (hfresh : VlmFreshUids engine gen issued) (requestId : ρ)
    (h : Serves issued config c s) :
    (cancel engine gen store config requestId : Call ρ F κ ξ γ ω Bool).wp
      (fun _ => Serves issued config c) (fun _ => Serves issued config c) s := by
  rw [cancel, wp_bind, wp_get]
  cases hpending : s.pending.find? fun request => request.requestId = requestId with
  | some request =>
      obtain ⟨hid, l, l', hl, hnot⟩ := List.find?_eq_some_iff_append.mp hpending
      have hid := of_decide_eq_true hid
      have herase : s.pending.eraseP (fun request => request.requestId = requestId) =
          l ++ l' := by
        rw [hl, List.eraseP_append_right _ (by simpa using hnot)]
        simp [hid]
      simp only [wp_bind, wp_modify, herase]
      let counted : VlmScheduler ρ F κ ξ γ ω := { s with
        pending := l ++ l'
        workerCancellationCount := s.workerCancellationCount + 1 }
      let r := unprepared engine store config counted requestId .pending
      have hnote : (SinkEvent.response r).note = .ended request.requestId := by
        rw [SinkEvent.note, hid]
        rfl
      have hend := h.endPending hl hnote
      exact hend.uncounted s.cancelledPreparing (s.workerCancellationCount + 1)
  | none =>
      cases hactive : s.active.entries.find? fun e => e.2.request.requestId = requestId with
      | none =>
          simp only [wp_bind]
          refine wp_when.mpr ⟨fun _ => ?_, fun _ => h⟩
          exact h.uncounted (s.cancelledPreparing ++ [requestId]) (s.workerCancellationCount + 1)
      | some entry =>
          obtain ⟨uid, job⟩ := entry
          have hjob : s.active.get? uid = some job :=
            Dict.get?_eq_some.mpr (List.mem_of_find?_eq_some hactive)
          let counted : VlmScheduler ρ F κ ξ γ ω := { s with
            active := s.active.pop uid
            workerCancellationCount := s.workerCancellationCount + 1 }
          let last : ScheduledVlmRequest ρ F κ ξ :=
            { job with cancelledStage := some job.stage, stage := .cancelled }
          let r := responseOf engine store config counted last "cancelled"
            job.fullPromptTokens.length job.generatedTokens.length
          have hend : Serves issued config c
              { counted with sink := s.sink ++ [SinkEvent.response r] } :=
            (h.endRunning hjob rfl).uncounted s.cancelledPreparing
              (s.workerCancellationCount + 1)
          simp only [wp_bind, wp_modify]
          change (when _ _).wp _ _ { counted with sink := s.sink ++ [SinkEvent.response r] }
          refine wp_when.mpr ⟨fun _ => ?_, fun _ => hend⟩
          exact serves_generate (hfresh.remove uid) hend

/-! ## Preparation -/

/-- A call of the engine keeps everything but the library. -/
theorem framed_prepareCall {α : Type} {f : γ → Except PyError α × γ} (hf : KeepsUids issued f)
    (h : Framed issued s s') :
    (prepareCall f : Preparing ρ F κ ξ γ ω α).wp (fun _ => Framed issued s)
      (fun _ => Framed issued s) s' := by
  have hframe : Framed issued s { s' with library := (f s'.library).2 } :=
    h.trans ⟨⟨rfl, rfl, rfl, rfl, hf s'.library⟩, rfl⟩
  rw [prepareCall, wp_call]
  constructor
  · intro a g hg
    rwa [(Prod.mk.inj hg).2] at hframe
  · intro e g hg
    rwa [(Prod.mk.inj hg).2] at hframe

theorem framed_checkCancelled [DecidableEq ρ] (requestId : ρ) (marked : Bool)
    (h : Framed issued s s') :
    (checkCancelled requestId marked : Preparing ρ F κ ξ γ ω Unit).wp (fun _ => Framed issued s)
      (fun _ => Framed issued s) s' := by
  rw [checkCancelled, wp_bind, wp_get]
  exact wp_when.mpr ⟨fun _ => h, fun _ => h⟩

theorem framed_caches {α : Type} (f : ω → Except PreparationError α × ω)
    (h : Framed issued s s') :
    (call VlmScheduler.caches (fun w s => { s with caches := w }) f :
      Preparing ρ F κ ξ γ ω α).wp (fun _ => Framed issued s) (fun _ => Framed issued s) s' := by
  have hframe : Framed issued s { s' with caches := (f s'.caches).2 } :=
    h.trans ⟨⟨rfl, rfl, rfl, rfl, fun _ => id⟩, rfl⟩
  rw [wp_call]
  constructor
  · intro a w hw
    rwa [hw] at hframe
  · intro e w hw
    rwa [hw] at hframe

/-- A step of a preparation, and what follows it. -/
theorem framed_bind {α β : Type} {m : Preparing ρ F κ ξ γ ω α}
    {f : α → Preparing ρ F κ ξ γ ω β} {Q : β → VlmScheduler ρ F κ ξ γ ω → Prop}
    (hm : m.wp (fun _ => Framed issued s) (fun _ => Framed issued s) s')
    (hf : ∀ a s', Framed issued s s' → (f a).wp Q (fun _ => Framed issued s) s') :
    (m >>= f).wp Q (fun _ => Framed issued s) s' := by
  rw [wp_bind]
  exact hm.mono hf fun _ _ => id

theorem framed_embed [DecidableEq ρ] (hengine : EngineKeepsUids engine issued) (requestId : ρ)
    (marked : Bool) (cached : Option (PromptKwargs κ ξ)) (inputs : ι) (h : Framed issued s s') :
    (embed engine requestId marked cached inputs : Preparing ρ F κ ξ γ ω (PromptKwargs κ ξ)).wp
      (fun _ => Framed issued s) (fun _ => Framed issued s) s' := by
  unfold embed
  split
  · exact h
  refine framed_bind (framed_prepareCall (hengine.getInputEmbeddings inputs) h) fun output _ h => ?_
  refine framed_bind (framed_checkCancelled requestId marked h) fun _ _ h => ?_
  exact (wp_ofExcept _).mpr ⟨fun _ _ => h, fun _ _ => h⟩

variable (store) in
/-- `_prepare_request`. -/
theorem framed_prepareRequest [DecidableEq ρ] (hengine : EngineKeepsUids engine issued)
    (marks : ℕ → Bool) (request : ChatRequest ρ F) (h : Framed issued s s') :
    (prepareRequest engine store marks request :
      Preparing ρ F κ ξ γ ω (ScheduledVlmRequest ρ F κ ξ)).wp
      (fun job s' => Framed issued s s' ∧ job.request = request)
      (fun _ => Framed issued s) s' := by
  unfold prepareRequest
  refine framed_bind (framed_checkCancelled _ _ h) fun _ _ h => ?_
  refine framed_bind (framed_prepareCall (hengine.extractChatAndImage request) h) fun images _ h => ?_
  refine framed_bind (framed_checkCancelled _ _ h) fun _ _ h => ?_
  refine framed_bind (framed_prepareCall (hengine.buildPromptStr _ _) h) fun prompt _ h => ?_
  refine framed_bind (framed_prepareCall (hengine.buildPromptTokens prompt) h) fun tokens _ h => ?_
  refine framed_bind ((wp_ofExcept _).mpr ⟨fun _ _ => h, fun _ _ => h⟩) fun _ _ h => ?_
  refine framed_bind (framed_checkCancelled _ _ h) fun _ _ h => ?_
  refine framed_bind (framed_prepareCall (hengine.prepareInputs _ _) h) fun inputs _ h => ?_
  refine framed_bind (framed_checkCancelled _ _ h) fun _ _ h => ?_
  rw [wp_bind, wp_get]
  refine framed_bind (framed_caches _ h) fun cached _ h => ?_
  refine framed_bind (framed_caches _ h) fun cachedPrompt _ h => ?_
  refine framed_bind (framed_embed hengine _ _ cached inputs h) fun kwargs _ h => ?_
  refine framed_bind (framed_caches _ h) fun bytes _ h => ?_
  exact ⟨h, rfl⟩

/-! ## Admission -/

section Admission

variable [DecidableEq ρ] [DecidableEq F] {marks : ρ → ℕ → Bool} {key : F × F}

/-- A request that was taken is prepared, or has ended; `job` is what there is of it. -/
structure Prepared (issued : γ → ℕ → Prop) (c : Custody ρ) (skipped : List (ChatRequest ρ F))
    (batch : List ρ) (request : ChatRequest ρ F) (s : VlmScheduler ρ F κ ξ γ ω)
    (job : Option (ScheduledVlmRequest ρ F κ ξ)) (s' : VlmScheduler ρ F κ ξ γ ω) : Prop where
  moves : Moves c (custody skipped (batch ++ job.toList.map fun job => job.request.requestId) s')
  steady : Steady issued s s'
  request : ∀ job', job = some job' → job'.request = request

variable {skipped : List (ChatRequest ρ F)} {batch : List ρ} {request : ChatRequest ρ F}
  {E : PyError → VlmScheduler ρ F κ ξ γ ω → Prop}

omit [DecidableEq ρ] [DecidableEq F] in
theorem Prepared.ended {event : SinkEvent ρ} {n : ℕ}
    (hmoves : Moves c (custody skipped (batch ++ [request.requestId]) s))
    (hevent : event.note = .ended request.requestId) :
    Prepared issued c skipped batch request s none
      { s with workerErrorCount := n, sink := s.sink ++ [event] } := by
  refine ⟨?_, ⟨rfl, rfl, rfl, rfl, fun _ => id⟩, fun _ h => nomatch h⟩
  have hmove := Move.endTaken (c := custody skipped (batch ++ [request.requestId]) s)
    (l := batch) rfl
  have hafter : custody skipped batch { s with
      workerErrorCount := n, sink := s.sink ++ [event] } =
      { custody skipped (batch ++ [request.requestId]) s with
        batch := batch ++ []
        log := (custody skipped batch s).log ++ [.ended request.requestId] } := by
    simp [custody, ← hevent, runningIds]
  refine hmoves.tail ?_
  rw [Option.toList_none, List.map_nil, List.append_nil, hafter]
  exact hmove

variable (issued) in
omit [DecidableEq ρ] [DecidableEq F] in
theorem wp_endPreparation {result : Except PreparationError (ScheduledVlmRequest ρ F κ ξ)}
    (hmoves : Moves c (custody skipped (batch ++ [request.requestId]) s))
    (hresult : ∀ job, result = .ok job → job.request = request) :
    (endPreparation engine store config request.requestId result :
      Call ρ F κ ξ γ ω (Option (ScheduledVlmRequest ρ F κ ξ))).wp
      (Prepared issued c skipped batch request s) E s := by
  match result with
  | .ok job =>
      have hrequest := hresult job rfl
      refine ⟨?_, ⟨rfl, rfl, rfl, rfl, fun _ => id⟩, ?_⟩
      · rw [← hrequest] at hmoves
        exact hmoves
      · rintro job' ⟨⟩
        exact hrequest
  | .error .cancelled =>
      exact Prepared.ended hmoves rfl
  | .error (.raised e) =>
      exact Prepared.ended
        hmoves rfl

omit [DecidableEq F] in
theorem wp_prepare (hfresh : VlmFreshUids engine gen issued)
    (hmoves : Moves c (custody skipped (batch ++ [request.requestId]) s)) :
    (prepare engine store config marks request :
      Call ρ F κ ξ γ ω (Option (ScheduledVlmRequest ρ F κ ξ))).wp
      (Prepared issued c skipped batch request s) E s := by
  have hprepared := framed_prepareRequest store hfresh.engine (marks request.requestId) request
    (⟨⟨rfl, rfl, rfl, rfl, fun _ => id⟩, rfl⟩ :
      Framed issued s { s with preparing := request.requestId :: s.preparing })
  -- the end of the preparation, and what is forgotten after it
  have hend : ∀ s' result, Framed issued s s' →
      (∀ job, result = .ok job → job.request = request) →
      (do
        let job ← endPreparation engine store config request.requestId result
        .modify fun s => { s with
          preparing := s.preparing.filter (· ≠ request.requestId)
          cancelledPreparing := s.cancelledPreparing.filter (· ≠ request.requestId) }
        return job : Call ρ F κ ξ γ ω (Option (ScheduledVlmRequest ρ F κ ξ))).wp
        (Prepared issued c skipped batch request s) E s' := by
    intro s' result hframe hresult
    rw [wp_bind]
    have hmoves' := hframe.custody_eq skipped (batch ++ [request.requestId]) ▸ hmoves
    refine (wp_endPreparation issued hmoves' hresult).mono ?_ fun _ _ => id
    intro job s'' hjob
    exact ⟨hjob.moves, hframe.toSteady.trans ⟨hjob.steady.pending, hjob.steady.active,
      hjob.steady.generator, hjob.steady.generatorSamplingKey, hjob.steady.issued⟩, hjob.request⟩
  unfold prepare
  rw [wp_bind, wp_modify, wp_bind, wp_attempt]
  refine hprepared.mono ?_ ?_
  · rintro job s' ⟨hframe, hrequest⟩
    exact hend s' (.ok job) hframe (by rintro _ ⟨⟩; exact hrequest)
  · exact fun e s' hframe => hend s' (.error e) hframe fun _ h => nomatch h

/-- What the loop of `_admit_pending` keeps: the generator has `key`, and so have the requests of
the batch. -/
structure Taking (issued : γ → ℕ → Prop) (config : V1Config) (c : Custody ρ) (key : F × F)
    (skipped : List (ChatRequest ρ F)) (batch : List (ScheduledVlmRequest ρ F κ ξ))
    (s : VlmScheduler ρ F κ ξ γ ω) : Prop where
  moves : Moves c (custody skipped (batch.map fun job => job.request.requestId) s)
  sane : Sane issued config s
  generator : s.generator = some key
  room : s.active.keys.length + batch.length ≤ config.decodeConcurrency
  sampled : ∀ job ∈ batch, samplingKey job.request = key

theorem wp_takeBatch (hfresh : VlmFreshUids engine gen issued)
    {queue skipped : List (ChatRequest ρ F)} {batch : List (ScheduledVlmRequest ρ F κ ξ)}
    (hqueue : s.pending = queue) (h : Taking issued config c key skipped batch s) :
    (takeBatch engine store config marks queue skipped batch : Call ρ F κ ξ γ ω _).wp
      (fun r => Taking issued config c key r.1 r.2) E s := by
  induction queue generalizing skipped batch s with
  | nil => exact h
  | cons request rest ih =>
      rw [takeBatch, wp_bind, wp_get]
      split
      · exact h
      case isFalse hroom =>
        have hkey : s.generatorSamplingKey = some key := h.sane.keyed key h.generator
        rw [wp_bind, wp_modify]
        split
        case isTrue hother =>
          -- put aside: the queue is the same, with its front in another list
          refine ih rfl ⟨?_, ⟨h.sane.bounded, h.sane.issued, h.sane.sampled, h.sane.keyed⟩,
            h.generator, h.room, h.sampled⟩
          have hsame : custody (skipped ++ [request])
              (batch.map fun job => job.request.requestId) { s with pending := rest } =
              custody skipped (batch.map fun job => job.request.requestId) s := by
            simp [custody, hqueue, runningIds]
          rw [hsame]
          exact h.moves
        case isFalse hsame =>
          have hrequest : samplingKey request = key := by
            rw [not_not, hkey] at hsame
            exact Option.some.inj hsame
          have hfront : (custody skipped (batch.map fun job => job.request.requestId) s).queue =
              skipped.map ChatRequest.requestId ++ request.requestId ::
                rest.map ChatRequest.requestId := by
            simp [custody, hqueue]
          have hmove := Move.take hfront
          have htaken : Moves c (custody skipped
              ((batch.map fun job => job.request.requestId) ++ [request.requestId])
              { s with pending := rest }) := by
            refine h.moves.tail ?_
            have hafter : custody skipped
                ((batch.map fun job => job.request.requestId) ++ [request.requestId])
                { s with pending := rest } =
                { custody skipped (batch.map fun job => job.request.requestId) s with
                  queue := skipped.map ChatRequest.requestId ++ rest.map ChatRequest.requestId
                  batch := (batch.map fun job => job.request.requestId) ++
                    [request.requestId] } := by
              simp [custody, runningIds]
            rw [hafter]
            exact hmove
          rw [wp_bind]
          refine (wp_prepare hfresh htaken).mono ?_ fun _ _ => id
          intro job s' hjob
          have hnext : Taking issued config c key skipped (batch ++ job.toList) s' := by
            refine ⟨?_, hjob.steady.sane ⟨h.sane.bounded, h.sane.issued, h.sane.sampled,
              h.sane.keyed⟩, hjob.steady.generator.trans h.generator, ?_, ?_⟩
            · rw [List.map_append]
              exact hjob.moves
            · have hlength : job.toList.length ≤ 1 := by cases job <;> simp
              rw [hjob.steady.active, List.length_append]
              change s.active.keys.length + _ ≤ _
              omega
            · intro job' hmem
              rcases List.mem_append.mp hmem with hmem | hmem
              · exact h.sampled job' hmem
              · rw [hjob.request job' (Option.mem_toList.mp hmem)]
                exact hrequest
          split
          · exact hnext
          · exact ih hjob.steady.pending hnext

omit [DecidableEq ρ] [DecidableEq F] in
/-- The requests of a batch run after those that ran. -/
theorem run_activate (batch : List (ScheduledVlmRequest ρ F κ ξ)) (uids : List ℕ)
    (hlength : uids.length = batch.length) (hnodup : uids.Nodup)
    (hfresh : ∀ uid ∈ uids, uid ∉ s.active.keys) :
    ∃ active : Dict ℕ (ScheduledVlmRequest ρ F κ ξ),
      (activate batch uids : Call ρ F κ ξ γ ω Unit).run s =
        (.ok (), { s with active := active }) ∧
      active.keys = s.active.keys ++ uids ∧
      active.values.map (fun job => job.request) =
        s.active.values.map (fun job => job.request) ++ batch.map fun job => job.request := by
  have hsnd : (batch.zip uids).map Prod.snd = uids := List.map_snd_zip hlength.le
  have hfst : (batch.zip uids).map Prod.fst = batch := List.map_fst_zip hlength.ge
  refine ⟨_, rfl, ?_, ?_⟩
  · rw [Dict.keys_setAll (by rwa [hsnd]) (by rwa [hsnd]), hsnd]
  · refine (Dict.map_values_setAll _ (fun job => job.request) ?_ (by rwa [hsnd])
      (by rwa [hsnd])).trans (by rw [hfst])
    exact fun _ _ _ => rfl

omit [DecidableEq ρ] [DecidableEq F] in
theorem serves_insertBatch (hfresh : VlmFreshUids engine gen issued)
    {batch : List (ScheduledVlmRequest ρ F κ ξ)} (h : Taking issued config c key [] batch s) :
    (insertBatch gen store batch : Call ρ F κ ξ γ ω Unit).wp (fun _ => Serves issued config c)
      (fun _ => Serves issued config c) s := by
  obtain ⟨uids, g, hinsert, hlength, hnodup, hnew, hissued, hkept⟩ :=
    hfresh.insert (batch.map insertOf) s.library
  rw [List.length_map] at hlength
  have huids : uidsError uids batch.length = none := by
    rw [uidsError]
    simp [hlength, hnodup]
  obtain ⟨active, hrun, hkeys, hrequests⟩ := run_activate (s := { s with library := g }) batch uids
    hlength hnodup fun uid huid hmem => hnew uid huid (h.sane.issued uid hmem)
  have hids : active.values.map (fun job => job.request.requestId) =
      s.runningIds ++ batch.map fun job => job.request.requestId := by
    simpa only [List.map_map, List.map_append] using! congrArg (List.map ChatRequest.requestId)
      hrequests
  rw [insertBatch]
  simp only [wp_bind]
  have hcall : (generate (gen.insert (batch.map insertOf)) : Call ρ F κ ξ γ ω (List ℕ)).run s =
      (.ok uids, { s with library := g }) := by
    rw [generate, run_call, hinsert]
  refine wp_of_run hcall ?_
  simp only [huids, wp_bind]
  refine wp_of_run hrun (serves_reportActiveBatch ⟨h.moves.tail ?_, ?_, ?_, ?_, h.sane.keyed⟩)
  · have hafter : custody [] [] { s with library := g, active := active } =
        { custody [] (batch.map fun job => job.request.requestId) s with
          batch := []
          running := s.runningIds ++ batch.map fun job => job.request.requestId } :=
      Custody.ext rfl rfl hids rfl
    rw [hafter]
    exact Move.start (.refl _)
  · rw [hkeys, List.length_append, hlength]
    exact h.room
  · intro uid huid
    rw [hkeys, List.mem_append] at huid
    exact huid.elim (fun hold => hkept uid (h.sane.issued uid hold)) (hissued uid)
  · intro job hjob
    have hmem : job.request ∈ s.active.values.map (fun job => job.request) ++
        batch.map fun job => job.request := hrequests ▸ List.mem_map_of_mem hjob
    rcases List.mem_append.mp hmem with hmem | hmem
    · obtain ⟨job', hjob', heq⟩ := List.mem_map.mp hmem
      exact heq ▸ h.sane.sampled job' hjob'
    · obtain ⟨job', hjob', heq⟩ := List.mem_map.mp hmem
      rw [← heq, h.sampled job' hjob']
      exact h.generator

omit [DecidableEq ρ] [DecidableEq F] in
/-- Without requests that run, the generator may be any. -/
theorem Serves.of_idle (h : Serves issued config c s) (hactive : s.active.keys = [])
    {generator generatorSamplingKey : Option (F × F)} {g : γ} {w : ω}
    (hkeyed : ∀ key, generator = some key → generatorSamplingKey = some key) :
    Serves issued config c { s with
      generator := generator, generatorSamplingKey := generatorSamplingKey
      library := g, caches := w } := by
  have hvalues : s.active.values = [] := by
    have : s.active.entries = [] := List.map_eq_nil_iff.mp hactive
    rw [Dict.values, this, List.map_nil]
  refine ⟨h.1, h.2.bounded, fun uid huid => ?_, fun job hjob => ?_, hkeyed⟩
  · rw [hactive] at huid
    cases huid
  · rw [hvalues] at hjob
    cases hjob

omit [DecidableEq ρ] [DecidableEq F] in
theorem serves_close (h : Serves issued config c s) (hactive : s.active.keys = []) :
    (close store : Call ρ F κ ξ γ ω Unit).wp (fun _ => Serves issued config c)
      (fun _ => Serves issued config c) s :=
  h.of_idle hactive (fun _ hkey => nomatch hkey)

omit [DecidableEq ρ] in
/-- A generator is there, when the answer is so, and the requests are where they were. -/
theorem serves_ensureGenerator (h : Serves issued config c s) :
    (ensureGenerator gen : Call ρ F κ ξ γ ω Bool).wp
      (fun ready s' => Serves issued config c s' ∧ s'.pending = s.pending ∧
        s'.active = s.active ∧ (ready = true → ∃ key, s'.generator = some key))
      (fun _ => Serves issued config c) s := by
  rw [ensureGenerator, wp_bind, wp_get]
  cases hgenerator : s.generator with
  | none =>
      have hactive : s.active.keys = [] := by
        refine List.eq_nil_iff_forall_not_mem.mpr fun uid huid => ?_
        obtain ⟨job, hentry⟩ := Dict.mem_keys.mp huid
        have := h.2.sampled job (Dict.mem_values.mpr ⟨uid, hentry⟩)
        rw [hgenerator] at this
        cases this
      cases s.pending.head?.map samplingKey with
      | none => exact ⟨h, rfl, rfl, fun hready => absurd hready Bool.false_ne_true⟩
      | some key =>
          simp only [wp_bind, wp_modify]
          rw [generate, wp_call]
          constructor
          · intro _ g _
            refine ⟨?_, rfl, rfl, fun _ => ⟨key, rfl⟩⟩
            exact h.of_idle hactive fun _ => id
          · intro _ g _
            exact h.of_idle hactive
              fun _ hkey => (Option.some_ne_none _ (hkey.symm.trans hgenerator)).elim
  | some key =>
      have hkey := h.2.keyed key hgenerator
      simp only [hkey]
      exact ⟨h, rfl, rfl, fun _ => ⟨key, hgenerator⟩⟩

/-- `_admit_pending`. -/
theorem serves_admitPending (hfresh : VlmFreshUids engine gen issued)
    (h : Serves issued config c s) :
    (admitPending engine gen store config marks : Call ρ F κ ξ γ ω Unit).wp
      (fun _ => Serves issued config c) (fun _ => Serves issued config c) s := by
  rw [admitPending, wp_bind, wp_get]
  split
  · exact h
  case isFalse hready =>
    rw [wp_bind]
    refine (serves_ensureGenerator h).mono ?_ fun _ _ => id
    rintro ready s₁ ⟨hs₁, hpending, hactive, hgenerator⟩
    refine wp_when.mpr ⟨fun htrue => ?_, fun _ => hs₁⟩
    obtain ⟨key, hkey⟩ := hgenerator htrue
    have htaking : Taking issued config c key [] ([] : List (ScheduledVlmRequest ρ F κ ξ)) s₁ :=
      ⟨hs₁.1, hs₁.2, hkey, hs₁.2.bounded, fun _ hmem => nomatch hmem⟩
    rw [wp_bind]
    refine (wp_takeBatch hfresh hpending htaking).mono ?_ fun _ _ => id
    rintro ⟨skipped, batch⟩ s₂ hs₂
    have hback : Taking issued config c key [] batch
        { s₂ with pending := skipped ++ s₂.pending } :=
      ⟨hs₂.moves, ⟨hs₂.sane.bounded, hs₂.sane.issued, hs₂.sane.sampled, hs₂.sane.keyed⟩,
        hs₂.generator, hs₂.room, hs₂.sampled⟩
    rw [wp_bind, wp_modify]
    split
    case isTrue hnone =>
      obtain rfl : batch = [] := hnone
      rw [wp_bind, wp_get]
      exact wp_when.mpr ⟨fun hempty => serves_close ⟨hback.moves, hback.sane⟩ hempty,
        fun _ => ⟨hback.moves, hback.sane⟩⟩
    case isFalse => exact serves_insertBatch hfresh hback

/-- `tick`. -/
theorem serves_tick (hfresh : VlmFreshUids engine gen issued) (h : Serves issued config c s) :
    (tick engine gen store config marks : Call ρ F κ ξ γ ω Unit).wp
      (fun _ => Serves issued config c) (fun _ => Serves issued config c) s := by
  -- the part after the step of the generator
  have hrest : ∀ s', Serves issued config c s' →
      (do
        let s ← .get
        .when (s.generator.isSome ∧ s.active.keys = [] ∧ s.pending = []) (close store)
        admitPending engine gen store config marks : Call ρ F κ ξ γ ω Unit).wp
        (fun _ => Serves issued config c) (fun _ => Serves issued config c) s' := by
    intro s' hs'
    rw [wp_bind, wp_get, wp_bind]
    refine wp_when.mpr ⟨fun hidle => ?_, fun _ => serves_admitPending hfresh hs'⟩
    exact (serves_close hs' hidle.2.1).mono (fun _ _ => serves_admitPending hfresh) fun _ _ => id
  rw [tick, wp_bind, wp_get]
  split
  · exact h
  rw [wp_bind]
  refine wp_when.mpr ⟨fun _ => ?_, fun _ => hrest s h⟩
  rw [wp_bind]
  refine (serves_stepGenerator hfresh h).mono (fun _ s' hs' => ?_) fun _ _ => id
  exact (serves_reportActiveBatch hs').mono (fun _ => hrest) fun _ _ => id

end Admission

/-! ## Operations -/

/-- What the caller of the scheduler does.  While a tick prepares requests, the reader marks those
that were cancelled. -/
inductive Op (ρ F : Type)
  | submit (request : ChatRequest ρ F)
  | cancel (requestId : ρ)
  | tick (marks : ρ → ℕ → Bool)

/-- The request that an operation submits; `submit` does not raise. -/
def Op.named : Op ρ F → Option ρ
  | .submit request => some request.requestId
  | .cancel _ | .tick _ => none

section Operations

variable [DecidableEq ρ] [DecidableEq F]

/-- An operation; the answer is what it returned or raised. -/
def step (engine : VlmEngine γ ρ F κ ξ ι) (gen : VlmGenerator γ F κ ξ) (store : VlmCaches ω κ ξ)
    (config : V1Config) (s : VlmScheduler ρ F κ ξ γ ω) :
    Op ρ F → Except PyError Unit × VlmScheduler ρ F κ ξ γ ω
  | .submit request => (do let _ ← submit engine request).run s
  | .cancel requestId => (do let _ ← cancel engine gen store config requestId).run s
  | .tick marks => (tick engine gen store config marks).run s

variable (engine) in
omit [DecidableEq ρ] [DecidableEq F] in
/-- What `submit` does: it refuses, or it puts the request into the queue. -/
theorem run_submit (request : ChatRequest ρ F) (s : VlmScheduler ρ F κ ξ γ ω) :
    (∃ message n, (submit engine request).run s = (.ok false, { s with
      workerErrorCount := n
      sink := s.sink ++ [.error request.requestId "INVALID_REQUEST" message] })) ∨
    (submit engine request).run s = (.ok true, { s with pending := s.pending ++ [request] }) := by
  unfold submit
  split
  · exact .inl ⟨_, _, rfl⟩
  · exact .inr rfl

/-- `submit`. -/
theorem effect_submit (request : ChatRequest ρ F) (h : Sane issued config s) :
    Effect (custody [] [] s) (some request.requestId)
      (custody [] [] (step engine gen store config s (.submit request)).2) ∧
      Sane issued config (step engine gen store config s (.submit request)).2 := by
  rw [step, run_bind]
  rcases run_submit engine request s with ⟨message, n, hrun⟩ | hrun
  · simp only [hrun]
    refine ⟨?_, h.bounded, h.issued, h.sampled, h.keyed⟩
    have hafter := custody_sink (s := { s with workerErrorCount := n }) [] []
      (.error request.requestId "INVALID_REQUEST" message)
    change Effect _ _ (custody [] [] { s with
      workerErrorCount := n
      sink := s.sink ++ [.error request.requestId "INVALID_REQUEST" message] })
    rw [hafter]
    exact Effect.refused (c := custody [] [] s) request.requestId
  · simp only [hrun]
    refine ⟨?_, h.bounded, h.issued, h.sampled, h.keyed⟩
    have hafter : custody [] [] { s with pending := s.pending ++ [request] } =
        { custody [] [] s with
          queue := (custody [] [] s).queue ++ [request.requestId] } := by
      simp [custody, runningIds]
    change Effect _ _ (custody [] [] { s with pending := s.pending ++ [request] })
    rw [hafter]
    exact Effect.queued (c := custody [] [] s) request.requestId

/-- Every operation. -/
theorem effect_step (hfresh : VlmFreshUids engine gen issued) (op : Op ρ F)
    (h : Sane issued config s) :
    Effect (custody [] [] s) op.named
      (custody [] [] (step engine gen store config s op).2) ∧
      Sane issued config (step engine gen store config s op).2 := by
  have hmoved : ∀ {s' : VlmScheduler ρ F κ ξ γ ω},
      Serves issued config (custody [] [] s) s' →
      Effect (custody [] [] s) none (custody [] [] s') ∧ Sane issued config s' :=
    fun hserves => ⟨.moved hserves.1, hserves.2⟩
  cases op with
  | submit request => exact effect_submit request h
  | cancel requestId =>
      refine hmoved (wp.after (m := do let _ ← cancel engine gen store config requestId) ?_)
      rw [wp_bind]
      exact (serves_cancel hfresh requestId ⟨.refl, h⟩).mono (fun _ _ => id) fun _ _ => id
  | tick marks => exact hmoved (serves_tick hfresh ⟨.refl, h⟩).after

end Operations

end VlmScheduler
end MlxRuntime
