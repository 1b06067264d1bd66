import MlxRuntime.Runtime.Submission
import MlxRuntime.Scheduler.Alone

/-!
# The warm-up of the native runtime

`warmup` submits a request for one token and ticks until the runtime is idle.  An executor that
fails is caught by the scheduler, which makes an event of it, and the events of these ticks are
dropped.

## Main definitions

* `NativeRuntime.drain`, `NativeRuntime.warmup` — the warm-up.
* `NativeRuntime.Warming.tick` — what a tick of it comes to.
* `NativeRuntime.Warming.honest_iff` — what the whole comes to.
-/

namespace MlxRuntime

variable {ρ σ π φ δ : Type} [DecidableEq ρ]

namespace NativeRuntime

variable (svc : SchedulerServices ρ σ π φ) (config : SchedulerConfig) (text : TextServices δ)

/-- `while not self.idle(): self.tick()`: the events, and the runtime or what was raised. -/
def drain : ℕ → NativeRuntime ρ σ φ δ →
    Option (List (RuntimeEvent ρ) × Except PyError (NativeRuntime ρ σ φ δ))
  | 0, r => if r.idle then some ([], .ok r) else none
  | fuel + 1, r =>
      if r.idle then some ([], .ok r)
      else
        match r.tick svc text config with
        | .error e => some ([], .error e)
        | .ok (events, r) =>
            (drain fuel r).map fun (more, result) => (events ++ more, result)

/-- A condition on the state before each tick of `drain`. -/
def EachTick (ok : NativeRuntime ρ σ φ δ → Prop) : ℕ → NativeRuntime ρ σ φ δ → Prop
  | 0, _ => True
  | fuel + 1, r => r.idle = false → ok r ∧
      ∀ events r', r.tick svc text config = .ok (events, r') → EachTick ok fuel r'

/-- The request of the warm-up. -/
def warmupRequest {F : Type} (modelRef : String) (zero one : F) : ChatRequest String F where
  requestId := "warmup"
  model := modelRef
  messages := [{ role := .str "user", content := .plain "ping" }]
  maxTokens := 1
  temperature := zero
  topP := one
  maxPromptTokens := 64
  maxCompletionTokens := 64
  maxTotalTokensPerRequest := 128
  stop := []
  stream := false

/-- `warmup`; the floats `0.0` and `1.0` are given. -/
def warmup {F : Type} (svc : SchedulerServices String σ π φ) (config : SchedulerConfig)
    (model : ModelServices F) (text : TextServices δ) (zero one : F)
    (profiled : Except PyError Unit) (fuel : ℕ) (r : NativeRuntime String σ φ δ) :
    Option (List (RuntimeEvent String) × Except PyError (NativeRuntime String σ φ δ)) :=
  match r.submitRequest model text (warmupRequest model.modelRef zero one) profiled with
  | (.error e, _) => some ([], .error e)
  | (.ok (), r) => r.drain svc config text fuel

variable {svc config text} {r : NativeRuntime ρ σ φ δ} {s s₂ : NativeScheduler ρ σ φ} {id : ρ}
  {st : NativeRuntimeState ρ δ} {code message : String}

/-- There is a response to the request. -/
def Responds (id : ρ) (events : List (RuntimeEvent ρ)) : Prop :=
  ∃ response, .text (.response response) ∈ events ∧ response.requestId = id

/-- There is an error of the request. -/
def Errs (id : ρ) (events : List (RuntimeEvent ρ)) : Prop :=
  ∃ code message, .error code id message ∈ events

/-- The runtime has one request, for one token, and waits for it. -/
structure Warming (id : ρ) (r : NativeRuntime ρ σ φ δ) : Prop where
  alone : r.scheduler.Alone id
  request : ∃ st, r.requests.get? id = some st ∧ st.request.requestId = id ∧
    st.completionTokenIds = [] ∧ st.request.maxTokens ≤ 1

omit [DecidableEq ρ] in
theorem responds_append {events more : List (RuntimeEvent ρ)} :
    Responds id (events ++ more) ↔ Responds id events ∨ Responds id more := by
  simp only [Responds, List.mem_append, or_and_right, exists_or]

omit [DecidableEq ρ] in
theorem errs_append {events more : List (RuntimeEvent ρ)} :
    Errs id (events ++ more) ↔ Errs id events ∨ Errs id more := by
  simp only [Errs, List.mem_append, exists_or]

omit [DecidableEq ρ] in
theorem not_responds_nil : ¬ Responds id ([] : List (RuntimeEvent ρ)) :=
  fun ⟨_, hmem, _⟩ => List.not_mem_nil hmem

omit [DecidableEq ρ] in
theorem not_errs_nil : ¬ Errs id ([] : List (RuntimeEvent ρ)) :=
  fun ⟨_, _, hmem⟩ => List.not_mem_nil hmem

/-! ## The events of a tick -/

/-- An event that does not raise is followed by the others. -/
theorem applySchedulerEvents_cons {event : SchedulerEvent ρ} {events : List (SchedulerEvent ρ)}
    {output : List (RuntimeEvent ρ)} {r₁ : NativeRuntime ρ σ φ δ}
    (h : r.applySchedulerEvent svc text event = .ok (output, r₁)) :
    r.applySchedulerEvents svc text (event :: events) =
      (r₁.applySchedulerEvents svc text events).map fun x => (output ++ x.1, x.2) := by
  rw [applySchedulerEvents, h, ok_bind]
  dsimp only
  generalize r₁.applySchedulerEvents svc text events = more
  cases more <;> rfl

variable (svc text id) in
/-- Metrics are passed on. -/
theorem applySchedulerEvents_metrics {events : List (SchedulerEvent ρ)}
    (h : ∀ event ∈ events, event.requestId? = none) (r : NativeRuntime ρ σ φ δ) :
    ∃ output, r.applySchedulerEvents svc text events = .ok (output, r) ∧
      ¬ Responds id output ∧ ¬ Errs id output := by
  induction events with
  | nil =>
    exact ⟨[], rfl, not_responds_nil, not_errs_nil⟩
  | cons event events ih =>
    obtain ⟨output, happly, hresponds, herrs⟩ := ih fun e he => h e (List.mem_cons_of_mem _ he)
    have hnone := h event List.mem_cons_self
    cases event with
    | prefillProgress | token | cancelled | executionError => cases hnone
    | metrics phase batchSize scheduledTokens waiting running =>
      refine ⟨.metrics phase batchSize scheduledTokens waiting running :: output, ?_, ?_, ?_⟩
      · rw [applySchedulerEvents, applySchedulerEvent, ok_bind]
        dsimp only
        rw [happly]
        rfl
      · rintro ⟨response, hmem, hid⟩
        rcases List.mem_cons.mp hmem with heq | hmem
        · cases heq
        · exact hresponds ⟨response, hmem, hid⟩
      · rintro ⟨code, message, hmem⟩
        rcases List.mem_cons.mp hmem with heq | hmem
        · cases heq
        · exact herrs ⟨code, message, hmem⟩

omit [DecidableEq ρ] in
/-- The end of a request has its response. -/
theorem exists_response_finish (counters : RuntimeCounters) (reason : FinishReason)
    (st : NativeRuntimeState ρ δ) : ∃ response, .response response ∈ st.finish text counters reason ∧
      response.requestId = st.request.requestId := by
  rw [NativeRuntimeState.finish]
  generalize st.flush text reason = flushed
  obtain ⟨finalEmitted, stop⟩ := flushed
  dsimp only
  split <;> exact ⟨_, List.mem_append_right _ (List.mem_singleton_self _), rfl⟩

omit [DecidableEq ρ] in
theorem detokenize_frame (token : Token) (st : NativeRuntimeState ρ δ) :
    (st.detokenize text token).2.request = st.request ∧
      (st.detokenize text token).2.completionTokenIds = st.completionTokenIds := by
  rw [NativeRuntimeState.detokenize]
  split <;> exact ⟨rfl, rfl⟩

omit [DecidableEq ρ] in
/-- A token for a request that asked for one ends it. -/
theorem acceptToken_last (hmax : st.request.maxTokens ≤ st.completionTokenIds.length + 1)
    (counters : RuntimeCounters) (token : Token) :
    ∃ events response, st.acceptToken text counters token = (events, none) ∧
      .response response ∈ events ∧ response.requestId = st.request.requestId := by
  rw [NativeRuntimeState.acceptToken]
  split
  · obtain ⟨response, hmem, hid⟩ := exists_response_finish counters .stop
      { st with completionTokenIds := st.completionTokenIds ++ [token] }
    exact ⟨_, response, rfl, hmem, hid⟩
  · obtain ⟨hrequest, htokens⟩ := detokenize_frame token
      { st with completionTokenIds := st.completionTokenIds ++ [token] }
    generalize NativeRuntimeState.detokenize text token _ = detokenized at hrequest htokens ⊢
    obtain ⟨delta, st₁⟩ := detokenized
    dsimp only at hrequest htokens ⊢
    generalize st₁.stop.push delta = pushed
    obtain ⟨⟨emitted, stopHit⟩, stop⟩ := pushed
    have hend : ∀ reason, ∃ events response,
        ({ st₁ with stop := stop }.deltas emitted ++
          { st₁ with stop := stop }.finish text counters reason, none) =
            ((events, none) : List (TextEvent ρ) × Option (NativeRuntimeState ρ δ)) ∧
          .response response ∈ events ∧ response.requestId = st.request.requestId := by
      intro reason
      obtain ⟨response, hmem, hid⟩ := exists_response_finish counters reason
        { st₁ with stop := stop }
      exact ⟨_, response, rfl, List.mem_append_right _ hmem, hid.trans (congrArg _ hrequest)⟩
    dsimp only
    have hlast : st₁.request.maxTokens ≤ (st₁.completionTokenIds.length : ℤ) := by
      rw [hrequest, htokens, List.length_append, List.length_singleton]
      exact_mod_cast hmax
    rw [if_pos hlast]
    split
    · exact hend .stop
    · exact hend .length

variable (svc) in
/-- An event that ends the request. -/
theorem applySchedulerEvent_ends {event : SchedulerEvent ρ} (hget : r.requests.get? id = some st)
    (hevent : event.requestId? = some id) {events : List (RuntimeEvent ρ)}
    {counters : RuntimeCounters} (happly : st.applyEvent text r.counters event =
      (events, none, counters)) :
    r.applySchedulerEvent svc text event = (do
      let scheduler ← r.scheduler.finish svc id
      return (events, { scheduler := scheduler, requests := r.requests.pop id, counters })) := by
  cases event with
  | metrics => cases hevent
  | prefillProgress | token | cancelled | executionError =>
    obtain rfl := Option.some.inj hevent
    rw [applySchedulerEvent, hget]
    dsimp only
    rw [happly]

/-- An event after which the request goes on. -/
theorem applySchedulerEvent_goes_on {event : SchedulerEvent ρ}
    (hget : r.requests.get? id = some st) (hevent : event.requestId? = some id)
    {events : List (RuntimeEvent ρ)} {st' : NativeRuntimeState ρ δ} {counters : RuntimeCounters}
    (happly : st.applyEvent text r.counters event = (events, some st', counters)) :
    r.applySchedulerEvent svc text event =
      .ok (events, { r with requests := r.requests.set id st', counters := counters }) := by
  cases event with
  | metrics => cases hevent
  | prefillProgress | token | cancelled | executionError =>
    obtain rfl := Option.some.inj hevent
    rw [applySchedulerEvent, hget]
    dsimp only
    rw [happly]

variable (svc) in
/-- The end of the request, and metrics behind it. -/
theorem applySchedulerEvents_ends {event : SchedulerEvent ρ} {metrics : List (SchedulerEvent ρ)}
    (hget : r.requests.get? id = some st) (hevent : event.requestId? = some id)
    {events : List (RuntimeEvent ρ)} {counters : RuntimeCounters}
    (happly : st.applyEvent text r.counters event = (events, none, counters))
    (hmetrics : ∀ event ∈ metrics, event.requestId? = none) :
    (∀ e, r.scheduler.finish svc id = .error e →
      r.applySchedulerEvents svc text (event :: metrics) = .error e) ∧
    ∀ s, r.scheduler.finish svc id = .ok s → ∃ output r', r'.scheduler = s ∧
      r.applySchedulerEvents svc text (event :: metrics) = .ok (output, r') ∧
      (Responds id output ↔ Responds id events) ∧ (Errs id output ↔ Errs id events) := by
  have hends := applySchedulerEvent_ends svc hget hevent happly
  constructor
  · intro e hfinish
    rw [applySchedulerEvents, hends, hfinish]
    rfl
  · intro s hfinish
    obtain ⟨output, hmetrics, hresponds, herrs⟩ := applySchedulerEvents_metrics svc text id hmetrics
      { scheduler := s, requests := r.requests.pop id, counters }
    have hended : r.applySchedulerEvent svc text event =
        .ok (events, { scheduler := s, requests := r.requests.pop id, counters }) := by
      rw [hends, hfinish]
      rfl
    refine ⟨events ++ output, ⟨s, r.requests.pop id, counters⟩, rfl, ?_, ?_, ?_⟩
    · rw [applySchedulerEvents_cons hended, hmetrics]
      rfl
    · exact responds_append.trans (or_iff_left hresponds)
    · exact errs_append.trans (or_iff_left herrs)

/-! ## A tick of the warm-up -/

open NativeScheduler (Empty closes execute failsQuietly judge prefillWork releases)

variable (svc config r id) in
/-- What a tick of the warm-up comes to. -/
inductive Ticked : Except PyError (List (RuntimeEvent ρ) × NativeRuntime ρ σ φ δ) → Prop
  | raised {e} (quiet : failsQuietly svc config r.scheduler = false) : Ticked (.error e)
  | more {events r'} (warming : Warming id r') (responds : ¬ Responds id events)
      (errs : ¬ Errs id events) (quiet : failsQuietly svc config r.scheduler = false) :
      Ticked (.ok (events, r'))
  | responded {events r'} (idle : r'.idle = true) (responds : Responds id events)
      (errs : ¬ Errs id events) (quiet : failsQuietly svc config r.scheduler = false) :
      Ticked (.ok (events, r'))
  | failed {events r'} (idle : r'.idle = true) (responds : ¬ Responds id events)
      (errs : Errs id events) (quiet : failsQuietly svc config r.scheduler = true) :
      Ticked (.ok (events, r'))

omit [DecidableEq ρ] in
/-- The metrics of a step are of no request. -/
theorem stepMetrics_requestId (request : ExecutionRequest ρ) (s : NativeScheduler ρ σ φ) :
    ∀ event ∈ NativeScheduler.stepMetrics request s, event.requestId? = none := by
  have hphase : ∀ phase, ∀ event ∈ NativeScheduler.phaseMetrics [request] s phase,
      event.requestId? = none := by
    intro phase event hevent
    rw [NativeScheduler.phaseMetrics] at hevent
    split at hevent
    · cases hevent
    · rw [List.mem_singleton.mp hevent]
      rfl
  intro event hevent
  rcases List.mem_append.mp hevent with hevent | hevent
  · exact hphase .decode event hevent
  · exact hphase .prefill event hevent

/-- The executor fails the request. -/
theorem Warming.tick_failed (h : Warming id r) {handle : Option ℕ} {world : σ}
    {code message : String}
    (hquiet : failsQuietly svc config r.scheduler = releases svc handle world)
    (hfailed : (releases svc handle world = true →
      ∃ s₂ s₃, r.scheduler.tick svc config = .ok ([.executionError id code message], s₂) ∧
        s₂.finish svc id = .ok s₃ ∧ Empty s₃) ∧
      (releases svc handle world = false →
        (∃ e, r.scheduler.tick svc config = .error e) ∨
          ∃ s₂ e, r.scheduler.tick svc config = .ok ([.executionError id code message], s₂) ∧
            s₂.finish svc id = .error e)) :
    Ticked svc config r id (r.tick svc text config) := by
  obtain ⟨st, hget, hrequest, -, -⟩ := h.request
  have hnone : ∀ event ∈ ([] : List (SchedulerEvent ρ)), event.requestId? = none :=
    fun _ hmem => absurd hmem List.not_mem_nil
  have hends := fun s₂ => applySchedulerEvents_ends svc (r := { r with scheduler := s₂ }) hget
    (show (SchedulerEvent.executionError id code message).requestId? = some id from rfl)
    (show st.applyEvent text _ _ = _ from rfl) hnone
  rw [NativeRuntime.tick]
  cases hreleases : releases svc handle world with
  | true =>
    obtain ⟨s₂, s₃, htick, hfinish, hempty⟩ := hfailed.1 hreleases
    obtain ⟨output, r', hscheduler, happly, hresponds, herrs⟩ := (hends s₂).2 s₃ hfinish
    rw [htick, ok_bind]
    dsimp only
    rw [happly]
    refine .failed ?_ (fun hyes => ?_) (herrs.mpr ?_) (hquiet.trans hreleases)
    · rw [idle, hscheduler]
      exact hempty.idle
    · obtain ⟨response, hmem, -⟩ := hresponds.mp hyes
      cases List.mem_singleton.mp hmem
    · exact ⟨_, _, List.mem_singleton.mpr (by rw [hrequest])⟩
  | false =>
    rcases hfailed.2 hreleases with ⟨e, htick⟩ | ⟨s₂, e, htick, hfinish⟩
    · rw [htick]
      exact .raised (hquiet.trans hreleases)
    · rw [htick, ok_bind]
      dsimp only
      rw [(hends s₂).1 e hfinish]
      exact .raised (hquiet.trans hreleases)

omit [DecidableEq ρ] in
variable (text) in
/-- The token of the request ends it, with an error if there is none. -/
theorem applyEvent_token (hrequest : st.request.requestId = id) (htokens : st.completionTokenIds = [])
    (hmax : st.request.maxTokens ≤ 1) (counters : RuntimeCounters) (token : Option Token)
    (cacheLength : ℕ) (phase : ExecutionPhase) (batchSize : Option ℕ) :
    ∃ events counters', st.applyEvent text counters (.token id token cacheLength phase batchSize) =
        (events, none, counters') ∧
      (Responds id events ↔ token ≠ none) ∧ (Errs id events ↔ token = none) := by
  cases token with
  | none =>
    refine ⟨_, _, rfl, ⟨fun ⟨response, hmem, _⟩ => ?_, fun hne => absurd rfl hne⟩,
      ⟨fun _ => rfl, fun _ => ⟨_, _, List.mem_singleton.mpr (by rw [← hrequest])⟩⟩⟩
    cases List.mem_singleton.mp hmem
  | some token =>
    obtain ⟨st₁, hst₁⟩ : ∃ st₁, st₁ = { st with
        decodeBatchSize := batchSize <|> st.decodeBatchSize } := ⟨_, rfl⟩
    have hlast : st₁.request.maxTokens ≤ (st₁.completionTokenIds.length : ℤ) + 1 := by
      rw [hst₁, htokens]
      exact hmax
    obtain ⟨events, response, haccept, hmem, hid⟩ := acceptToken_last hlast counters token
    rw [hst₁] at haccept hid
    refine ⟨events.map .text, counters, ?_, ⟨fun _ => by simp, fun _ => ?_⟩,
      ⟨fun ⟨code, message, herr⟩ => ?_, fun hnone => by cases hnone⟩⟩
    · rw [NativeRuntimeState.applyEvent]
      dsimp only
      rw [haccept]
    · exact ⟨response, List.mem_map_of_mem hmem, hid.trans hrequest⟩
    · obtain ⟨event, -, heq⟩ := List.mem_map.mp herr
      cases heq

/-- The executor serves the request. -/
theorem Warming.tick_served (h : Warming id r) {s₁ : NativeScheduler ρ σ φ} {world : σ}
    {request : ExecutionRequest ρ} {result : StepResult ρ} {item : StepRequestResult ρ}
    (hselect : NativeScheduler.selectWork svc config
      { r.scheduler with schedulerRound := r.scheduler.schedulerRound + 1 } = .ok ([request], s₁))
    (hruns : NativeScheduler.Runs id s₁) (hid : request.requestId = id)
    (hphase : request.phase = .prefill)
    (hexecute : execute svc config ⟨[request]⟩ s₁.world = (.ok result, world))
    (hjudge : judge result request = .ok item) :
    Ticked svc config r id (r.tick svc text config) := by
  have htick := h.alone.tick_served hselect hruns hid hphase hexecute hjudge
  have hquiet : failsQuietly svc config r.scheduler = (item.nextTokenId.isNone &&
      (s₁.states id).promptCursor + request.tokenIds.length = (s₁.states id).promptLength &&
      closes svc item (s₁.states id) world) := by
    rw [failsQuietly, hselect]
    dsimp only
    rw [hexecute, hid]
    dsimp only
    rw [hjudge]
  rw [closes] at hquiet
  rw [NativeRuntime.tick, htick]
  generalize svc.publishCommitted item.cacheHandle (s₁.states id).work.promptTokenIds
    item.cacheLength world = published at hquiet
  obtain ⟨e | _, world'⟩ := published
  · exact .raised (by rw [hquiet, Bool.and_false])
  obtain ⟨st, hget, hrequest, htokens, hmax⟩ := h.request
  have hserved := NativeScheduler.served_applyResult config hphase item (s₁.states id)
  obtain ⟨-, hending, -, -⟩ := hruns.served config hid hphase item world'
  have hmetrics := stepMetrics_requestId request
    (NativeScheduler.served config request item world' s₁)
  have hmore := hruns.served_runs config hid hphase item world'
  dsimp only
  rw [ok_bind]
  dsimp only
  generalize NativeScheduler.applyResult config request item (s₁.states id) = st' at hserved ⊢
  generalize NativeScheduler.served config request item world' s₁ = s' at hending hmetrics hmore ⊢
  have hcomplete : (st'.promptCursor = st'.promptLength) ↔
      (s₁.states id).promptCursor + request.tokenIds.length = (s₁.states id).promptLength := by
    rw [hserved.promptCursor, ScheduledState.promptLength, hserved.work]
    exact Iff.rfl
  rw [NativeScheduler.resultEvents, hphase]
  dsimp only
  rw [hid, List.cons_append, applySchedulerEvents,
    applySchedulerEvent_goes_on (r := { r with scheduler := s' }) hget rfl rfl, ok_bind]
  dsimp only
  by_cases hlast : st'.promptCursor = st'.promptLength
  · obtain ⟨st₂, hst₂⟩ : ∃ st₂, st₂ = { st with
        cachedTokens := max st.cachedTokens st'.reusedPromptTokens
        promptBatchSize := some (NativeScheduler.phaseCount result .prefill) } := ⟨_, rfl⟩
    have hrequest₂ : st₂.request.requestId = id ∧ st₂.completionTokenIds = [] ∧
        st₂.request.maxTokens ≤ 1 := by
      rw [hst₂]
      exact ⟨hrequest, htokens, hmax⟩
    rw [← hst₂]
    obtain ⟨events, counters, happly, hresponds, herrs⟩ := applyEvent_token text hrequest₂.1
      hrequest₂.2.1 hrequest₂.2.2 r.counters item.nextTokenId item.cacheLength .prefill none
    have hends := applySchedulerEvents_ends svc
      (r := { scheduler := s', requests := r.requests.set id st₂, counters := r.counters })
      (Dict.get?_set_self ..) rfl happly hmetrics
    rw [decide_eq_true (hcomplete.mp hlast), Bool.and_true] at hquiet
    rw [decide_eq_true hlast, if_pos rfl, List.singleton_append]
    obtain ⟨hleaves, hraises⟩ := hending.releaseCache svc
    rw [← hending.finish] at hleaves hraises
    dsimp only at hquiet
    cases hreleases : releases svc (s₁.states id).cacheHandle world' with
    | false =>
      obtain ⟨e, hfinish⟩ := hraises hreleases
      rw [hends.1 e hfinish]
      exact .raised (by rw [hquiet, hreleases, Bool.and_false])
    | true =>
      obtain ⟨s₃, hfinish, hempty⟩ := hleaves hreleases
      obtain ⟨output, r', hscheduler, houtput, hresponds', herrs'⟩ := hends.2 s₃ hfinish
      have hidle : r'.idle = true := by
        rw [idle, hscheduler]
        exact hempty.idle
      rw [houtput]
      rw [hreleases, Bool.and_true] at hquiet
      cases htoken : item.nextTokenId with
      | none =>
        rw [htoken] at hquiet hresponds herrs
        exact .failed hidle (fun hyes => hresponds.mp (hresponds'.mp hyes) rfl)
          (herrs'.mpr (herrs.mpr rfl)) hquiet
      | some token =>
        rw [htoken] at hquiet hresponds herrs
        refine .responded hidle (hresponds'.mpr (hresponds.mpr (Option.some_ne_none token)))
          (fun hyes => ?_) hquiet
        cases herrs.mp (herrs'.mp hyes)
  · rw [decide_eq_false hlast, if_neg Bool.false_ne_true, List.nil_append]
    obtain ⟨output, happly, hresponds, herrs⟩ := applySchedulerEvents_metrics svc text id hmetrics _
    rw [happly]
    refine .more ⟨?_, _, Dict.get?_set_self .., hrequest, htokens, hmax⟩ hresponds herrs ?_
    · exact (hmore fun heq => hlast (hcomplete.mpr heq)).toAlone
    · rw [hquiet, decide_eq_false fun heq => hlast (hcomplete.mpr heq), Bool.and_false,
        Bool.false_and]

theorem Warming.tick (h : Warming id r) : Ticked svc config r id (r.tick svc text config) := by
  cases hselect : NativeScheduler.selectWork svc config
      { r.scheduler with schedulerRound := r.scheduler.schedulerRound + 1 } with
  | error e =>
    rw [NativeRuntime.tick, h.alone.tick_raises hselect]
    exact .raised (by rw [failsQuietly, hselect])
  | ok work =>
    obtain ⟨selected, s₁⟩ := work
    rcases h.alone.nextRound.selectWork hselect with ⟨rfl, halone⟩ | ⟨rfl, hruns⟩
    · rw [NativeRuntime.tick, h.alone.tick_nothing hselect halone, ok_bind]
      exact .more ⟨halone, h.request⟩ not_responds_nil not_errs_nil (by rw [failsQuietly, hselect])
    · have hid : (prefillWork config (s₁.states id)).requestId = id := hruns.requestId
      have hphase : (prefillWork config (s₁.states id)).phase = .prefill := rfl
      generalize prefillWork config (s₁.states id) = request at hselect hid hphase
      generalize hexecute : execute svc config ⟨[request]⟩ s₁.world = executed
      obtain ⟨answer, world⟩ := executed
      cases answer with
      | error e =>
        refine h.tick_failed ?_ (h.alone.tick_failed hselect hruns hid hphase hexecute ⟨rfl, rfl⟩)
        rw [failsQuietly, hselect]
        dsimp only
        rw [hexecute, hid]
      | ok result =>
        cases hjudge : judge result request with
        | error failure =>
          obtain ⟨code, message⟩ := failure
          refine h.tick_failed ?_
            (h.alone.tick_failed hselect hruns hid hphase hexecute hjudge)
          rw [failsQuietly, hselect]
          dsimp only
          rw [hexecute, hid]
          dsimp only
          rw [hjudge]
        | ok item => exact h.tick_served hselect hruns hid hphase hexecute hjudge

/-! ## The whole warm-up -/

/-- It succeeds only with a response, and raises if the request has an error. -/
structure Honest (id : ρ) (events : List (RuntimeEvent ρ))
    (result : Except PyError (NativeRuntime ρ σ φ δ)) : Prop where
  responds : ∀ r, result = .ok r → Responds id events
  raises : Errs id events → ∃ e, result = .error e

theorem Warming.not_idle (h : Warming id r) : r.idle = false := by
  have hall := h.alone.all
  rw [idle, NativeScheduler.idle]
  cases hwaiting : r.scheduler.waiting with
  | cons => rfl
  | nil =>
    rw [hwaiting, List.nil_append] at hall
    rw [hall]
    rfl

variable (svc config text) in
theorem drain_of_idle (fuel : ℕ) (h : r.idle = true) :
    drain svc config text fuel r = some ([], .ok r) := by
  cases fuel with
  | zero => exact if_pos h
  | succ fuel => exact if_pos h

theorem eachTick_of_idle {ok : NativeRuntime ρ σ φ δ → Prop} {fuel : ℕ} (h : r.idle = true) :
    EachTick svc config text ok fuel r := by
  cases fuel with
  | zero => trivial
  | succ fuel =>
    intro hnot
    rw [h] at hnot
    cases hnot

omit [DecidableEq ρ] in
theorem honest_append {events more : List (RuntimeEvent ρ)}
    {result : Except PyError (NativeRuntime ρ σ φ δ)} (hresponds : ¬ Responds id events)
    (herrs : ¬ Errs id events) : Honest id (events ++ more) result ↔ Honest id more result := by
  constructor
  · intro h
    exact ⟨fun r hr => (responds_append.mp (h.responds r hr)).resolve_left hresponds,
      fun hmore => h.raises (errs_append.mpr (.inr hmore))⟩
  · intro h
    exact ⟨fun r hr => responds_append.mpr (.inr (h.responds r hr)),
      fun hmore => h.raises ((errs_append.mp hmore).resolve_left herrs)⟩

/-- The warm-up is honest just when no tick of it fails quietly. -/
theorem Warming.honest_iff (h : Warming id r) (fuel : ℕ) :
    (∀ events result, drain svc config text fuel r = some (events, result) →
      Honest id events result) ↔
    EachTick svc config text (fun r => failsQuietly svc config r.scheduler = false) fuel r := by
  induction fuel generalizing r with
  | zero =>
    refine iff_of_true (fun events result hdrain => ?_) trivial
    rw [drain, if_neg (by rw [h.not_idle]; exact Bool.false_ne_true)] at hdrain
    cases hdrain
  | succ fuel ih =>
    have hdrain : drain svc config text (fuel + 1) r =
        match r.tick svc text config with
        | .error e => some ([], .error e)
        | .ok (events, r) =>
            (drain svc config text fuel r).map fun (more, result) => (events ++ more, result) :=
      if_neg (by rw [h.not_idle]; exact Bool.false_ne_true)
    have hticked : Ticked svc config r id (r.tick svc text config) := h.tick
    rw [hdrain, EachTick, forall_prop_of_true h.not_idle]
    generalize r.tick svc text config = ticked at hticked
    cases hticked with
    | raised quiet =>
      refine iff_of_true (fun events result heq => ?_)
        ⟨quiet, (fun events r' heq => by cases heq)⟩
      obtain ⟨rfl, rfl⟩ := Prod.mk.inj (Option.some.inj heq)
      exact ⟨(fun r hr => by cases hr), fun herrs => absurd herrs not_errs_nil⟩
    | more warming responds errs quiet =>
      rename_i events r'
      dsimp only
      have hmap : (∀ output result, (drain svc config text fuel r').map
            (fun x => (events ++ x.1, x.2)) = some (output, result) → Honest id output result) ↔
          ∀ more result, drain svc config text fuel r' = some (more, result) →
            Honest id more result := by
        constructor
        · intro hall more result hmore
          exact (honest_append responds errs).mp (hall _ _ (by rw [hmore]; rfl))
        · intro hall output result houtput
          obtain ⟨⟨more, result'⟩, hmore, heq⟩ := Option.map_eq_some_iff.mp houtput
          obtain ⟨rfl, rfl⟩ := Prod.mk.inj heq
          exact (honest_append responds errs).mpr (hall more result' hmore)
      refine hmap.trans ((ih warming).trans ⟨fun hrest => ⟨quiet, fun events₁ r₁ heq => ?_⟩,
        fun hall => hall.2 events r' rfl⟩)
      obtain ⟨rfl, rfl⟩ := Prod.mk.inj (Except.ok.inj heq)
      exact hrest
    | responded idle responds errs quiet =>
      rename_i events r'
      dsimp only
      rw [drain_of_idle svc config text fuel idle]
      refine iff_of_true (fun output result heq => ?_) ⟨quiet, fun events₁ r₁ heq => ?_⟩
      · obtain ⟨rfl, rfl⟩ := Prod.mk.inj (Option.some.inj heq)
        rw [List.append_nil]
        exact ⟨fun _ _ => responds, fun hyes => absurd hyes errs⟩
      · obtain ⟨rfl, rfl⟩ := Prod.mk.inj (Except.ok.inj heq)
        exact eachTick_of_idle idle
    | failed idle responds errs quiet =>
      rename_i events r'
      dsimp only
      rw [drain_of_idle svc config text fuel idle]
      refine iff_of_false (fun hall => ?_) (fun hall => ?_)
      · have hhonest := hall (events ++ []) (.ok r') rfl
        rw [List.append_nil] at hhonest
        exact responds (hhonest.responds r' rfl)
      · rw [quiet] at hall
        cases hall.1

/-- A submission to a new runtime begins a warm-up. -/
theorem warming_submitRequest {F : Type} {model : ModelServices F} {request : ChatRequest ρ F}
    {profiled : Except PyError Unit} {world : σ} (hmax : request.maxTokens ≤ 1)
    (h : ({ scheduler := .new world } : NativeRuntime ρ σ φ δ).submitRequest model text request
      profiled = (.ok (), r)) : Warming request.requestId r := by
  cases hchecked : checked model request with
  | error e =>
    rw [submitRequest_of_error hchecked] at h
    cases (Prod.mk.inj h).1
  | ok prompt =>
    rw [submitRequest, hchecked] at h
    cases profiled with
    | error e => cases (Prod.mk.inj h).1
    | ok _ =>
      have hstate : r = ⟨⟨world, Function.update ScheduledState.blank request.requestId
          { work := schedulable request.textRequest prompt, arrivalOrder := 1 },
          [request.requestId], [], 1, 0, none⟩,
          Dict.empty.set request.requestId (.ofRequest text request.textRequest prompt), {}⟩ := by
        rw [← (Prod.mk.inj h).2]
        rfl
      subst hstate
      refine ⟨⟨rfl, .inl ⟨rfl, rfl, ?_⟩, ?_, ?_, ?_, ?_⟩, ?_⟩
      · simp
      · simp [schedulable, ChatRequest.textRequest]
      · simp
      · simp
      · simp
      · exact ⟨_, Dict.get?_set_self .., rfl, rfl, hmax⟩

end NativeRuntime
end MlxRuntime
