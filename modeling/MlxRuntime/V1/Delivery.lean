import MlxRuntime.V1.TextDelivery
import MlxRuntime.V1.VlmDelivery

/-!
# The v1 schedulers deliver each request once

Over any run of the operations of either scheduler, a request that was submitted waits, runs or has
ended with one response or error, the queue is in the order of submission, and nothing is told of a
request after its end.

## Main definitions

* `DeliversOnce` — the state of the requests after a run.
* `v1_delivers_once` — every run of either scheduler.
-/

namespace MlxRuntime

open Custody

variable {ρ F κ ξ ι γ γ' ω ω' : Type}

/-- The requests with a response or an error, once for each. -/
def terminals (sink : List (SinkEvent ρ)) : List ρ := ended (sink.map SinkEvent.note)

/-- What is told of the requests, and where they are. -/
structure DeliversOnce [DecidableEq ρ] (submitted queue running : List ρ)
    (sink : List (SinkEvent ρ)) : Prop where
  /-- A request is in one place, or has one response or error. -/
  onePlace : ∀ id ∈ submitted, queue.count id + running.count id + (terminals sink).count id = 1
  noOther : ∀ id, id ∈ queue ∨ id ∈ running ∨ id ∈ terminals sink → id ∈ submitted
  answered : queue = [] → running = [] → ∀ id ∈ submitted, (terminals sink).count id = 1
  quiet : ∀ before after event id, sink = before ++ event :: after → event.note = .ended id →
    ∀ delta, SinkEvent.delta id delta ∉ after
  inOrder : queue.Sublist submitted

theorem deliversOnce_of_kept [DecidableEq ρ] {submitted queue running : List ρ}
    {sink : List (SinkEvent ρ)} (hnodup : submitted.Nodup)
    (h : Kept submitted ⟨queue, [], running, sink.map SinkEvent.note⟩) :
    DeliversOnce submitted queue running sink where
  onePlace id hid := by simpa [terminals] using h.count hnodup hid
  noOther id hid := by
    refine h.places.mem_iff.mp ?_
    simpa [terminals] using hid
  answered hqueue hrunning id hid := h.count_ended hnodup hqueue rfl hrunning hid
  quiet := by
    rintro before after event id rfl hevent delta hdelta
    have hquiet := h.quiet
    rw [List.map_append, List.map_cons, List.pairwise_append, List.pairwise_cons] at hquiet
    exact hquiet.2.1.1 _ (List.mem_map_of_mem hdelta) id hevent rfl
  inOrder := h.inOrder

/-! ## Runs -/

/-- The text scheduler at its start. -/
def TextScheduler.start (library : γ) (caches : ω) : TextScheduler ρ F κ γ ω where
  library := library
  caches := caches

/-- The VLM scheduler at its start. -/
def VlmScheduler.start (library : γ) (caches : ω) : VlmScheduler ρ F κ ξ γ ω where
  library := library
  caches := caches

section Runs

variable [DecidableEq ρ] [DecidableEq F] (ctx : TextContext ρ F) (gen : TextGenerator γ F κ)
  (store : PromptCaches ω κ) (engine : VlmEngine γ' ρ F κ ξ ι) (vlmGen : VlmGenerator γ' F κ ξ)
  (vlmStore : VlmCaches ω' κ ξ) (config : V1Config)

/-- The requests that a run of the text scheduler submits. -/
def TextScheduler.submissions (library : γ) (caches : ω) (ops : List (TextScheduler.Op ρ F)) :
    List ρ :=
  Custody.submissions (TextScheduler.step ctx gen store config)
    (TextScheduler.submitted ctx gen store config) (.start library caches) ops

/-- The text scheduler after a run. -/
def TextScheduler.after (library : γ) (caches : ω) (ops : List (TextScheduler.Op ρ F)) :
    TextScheduler ρ F κ γ ω :=
  Run.exec (TextScheduler.step ctx gen store config) (.start library caches) ops

/-- The VLM scheduler after a run. -/
def VlmScheduler.after (library : γ') (caches : ω') (ops : List (VlmScheduler.Op ρ F)) :
    VlmScheduler ρ F κ ξ γ' ω' :=
  Run.exec (VlmScheduler.step engine vlmGen vlmStore config) (.start library caches) ops

variable {ctx gen store engine vlmGen vlmStore config}

omit [DecidableEq F] in
theorem TextScheduler.nodup_submissions {library : γ} {caches : ω}
    {ops : List (TextScheduler.Op ρ F)} (hids : (ops.filterMap TextScheduler.Op.named).Nodup) :
    (submissions ctx gen store config library caches ops).Nodup := by
  refine (submissions_sublist (fun s op x h => ?_) _ ops).nodup hids
  rw [submitted] at h
  split at h
  · exact h
  · cases h

omit [DecidableEq F] in
theorem TextScheduler.kept_after {issued : γ → ℕ → Prop} (hfresh : gen.FreshUids issued)
    {library : γ} {caches : ω} {ops : List (TextScheduler.Op ρ F)}
    (hids : (ops.filterMap TextScheduler.Op.named).Nodup) :
    Kept (submissions ctx gen store config library caches ops)
      (custody [] (after ctx gen store config library caches ops)) ∧
      Sane issued config (after ctx gen store config library caches ops) := by
  have hstart : Sane issued config (start (ρ := ρ) (F := F) (κ := κ) library caches) :=
    ⟨Nat.zero_le _, fun _ h => (nomatch h), fun _ => rfl⟩
  have hnodup : (submissions ctx gen store config library caches ops).Nodup :=
    nodup_submissions hids
  exact kept_exec (fun s op => effect_step hfresh op)
    hnodup hstart kept_empty

theorem VlmScheduler.kept_after {issued : γ' → ℕ → Prop}
    (hfresh : VlmFreshUids engine vlmGen issued) {library : γ'} {caches : ω'}
    {ops : List (VlmScheduler.Op ρ F)} (hids : (ops.filterMap VlmScheduler.Op.named).Nodup) :
    Kept (ops.filterMap VlmScheduler.Op.named)
      (custody [] [] (after engine vlmGen vlmStore config library caches ops)) ∧
      Sane issued config (after engine vlmGen vlmStore config library caches ops) := by
  have hstart : Sane issued config (start (ρ := ρ) (F := F) (κ := κ) (ξ := ξ) library caches) :=
    ⟨Nat.zero_le _, fun _ h => (nomatch h), fun _ h => (nomatch h), fun _ h => (nomatch h)⟩
  have hsubmissions : Custody.submissions (step engine vlmGen vlmStore config) (fun _ => Op.named)
      (start library caches) ops = ops.filterMap Op.named := submissions_eq_filterMap _ _ _
  rw [← hsubmissions] at hids ⊢
  exact kept_exec (fun s op => effect_step hfresh op) hids hstart kept_empty

/-- **Each request is delivered once.**  For any run of submissions with distinct ids,
cancellations and ticks, when `insert` returns fresh distinct uids. -/
theorem v1_delivers_once :
    (∀ (issued : γ → ℕ → Prop) (library : γ) (caches : ω) (ops : List (TextScheduler.Op ρ F)),
      gen.FreshUids issued → (ops.filterMap TextScheduler.Op.named).Nodup →
      let s := TextScheduler.after ctx gen store config library caches ops
      DeliversOnce (TextScheduler.submissions ctx gen store config library caches ops)
          (s.pending.map fun job => job.request.requestId) s.runningIds s.sink ∧
        s.active.keys.length ≤ config.decodeConcurrency) ∧
    ∀ (issued : γ' → ℕ → Prop) (library : γ') (caches : ω') (ops : List (VlmScheduler.Op ρ F)),
      VlmFreshUids engine vlmGen issued → (ops.filterMap VlmScheduler.Op.named).Nodup →
      let s := VlmScheduler.after engine vlmGen vlmStore config library caches ops
      DeliversOnce (ops.filterMap VlmScheduler.Op.named) (s.pending.map ChatRequest.requestId)
          s.runningIds s.sink ∧
        s.active.keys.length ≤ config.decodeConcurrency ∧
        ∀ job ∈ s.active.values, s.generator = some (job.request.temperature, job.request.topP) :=
  by
  constructor
  · intro issued library caches ops hfresh hids
    obtain ⟨hkept, hsane⟩ := TextScheduler.kept_after hfresh hids
    exact ⟨deliversOnce_of_kept (TextScheduler.nodup_submissions hids) hkept, hsane.bounded⟩
  · intro issued library caches ops hfresh hids
    obtain ⟨hkept, hsane⟩ := VlmScheduler.kept_after
      hfresh hids
    exact ⟨deliversOnce_of_kept hids hkept, hsane.bounded, hsane.sampled⟩

end Runs

/-! ## A run -/

/-- A generator that counts its uids, and ends what runs under the first. -/
def countingText : TextGenerator ℕ ℕ Unit where
  construct g := (.ok (), g)
  nextGenerated g := (.ok [⟨0, 5, none, none, none⟩, ⟨0, 2, some "stop", none, none⟩], g)
  insert inserts g := (.ok (List.range' g inserts.length), g + inserts.length)
  remove _ g := (.ok (), g)
  promptCacheNbytes _ := 0

/-- The same for the VLM. -/
def countingVlm : VlmGenerator ℕ ℕ Unit Unit where
  construct _ g := (.ok (), g)
  next g := (.ok ([], [⟨0, some 5, [], none, none, none, none, none, none⟩,
    ⟨0, none, [], some "stop", none, none, none, none, none⟩]), g)
  insert inserts g := (.ok (List.range' g inserts.length), g + inserts.length)
  remove _ g := (.ok (), g)
  promptCacheNbytes _ := 0

theorem countingText_freshUids : countingText.FreshUids fun g uid => uid < g where
  insert inserts g := by
    refine ⟨_, _, rfl, List.length_range', List.nodup_range', ?_, ?_, ?_⟩
    · exact fun uid h => Nat.not_lt.mpr (List.mem_range'_1.mp h).1
    · exact fun uid h => (List.mem_range'_1.mp h).2
    · exact fun uid h => Nat.lt_add_right _ h
  nextGenerated _ _ := id
  remove _ _ _ := id

/-- An engine for prompts of one token. -/
def plainEngine : VlmEngine ℕ ℕ ℕ Unit Unit Unit where
  modelId := "vlm"
  processorType := "Processor"
  chatTemplate := none
  adapterName := none
  tenantScope := none
  decode := none
  extractChatAndImage _ g := (.ok [], g)
  buildPromptStr _ _ g := (.ok "", g)
  buildPromptTokens _ g := (.ok [1], g)
  validateTokenLimits _ _ := .ok ()
  prepareInputs _ _ g := (.ok (), g)
  getInputEmbeddings _ g := (.ok (some ⟨(), none, none⟩), g)
  imageCacheKey _ _ := []
  imageApcHash _ _ := 0
  promptSignature _ _ := ""
  imageDimensions _ := (none, none)

theorem countingVlm_freshUids : VlmFreshUids plainEngine countingVlm fun g uid => uid < g where
  insert inserts g := by
    refine ⟨_, _, rfl, List.length_range', List.nodup_range', ?_, ?_, ?_⟩
    · exact fun uid h => Nat.not_lt.mpr (List.mem_range'_1.mp h).1
    · exact fun uid h => (List.mem_range'_1.mp h).2
    · exact fun uid h => Nat.lt_add_right _ h
  next _ _ := id
  remove _ _ _ := id
  extractChatAndImage _ _ _ := id
  buildPromptStr _ _ _ _ := id
  buildPromptTokens _ _ _ := id
  prepareInputs _ _ _ _ := id
  getInputEmbeddings _ _ _ := id

/-- A text model whose tokens have no text. -/
def plainContext : TextContext ℕ ℕ where
  modelId := "text"
  decode _ := .ok []
  buildPromptTokens _ := .ok [1]
  validateTokenLimits _ _ := .ok ()

/-- A store that keeps nothing. -/
def noCaches : PromptCaches Unit Unit where
  lookup _ w := (none, w)
  remember _ _ w := w
  trim _ _ := none
  entries _ := 0
  evictions _ := 0
  setActiveBatchBytes _ w := w

/-- The same for the VLM. -/
def noVlmCaches : VlmCaches Unit Unit Unit where
  lookup _ _ w := (none, w)
  remember _ _ _ w := w
  trim _ _ := none
  entries _ := 0
  evictions _ := 0
  visionGet _ _ w := (none, w)
  visionPut _ _ _ w := (0, w)
  visionEntries _ := 0
  visionEvictions _ := 0
  setActiveBatchBytes _ w := w
  apcManager := false

/-- A request. -/
def plainRequest (requestId : ℕ) (model : String) : ChatRequest ℕ ℕ where
  requestId := requestId
  model := model
  messages := []
  maxTokens := 4
  temperature := 0
  topP := 1
  maxPromptTokens := 8
  maxCompletionTokens := 8
  maxTotalTokensPerRequest := 16
  stop := []
  stream := true

theorem plain_delivers_once :
    (terminals (TextScheduler.after plainContext countingText noCaches {} 0 ()
      [.submit (plainRequest 7 "text") true, .tick, .tick]).sink).count 7 = 1 ∧
    (terminals (VlmScheduler.after plainEngine countingVlm noVlmCaches {} 0 ()
      [.submit (plainRequest 8 "vlm"), .tick fun _ _ => false, .tick fun _ _ => false]).sink).count
      8 = 1 :=
  have h := @v1_delivers_once _ _ _ _ _ _ _ _ _ _ _ plainContext countingText noCaches plainEngine
    countingVlm noVlmCaches {}
  ⟨(h.1 _ 0 () _ countingText_freshUids (by decide)).1.answered rfl rfl 7 (by decide),
    (h.2 _ 0 () _ countingVlm_freshUids (by decide)).1.answered rfl rfl 8 (by decide)⟩

end MlxRuntime
