import MlxRuntime.Runtime.Rendering
import MlxRuntime.V1.Delivery

/-!
# The text of a v1 request

The v1 text scheduler decodes all the tokens of a streamed request again after each of them, and
sends the increment.  Its response has the last decoded text.

## Main definitions

* `TextScheduler.toldFor` — what the sink is told when a request is given its tokens.
* `TextScheduler.decodedTexts` — the decoded text after each token.
-/

namespace MlxRuntime

open Increments Method

/-- The text of a delta. -/
def SinkEvent.deltaText {ρ : Type} : SinkEvent ρ → Text
  | .delta _ text => text
  | .response _ | .error _ _ _ => []

/-- The text of a response. -/
def SinkEvent.responseText? {ρ : Type} : SinkEvent ρ → Option Text
  | .response r => some r.text
  | .delta _ _ | .error _ _ _ => none

namespace TextScheduler

variable {ρ F κ γ ω : Type} (ctx : TextContext ρ F) (store : PromptCaches ω κ) (config : V1Config)

/-- What the sink is told on each response of the generator for a request, up to its last one. -/
def toldFor (uid : ℕ) : List (GenerationResponse κ) → TextScheduler ρ F κ γ ω →
    List (List (SinkEvent ρ))
  | [], _ => []
  | response :: responses, s =>
      let s' := ((acceptResponse ctx store config response).run s).2
      if response.uid = uid then
        s'.sink.drop s.sink.length ::
          if response.finishReason = none then toldFor uid responses s' else []
      else toldFor uid responses s'

/-- The decoded text after each of these responses; `done` are the tokens before. -/
def decodedTexts (decode : List Token → Text) (uid : ℕ) :
    List Token → Text → List (GenerationResponse κ) → List Text
  | _, _, [] => []
  | done, previous, response :: responses =>
      if response.uid = uid then
        if response.finishReason = some "stop" then [previous]
        else
          let text := decode (done ++ [response.token])
          text :: if response.finishReason = none then
              decodedTexts decode uid (done ++ [response.token]) text responses
            else []
      else decodedTexts decode uid done previous responses

variable {ctx store config} {decode : List Token → Text} {uid : ℕ}
  {job : ScheduledRequest ρ F κ} {s : TextScheduler ρ F κ γ ω} {response : GenerationResponse κ}
  {responses : List (GenerationResponse κ)}

/-! ## A response of the generator -/

/-- A request after a token. -/
def withToken (decode : List Token → Text) (token : Token) (job : ScheduledRequest ρ F κ) :
    ScheduledRequest ρ F κ :=
  { job with
    generatedTokens := job.generatedTokens ++ [token]
    renderedText := decode (job.generatedTokens ++ [token]) }

/-- The method lets the request alone, and does not raise. -/
def Spares (uid : ℕ) (m : Call ρ F κ γ ω Unit) : Prop :=
  ∀ s, m.wp (fun _ s' => s'.active.get? uid = s.active.get? uid)
    (fun _ s' => s'.active.get? uid = s.active.get? uid) s

theorem rememberPrompt_wp (job : ScheduledRequest ρ F κ) (promptCache : Option κ)
    (allTokens : Option (List Token)) {Q : Unit → TextScheduler ρ F κ γ ω → Prop}
    {E : PyError → TextScheduler ρ F κ γ ω → Prop} (h : ∀ caches, Q () { s with caches := caches }) :
    (rememberPrompt store job promptCache allTokens : Call ρ F κ γ ω Unit).wp Q E s := by
  unfold rememberPrompt
  split
  · exact h s.caches
  · dsimp only
    split
    · exact h s.caches
    · exact h _

/-- A token is decoded, and the increment is sent. -/
theorem appendToken_wp (hdecode : ∀ tokens, ctx.decode tokens = .ok (decode tokens)) (token : Token)
    {Q : Unit → TextScheduler ρ F κ γ ω → Prop} {E : PyError → TextScheduler ρ F κ γ ω → Prop}
    (h : ∀ events, (events.map SinkEvent.deltaText).flatten =
        (if job.stream then increment job.renderedText (decode (job.generatedTokens ++ [token]))
          else []) →
      events.filterMap SinkEvent.responseText? = [] →
      Q () { s with
        sink := s.sink ++ events
        active := (s.active.set uid
          { job with generatedTokens := job.generatedTokens ++ [token] }).set uid
          (withToken decode token job) }) :
    (appendToken ctx uid job token : Call ρ F κ γ ω Unit).wp Q E s := by
  rw [appendToken, wp_bind, putJob, wp_modify, emitDelta, wp_bind, hdecode, wp_ofExcept]
  refine ⟨fun text htext => ?_, fun e he => by cases he⟩
  obtain rfl := Except.ok.inj htext
  rw [wp_bind, wp_when]
  refine ⟨fun hsent => ?_, fun hsent => ?_⟩
  · refine h [.delta job.request.requestId _] ?_ rfl
    rw [if_pos hsent.1, List.map_singleton, List.flatten_singleton]
    rfl
  · have hnil := h [] ?_ rfl
    · rwa [List.append_nil] at hnil
    · by_cases hstream : job.stream = true
      · rw [if_pos hstream]
        have hempty : deltaOf job.renderedText (decode (job.generatedTokens ++ [token])) = [] := by
          by_contra hne
          exact hsent ⟨hstream, hne⟩
        exact hempty.symm
      · rw [if_neg hstream]
        rfl

variable (job) in
/-- The request of a response that is the last one is told its text, and leaves. -/
theorem finishActive_wp (hjob : s.active.get? response.uid = some job) (hstream : job.stream = true)
    (reason : String) {Q : Unit → TextScheduler ρ F κ γ ω → Prop}
    {E : PyError → TextScheduler ρ F κ γ ω → Prop}
    (h : ∀ caches r, r.text = job.renderedText → Q () { s with
      caches := caches
      sink := s.sink ++ [.response r]
      active := s.active.pop response.uid }) :
    (finishActive ctx store config response reason : Call ρ F κ γ ω Unit).wp Q E s := by
  rw [finishActive, wp_bind, wp_get, hjob]
  simp only [finish, wp_bind, if_pos hstream]
  rw [wp_ofExcept]
  refine ⟨fun text htext => ?_, fun e he => by cases he⟩
  obtain rfl := Except.ok.inj htext
  refine rememberPrompt_wp job _ _ fun caches => ?_
  exact h caches _ rfl

/-- The end of another request. -/
theorem finishActive_spares (hne : response.uid ≠ uid) (reason : String) : Spares uid
    (finishActive ctx store config response reason : Call ρ F κ γ ω Unit) := by
  intro s
  rw [finishActive, wp_bind, wp_get]
  split
  · rfl
  · simp only [finish, wp_bind]
    rw [wp_ofExcept]
    refine ⟨fun text _ => rememberPrompt_wp _ _ _ fun caches => ?_, fun e _ => rfl⟩
    show (s.active.pop response.uid).get? uid = _
    rw [Dict.get?_pop, if_neg hne.symm]

variable (store config) in
/-- A response for another request. -/
theorem acceptResponse_spares (hdecode : ∀ tokens, ctx.decode tokens = .ok (decode tokens))
    (hne : response.uid ≠ uid) : Spares uid
      (acceptResponse ctx store config response : Call ρ F κ γ ω Unit) := by
  intro s
  rw [acceptResponse, wp_bind, wp_get]
  cases hjob : s.active.get? response.uid with
  | none => rfl
  | some job =>
      have hset : ∀ (d : Dict ℕ (ScheduledRequest ρ F κ)) job,
          (d.set response.uid job).get? uid = d.get? uid := fun d job => by
        rw [Dict.get?_set, if_neg hne.symm]
      simp only [wp_bind, putJob, wp_modify]
      cases hreason : response.finishReason with
      | none =>
          refine wp_when.mpr ⟨fun _ => ?_, fun _ => hset _ _⟩
          refine appendToken_wp hdecode _ fun events _ _ => ?_
          show Dict.get? _ uid = _
          rw [hset, hset, hset]
      | some reason =>
          have hfinish : ∀ s₁ : TextScheduler ρ F κ γ ω,
              s₁.active.get? uid = s.active.get? uid →
              (finishActive ctx store config response reason : Call ρ F κ γ ω Unit).wp
                (fun _ s' => s'.active.get? uid = s.active.get? uid)
                (fun _ s' => s'.active.get? uid = s.active.get? uid) s₁ := by
            intro s₁ hs₁
            exact (finishActive_spares hne reason s₁).mono (fun _ _ h => h.trans hs₁)
              fun _ _ h => h.trans hs₁
          refine wp_when.mpr ⟨fun _ => ?_, fun _ => hfinish _ (hset _ _)⟩
          refine appendToken_wp hdecode _ fun events _ _ => hfinish _ ?_
          show Dict.get? _ uid = _
          rw [hset, hset, hset]

variable (store config) in
/-- What a response for the request does. -/
theorem acceptResponse_wp (hdecode : ∀ tokens, ctx.decode tokens = .ok (decode tokens))
    (hjob : s.active.get? response.uid = some job) (hstream : job.stream = true) :
    (acceptResponse ctx store config response : Call ρ F κ γ ω Unit).wp
      (fun _ s' => ∃ events job', s'.sink = s.sink ++ events ∧
        job'.stream = true ∧
        (response.finishReason = none → s'.active.get? response.uid = some job' ∧
          events.filterMap SinkEvent.responseText? = []) ∧
        (if response.finishReason = some "stop" then
          job'.renderedText = job.renderedText
        else
          job'.generatedTokens = job.generatedTokens ++ [response.token] ∧
          job'.renderedText = decode (job.generatedTokens ++ [response.token])) ∧
        (events.map SinkEvent.deltaText).flatten =
          increment job.renderedText job'.renderedText ∧
        ∀ text ∈ events.filterMap SinkEvent.responseText?, text = job'.renderedText)
      (fun _ _ => False) s := by
  rw [acceptResponse, wp_bind, wp_get, hjob]
  simp only [wp_bind, putJob, wp_modify]
  refine wp_when.mpr ⟨fun hstop => ?_, fun hstop => ?_⟩
  · have hrendered : (ScheduledRequest.decoding job s.active.keys.length).stream = true := hstream
    refine appendToken_wp hdecode _ fun events hsent hnone => ?_
    rw [if_pos hrendered] at hsent
    cases hreason : response.finishReason with
    | none =>
        refine ⟨events, withToken decode response.token
          (ScheduledRequest.decoding job s.active.keys.length), rfl, hrendered,
          fun _ => ⟨Dict.get?_set_self _ _, hnone⟩, ?_, hsent, ?_⟩
        · rw [if_neg (by simp)]
          exact ⟨rfl, rfl⟩
        · rw [hnone]
          intro text htext
          cases htext
    | some reason =>
        refine finishActive_wp (withToken decode response.token
          (ScheduledRequest.decoding job s.active.keys.length)) (Dict.get?_set_self _ _) hrendered
          reason fun caches r hr => ?_
        refine ⟨events ++ [.response r], withToken decode response.token
          (ScheduledRequest.decoding job s.active.keys.length), List.append_assoc _ _ _, hrendered,
          fun h => (Option.some_ne_none _ h).elim, ?_, ?_, ?_⟩
        · rw [if_neg (hreason ▸ hstop)]
          exact ⟨rfl, rfl⟩
        · rw [List.map_append, List.flatten_append, hsent]
          exact List.append_nil _
        · rw [List.filterMap_append, hnone]
          intro text htext
          exact (List.mem_singleton.mp htext).trans hr
  · have hreason : response.finishReason = some "stop" := not_not.mp hstop
    rw [hreason]
    refine finishActive_wp (ScheduledRequest.decoding job s.active.keys.length)
      (Dict.get?_set_self _ _) hstream "stop" fun caches r hr => ?_
    refine ⟨[.response r], ScheduledRequest.decoding job s.active.keys.length, rfl, hstream,
      fun h => (Option.some_ne_none _ h).elim, ?_, ?_, ?_⟩
    · rw [if_pos rfl]
      rfl
    · have hsame : increment job.renderedText job.renderedText = [] := by
        rw [increment, if_pos List.prefix_rfl, List.drop_length]
      exact hsame.symm
    · intro text htext
      exact (List.mem_singleton.mp htext).trans hr

/-! ## The responses for a request -/

variable (store config responses) in
/-- **What is sent** for each token is the increment of the decoded text, and the response has the
last one. -/
theorem toldFor_eq (hdecode : ∀ tokens, ctx.decode tokens = .ok (decode tokens))
    (hjob : s.active.get? uid = some job) (hstream : job.stream = true) :
    (toldFor ctx store config uid responses s).map
        (fun events => (events.map SinkEvent.deltaText).flatten) =
      increments job.renderedText
        (decodedTexts decode uid job.generatedTokens job.renderedText responses) ∧
    ∀ text ∈ (toldFor ctx store config uid responses s).flatten.filterMap SinkEvent.responseText?,
      text = (decodedTexts decode uid job.generatedTokens job.renderedText responses).getLastD
        job.renderedText := by
  induction responses generalizing s job with
  | nil => exact ⟨rfl, fun text htext => by cases htext⟩
  | cons response responses ih =>
      rw [toldFor, decodedTexts]
      by_cases huid : response.uid = uid
      · subst huid
        rw [if_pos rfl, if_pos rfl]
        have hwp := acceptResponse_wp store config hdecode hjob hstream
        obtain ⟨events, job', hsink, hstream', hactive, hrendered, hsent, htexts⟩ :=
          Method.wp.after (hwp.mono (fun _ _ => id) fun _ _ => False.elim)
        generalize ((acceptResponse ctx store config response).run s).2 = s' at hsink hactive ⊢
        have htold : s'.sink.drop s.sink.length = events := by
          rw [hsink, List.drop_left]
        rw [htold]
        by_cases hstop : response.finishReason = some "stop"
        · rw [if_pos hstop] at hrendered ⊢
          rw [hrendered] at hsent htexts
          rw [if_neg (by simp [hstop])]
          refine ⟨congrArg (· :: []) hsent, ?_⟩
          simpa using htexts
        · rw [if_neg hstop] at hrendered ⊢
          obtain ⟨hgenerated, hrendered⟩ := hrendered
          rw [hrendered] at hsent htexts
          dsimp only
          by_cases hmore : response.finishReason = none
          · obtain ⟨hjob', hnone⟩ := hactive hmore
            obtain ⟨hrest, hresttexts⟩ := ih hjob' hstream'
            rw [hgenerated, hrendered] at hrest hresttexts
            rw [if_pos hmore, if_pos hmore]
            refine ⟨congrArg₂ List.cons hsent hrest, ?_⟩
            rw [List.flatten_cons, List.filterMap_append, hnone, List.nil_append,
              List.getLastD_cons]
            exact hresttexts
          · rw [if_neg hmore, if_neg hmore]
            refine ⟨congrArg (· :: []) hsent, ?_⟩
            simpa using htexts
      · rw [if_neg huid, if_neg huid]
        have hspares := Method.wp.after (acceptResponse_spares store config
          hdecode huid s)
        exact ih (hspares.trans hjob) hstream

variable (ctx store config) in
/-- What is sent for each of the tokens of a request. -/
def sentTexts (uid : ℕ) (responses : List (GenerationResponse κ)) (s : TextScheduler ρ F κ γ ω) :
    List Text :=
  (toldFor ctx store config uid responses s).map fun events =>
    (events.map SinkEvent.deltaText).flatten

variable (ctx store config) in
/-- The texts of the responses to a request. -/
def responseTexts (uid : ℕ) (responses : List (GenerationResponse κ))
    (s : TextScheduler ρ F κ γ ω) : List Text :=
  (toldFor ctx store config uid responses s).flatten.filterMap SinkEvent.responseText?

variable (store config responses) in
/-- The text of a v1 request is sent once just when no decoded text rewrites an earlier one that
has its first character. -/
theorem rendersFaithfully_iff (hdecode : ∀ tokens, ctx.decode tokens = .ok (decode tokens))
    (hjob : s.active.get? uid = some job) (hstream : job.stream = true)
    (hgenerated : job.generatedTokens = []) (hrendered : job.renderedText = []) :
    RendersFaithfully (decodedTexts decode uid [] [] responses)
        (sentTexts ctx store config uid responses s)
        (responseTexts ctx store config uid responses s) ↔
      Renews [[]] [] (decodedTexts decode uid [] [] responses) := by
  obtain ⟨hsent, htexts⟩ := toldFor_eq store config responses
    hdecode hjob hstream
  rw [hgenerated, hrendered] at hsent htexts
  have hsent : sentTexts ctx store config uid responses s =
    increments [] (decodedTexts decode uid [] [] responses) := hsent
  have hsettled : Settled [[]] ([] : Text) := by
    intro e he
    exact .inr (.inl (List.mem_singleton.mp he))
  constructor
  · intro hfaithful
    exact (sendsOnce_increments_iff hsettled).mp (hsent ▸ hfaithful.sendsOnce)
  · intro hrenews
    refine ⟨hsent ▸ (sendsOnce_increments_iff hsettled).mpr hrenews, fun hgrows => ⟨?_, htexts⟩⟩
    exact (congrArg List.flatten hsent).trans hgrows.flatten

end TextScheduler

/-! ## The two copies -/

/-- **Incremental decoding** in the native runtime and in the v1 scheduler: nothing is sent twice
just when every decoded text starts with the one before it or with a new character. -/
theorem incremental_decoding_iff {ρ δ F κ γ ω : Type} :
    (∀ (svc : TextServices δ) (request : TextRequest ρ) (counters : RuntimeCounters)
      (prompt tokens : List Token), svc.newDetokenizer = none → request.stream = true →
      request.stop = [] →
      (RendersFaithfully (NativeRuntimeState.decodedTexts svc request.maxTokens [] [] tokens)
          (NativeRuntimeState.sentTexts svc counters tokens (.ofRequest svc request prompt))
          (NativeRuntimeState.responseTexts svc counters tokens (.ofRequest svc request prompt)) ↔
        Renews [[]] [] (NativeRuntimeState.decodedTexts svc request.maxTokens [] [] tokens))) ∧
    ∀ (ctx : TextContext ρ F) (store : PromptCaches ω κ) (config : V1Config)
      (decode : List Token → Text) (s : TextScheduler ρ F κ γ ω) (uid : ℕ)
      (job : ScheduledRequest ρ F κ) (responses : List (GenerationResponse κ)),
      (∀ tokens, ctx.decode tokens = .ok (decode tokens)) → s.active.get? uid = some job →
      job.stream = true → job.generatedTokens = [] → job.renderedText = [] →
      (RendersFaithfully (TextScheduler.decodedTexts decode uid [] [] responses)
          (TextScheduler.sentTexts ctx store config uid responses s)
          (TextScheduler.responseTexts ctx store config uid responses s) ↔
        Renews [[]] [] (TextScheduler.decodedTexts decode uid [] [] responses)) := by
  constructor
  · intro svc request counters prompt tokens hnone hstream hstop
    exact NativeRuntimeState.rendersFaithfully_iff svc request hnone hstream hstop counters prompt tokens
  · intro ctx store config decode s uid job responses hdecode hjob hstream hgenerated hrendered
    exact TextScheduler.rendersFaithfully_iff store config responses hdecode hjob hstream hgenerated
      hrendered

/-- A tokenizer for which the second token completes the character that the first one starts. -/
def splitCharacter (tokens : List Token) : Text :=
  if tokens = [1] then ['a', '?'] else if tokens = [1, 2] then ['a', 'é'] else ['a']

/-- It has no streaming detokenizer. -/
def splitTokenizer : TextServices Unit where
  eosTokenIds := [0]
  newDetokenizer := none
  detokenizer := { addToken := fun _ _ => ([], ()), finalize := fun _ => [] }
  decode := splitCharacter

/-- A request for two tokens. -/
def twoTokens : TextRequest ℕ := { requestId := 1, stop := [], maxTokens := 2, stream := true }

/-- A request to the v1 scheduler. -/
def twoTokensJob : ScheduledRequest ℕ ℕ Unit where
  request := plainRequest 1 "text"
  stream := true
  promptTokens := [1]
  cachedPrompt := none

/-- The v1 scheduler with this request. -/
def twoTokensScheduler : TextScheduler ℕ ℕ Unit Unit Unit where
  active := Dict.empty.set 7 twoTokensJob
  library := ()
  caches := ()

/-- Its model. -/
def splitContext : TextContext ℕ ℕ :=
  { plainContext with decode := fun tokens => .ok (splitCharacter tokens) }

/-- The responses of a generator for some tokens; the last one is the end. -/
def generated : List Token → List (GenerationResponse Unit)
  | [] => []
  | [token] => [⟨7, token, some "length", none, none⟩]
  | token :: tokens => ⟨7, token, none, none, none⟩ :: generated tokens

theorem incremental_decoding_growing :
    RendersFaithfully (NativeRuntimeState.decodedTexts splitTokenizer 2 [] [] [3, 4])
        (NativeRuntimeState.sentTexts splitTokenizer {} [3, 4]
          (.ofRequest splitTokenizer twoTokens []))
        (NativeRuntimeState.responseTexts splitTokenizer {} [3, 4]
          (.ofRequest splitTokenizer twoTokens [])) ∧
      RendersFaithfully (TextScheduler.decodedTexts splitCharacter 7 [] [] (generated [3, 4]))
        (TextScheduler.sentTexts splitContext noCaches {} 7 (generated [3, 4]) twoTokensScheduler)
        (TextScheduler.responseTexts splitContext noCaches {} 7 (generated [3, 4])
          twoTokensScheduler) := by
  obtain ⟨hnative, hv1⟩ := @incremental_decoding_iff ℕ Unit ℕ Unit Unit Unit
  refine ⟨?_, ?_⟩
  · exact (hnative splitTokenizer twoTokens {} [] [3, 4] rfl rfl rfl).mpr (by decide)
  · exact (hv1 splitContext noCaches {} splitCharacter twoTokensScheduler 7 twoTokensJob
      (generated [3, 4]) (fun _ => rfl) rfl rfl rfl rfl).mpr (by decide)

/-- A character that is completed by the second token: the text before it is sent twice. -/
theorem split_character_sent_twice :
    (NativeRuntimeState.sentTexts splitTokenizer {} [1, 2] (.ofRequest splitTokenizer twoTokens [])
        = [['a', '?'], ['a', 'é']] ∧
      ¬ RendersFaithfully (NativeRuntimeState.decodedTexts splitTokenizer 2 [] [] [1, 2])
        (NativeRuntimeState.sentTexts splitTokenizer {} [1, 2]
          (.ofRequest splitTokenizer twoTokens []))
        (NativeRuntimeState.responseTexts splitTokenizer {} [1, 2]
          (.ofRequest splitTokenizer twoTokens []))) ∧
    TextScheduler.sentTexts splitContext noCaches {} 7 (generated [1, 2]) twoTokensScheduler
        = [['a', '?'], ['a', 'é']] ∧
      ¬ RendersFaithfully (TextScheduler.decodedTexts splitCharacter 7 [] [] (generated [1, 2]))
        (TextScheduler.sentTexts splitContext noCaches {} 7 (generated [1, 2]) twoTokensScheduler)
        (TextScheduler.responseTexts splitContext noCaches {} 7 (generated [1, 2])
          twoTokensScheduler) := by
  refine ⟨⟨by decide, fun h => ?_⟩, by decide, fun h => ?_⟩
  · have hrenews := (NativeRuntimeState.rendersFaithfully_iff splitTokenizer twoTokens rfl rfl rfl
      {} [] [1, 2]).mp h
    exact absurd hrenews (by decide)
  · have hdecode : ∀ tokens, splitContext.decode tokens = .ok (splitCharacter tokens) := fun _ => rfl
    have hjob : twoTokensScheduler.active.get? 7 = some twoTokensJob := rfl
    have hrenews := (TextScheduler.rendersFaithfully_iff noCaches {} _ hdecode hjob rfl rfl
      rfl).mp h
    exact absurd hrenews (by decide)

end MlxRuntime
