import MlxRuntime.Runtime.Native

/-!
# Streamed text

A request that is streamed gets its text in deltas: one for a token, one for what the
detokenizer still has, and one for what was held back for a stop sequence.  The response has the
text of the stop sequences' state instead.  The two agree because every chunk that leaves that
state is sent at once.

## Main definitions

* `RequestInput`, `NativeRuntimeState.receiveAll` — what happens to a request, up to its end.
* `streamedText` — the text of its deltas.
* `NativeRuntimeState.muted` — a request that is not streamed.
-/

namespace MlxRuntime

/-- What happens to a request: an event of a tick, with the counters that the runtime has then,
or a call of `cancel`. -/
inductive RequestInput (ρ : Type)
  | event (counters : RuntimeCounters) (event : SchedulerEvent ρ)
  | cancel (prefillTimeMs : ℕ)

/-- The text of the deltas. -/
def streamedText {ρ : Type} (events : List (RuntimeEvent ρ)) : Text :=
  events.flatMap fun
    | .text (.delta _ delta) => delta
    | _ => []

/-- The event is no delta. -/
def RuntimeEvent.isKept {ρ : Type} : RuntimeEvent ρ → Bool
  | .text (.delta _ _) => false
  | _ => true

namespace NativeRuntimeState

variable {ρ δ : Type} (svc : TextServices δ)

/-- What happens to a request, once. -/
def receive (input : RequestInput ρ) (st : NativeRuntimeState ρ δ) :
    List (RuntimeEvent ρ) × Option (NativeRuntimeState ρ δ) :=
  match input with
  | .event counters event =>
      let (events, st, _) := st.applyEvent svc counters event
      (events, st)
  | .cancel prefillTimeMs => ([], some (st.markCancelled prefillTimeMs))

/-- What happens to a request, up to its end. -/
def receiveAll : List (RequestInput ρ) → NativeRuntimeState ρ δ → List (RuntimeEvent ρ)
  | [], _ => []
  | input :: inputs, st =>
      match st.receive svc input with
      | (events, none) => events
      | (events, some st) => events ++ receiveAll inputs st

variable {svc} {st : NativeRuntimeState ρ δ} {reason : FinishReason} {counters : RuntimeCounters}

/-! ## Every chunk is sent -/

@[simp] theorem streamedText_nil : streamedText ([] : List (RuntimeEvent ρ)) = [] := rfl

@[simp] theorem streamedText_append (events more : List (RuntimeEvent ρ)) :
    streamedText (events ++ more) = streamedText events ++ streamedText more :=
  List.flatMap_append

@[simp] theorem streamedText_map (events : List (TextEvent ρ)) :
    streamedText (events.map .text) = deltaText events := by
  rw [streamedText, deltaText, List.flatMap_map]
  congr 1
  funext event
  cases event <;> rfl

theorem emitted_push (text : Text) (a : StopTextAssembler Char) :
    (a.push text).2.emitted = a.emitted ++ (a.push text).1.1 :=
  congrArg (fun pushed => pushed.2.emitted) (StopTextAssembler.push_emitted text a.emitted a)

/-- The end of a request sends what is left, unless it was cancelled. -/
theorem finish_delivers (counters : RuntimeCounters) (reason : FinishReason)
    (st : NativeRuntimeState ρ δ) :
    ∃ (chunks : List Text) (text : Text), st.finish svc counters reason =
        chunks.flatMap st.deltas ++ [.response (st.response counters reason text)] ∧
      if reason = .cancelled then chunks.flatten = [] ∧ text = st.stop.emitted ++ st.stop.pending
      else text = st.stop.emitted ++ chunks.flatten := by
  by_cases hreason : reason = .cancelled
  · subst hreason
    refine ⟨[[], []], st.stop.text, ?_, ?_⟩
    · cases hdetokenizer : st.detokenizer <;> simp [finish, flush, hdetokenizer]
    · rw [if_pos rfl]
      exact ⟨rfl, rfl⟩
  · have hflush : ∃ flushed stop, st.flush svc reason = (flushed, stop) ∧
        stop.emitted = st.stop.emitted ++ flushed := by
      rw [flush]
      split
      · dsimp only
        split
        · exact ⟨_, _, rfl, emitted_push _ _⟩
        · exact ⟨_, _, rfl, (List.append_nil _).symm⟩
      · exact ⟨_, _, rfl, (List.append_nil _).symm⟩
    obtain ⟨flushed, stop, hflush, hemitted⟩ := hflush
    refine ⟨[flushed, stop.pending], stop.emitted ++ stop.pending, ?_, ?_⟩
    · simp [finish, hflush, hreason, StopTextAssembler.finish, StopTextAssembler.text]
    · rw [if_neg hreason, hemitted]
      simp

/-- What a token does: it sends a chunk, and the request goes on or ends. -/
theorem acceptToken_delivers (counters : RuntimeCounters) (token : Token)
    (st : NativeRuntimeState ρ δ) :
    ∃ st₁ chunk, st₁.request = st.request ∧ st₁.stop.emitted = st.stop.emitted ++ chunk ∧
      (st.acceptToken svc counters token = (st₁.deltas chunk, some st₁) ∨
        ∃ reason, reason ≠ .cancelled ∧ st.acceptToken svc counters token =
          (st₁.deltas chunk ++ st₁.finish svc counters reason, none)) := by
  rw [acceptToken]
  split
  · -- an end-of-sequence token has no text
    refine ⟨{ st with completionTokenIds := st.completionTokenIds ++ [token] }, [], rfl,
      (List.append_nil _).symm, .inr ⟨.stop, by decide, ?_⟩⟩
    rw [deltas]
    rfl
  · generalize hst : { st with completionTokenIds := st.completionTokenIds ++ [token] } = st₀
    generalize hsegment : detokenize svc token st₀ = segment
    obtain ⟨delta, st₁⟩ := segment
    have hsame : st₁.request = st.request ∧ st₁.stop = st.stop := by
      rw [detokenize, ← hst] at hsegment
      split at hsegment
      · obtain ⟨-, rfl⟩ := Prod.mk.inj hsegment
        exact ⟨rfl, rfl⟩
      · obtain ⟨-, rfl⟩ := Prod.mk.inj hsegment
        exact ⟨rfl, rfl⟩
    generalize hpush : st₁.stop.push delta = pushed
    obtain ⟨⟨emitted, hit⟩, stop⟩ := pushed
    have hemitted := emitted_push delta st₁.stop
    rw [hpush, hsame.2] at hemitted
    refine ⟨{ st₁ with stop := stop }, emitted, hsame.1, hemitted, ?_⟩
    dsimp only
    rw [hpush]
    dsimp only
    split
    · exact .inr ⟨.stop, by decide, rfl⟩
    · split
      · exact .inr ⟨.length, by decide, rfl⟩
      · exact .inl rfl

/-- The text that a request has sent before is followed by these events. -/
structure Streams (st : NativeRuntimeState ρ δ) (events : List (RuntimeEvent ρ)) : Prop where
  natural : ∀ r, .text (.response r) ∈ events → r.finishReason ≠ .cancelled →
    st.stop.emitted ++ streamedText events = r.text
  cancelled : ∀ r, .text (.response r) ∈ events → r.finishReason = .cancelled →
    st.stop.emitted ++ streamedText events <+: r.text

theorem deltaText_flatMap (hstream : st.request.stream = true) (chunks : List Text) :
    deltaText (chunks.flatMap st.deltas) = chunks.flatten := by
  induction chunks with
  | nil => rfl
  | cons chunk chunks ih =>
      rw [List.flatMap_cons, deltaText_append, deltaText_deltas, if_pos hstream, ih,
        List.flatten_cons]

theorem not_response_flatMap {chunks : List Text} {r : TextResponse ρ} :
    TextEvent.response r ∉ chunks.flatMap st.deltas := by
  rw [List.mem_flatMap]
  rintro ⟨chunk, -, hmem⟩
  exact not_response_deltas hmem

variable (svc reason counters) in
/-- The response of a request has what was sent before and what is sent at its end. -/
theorem streams_finish (hstream : st.request.stream = true) :
    st.Streams ((st.finish svc counters reason).map .text) := by
  obtain ⟨chunks, text, hfinish, htext⟩ := finish_delivers counters reason st
  have hresponse : ∀ r, RuntimeEvent.text (.response r) ∈
      (st.finish svc counters reason).map RuntimeEvent.text →
      r = st.response counters reason text := by
    intro r hmem
    obtain ⟨event, hevent, heq⟩ := List.mem_map.mp hmem
    obtain rfl := RuntimeEvent.text.inj heq
    rw [hfinish] at hevent
    have hlast := (List.mem_append.mp hevent).resolve_left not_response_flatMap
    exact TextEvent.response.inj (List.mem_singleton.mp hlast)
  have hsent : deltaText (st.finish svc counters reason) = chunks.flatten := by
    rw [hfinish, deltaText_append, deltaText_flatMap hstream]
    exact List.append_nil _
  constructor
  · rintro r hr hnatural
    obtain rfl := hresponse r hr
    rw [if_neg (show reason ≠ .cancelled from hnatural)] at htext
    rw [streamedText_map, hsent]
    exact htext.symm
  · rintro r hr hcancelled
    obtain rfl := hresponse r hr
    rw [if_pos (show reason = FinishReason.cancelled from hcancelled)] at htext
    obtain ⟨hnil, rfl⟩ := htext
    rw [streamedText_map, hsent, hnil, List.append_nil]
    exact List.prefix_append _ _

/-- A chunk before the other events. -/
theorem Streams.cons {st₁ : NativeRuntimeState ρ δ} {chunk : Text}
    {events : List (RuntimeEvent ρ)} (h : st₁.Streams events)
    (hstream : st₁.request.stream = true) (hemitted : st₁.stop.emitted = st.stop.emitted ++ chunk) :
    st.Streams ((st₁.deltas chunk).map .text ++ events) := by
  have hsent : st.stop.emitted ++ streamedText ((st₁.deltas chunk).map .text ++ events) =
      st₁.stop.emitted ++ streamedText events := by
    rw [streamedText_append, streamedText_map, deltaText_deltas, if_pos hstream, hemitted,
      List.append_assoc]
  have hresponse : ∀ r, RuntimeEvent.text (.response r) ∈
      (st₁.deltas chunk).map RuntimeEvent.text ++ events → .text (.response r) ∈ events := by
    intro r hmem
    rcases List.mem_append.mp hmem with hmem | hmem
    · obtain ⟨event, hevent, heq⟩ := List.mem_map.mp hmem
      obtain rfl := RuntimeEvent.text.inj heq
      exact absurd hevent not_response_deltas
    · exact hmem
  constructor
  · intro r hr hnatural
    rw [hsent]
    exact h.natural r (hresponse r hr) hnatural
  · intro r hr hcancelled
    rw [hsent]
    exact h.cancelled r (hresponse r hr) hcancelled

/-- Events without a response. -/
theorem streams_of_not_response {events : List (RuntimeEvent ρ)}
    (h : ∀ r, .text (.response r) ∉ events) : st.Streams events :=
  ⟨fun r hr => absurd hr (h r), fun r hr => absurd hr (h r)⟩

/-- What happens to a request once, before what happens to it later. -/
theorem streams_receive (hstream : st.request.stream = true) (input : RequestInput ρ)
    (rest : NativeRuntimeState ρ δ → List (RuntimeEvent ρ))
    (hrest : ∀ st₁ : NativeRuntimeState ρ δ, st₁.request.stream = true → st₁.Streams (rest st₁)) :
    st.Streams (match st.receive svc input with
      | (events, none) => events
      | (events, some st) => events ++ rest st) := by
  have hsame : ∀ st₁ : NativeRuntimeState ρ δ, st₁.request = st.request → st₁.stop = st.stop →
      st.Streams (rest st₁) := by
    intro st₁ hrequest hstop
    have h := hrest st₁ (hrequest ▸ hstream)
    constructor
    · intro r hr hnatural
      rw [← hstop]
      exact h.natural r hr hnatural
    · intro r hr hcancelled
      rw [← hstop]
      exact h.cancelled r hr hcancelled
  have hfail : ∀ code message, st.Streams (st.fail code message) := fun code message =>
    streams_of_not_response fun r hr => by
      cases List.mem_singleton.mp hr
  cases input with
  | cancel prefillTimeMs => exact hsame _ rfl rfl
  | event counters event =>
      cases event with
      | prefillProgress => exact hsame _ rfl rfl
      | metrics => exact hsame _ rfl rfl
      | executionError => exact hfail _ _
      | cancelled id stage =>
          have hstream₁ : { st with cancellationStage := some stage.text }.request.stream = true :=
            hstream
          have h := streams_finish svc .cancelled
            { counters with cancellationCount := counters.cancellationCount + 1 } hstream₁
          exact ⟨h.natural, h.cancelled⟩
      | token id token cacheLength phase batchSize =>
          cases token with
          | none => exact hfail _ _
          | some token =>
              rw [receive, applyEvent]
              dsimp only
              obtain ⟨st₁, chunk, hrequest, hemitted, haccept | ⟨reason, -, haccept⟩⟩ :=
                acceptToken_delivers counters token
                  { st with decodeBatchSize := batchSize <|> st.decodeBatchSize }
              · rw [haccept]
                exact (hrest st₁ (hrequest ▸ hstream)).cons (hrequest ▸ hstream) hemitted
              · rw [haccept]
                dsimp only
                rw [List.map_append]
                exact (streams_finish svc reason counters (hrequest ▸ hstream)).cons (hrequest ▸ hstream) hemitted

variable (svc) in
theorem streams_receiveAll (inputs : List (RequestInput ρ)) (hstream : st.request.stream = true) :
    st.Streams (receiveAll svc inputs st) := by
  induction inputs generalizing st with
  | nil => exact streams_of_not_response fun r => List.not_mem_nil
  | cons input inputs ih => exact streams_receive hstream input (receiveAll svc inputs) fun _ => ih

/-! ## The same request, not streamed -/

/-- The request, not streamed. -/
def muted (st : NativeRuntimeState ρ δ) : NativeRuntimeState ρ δ :=
  { st with request := { st.request with stream := false } }

theorem filter_deltas (emitted : Text) :
    ((st.deltas emitted).map RuntimeEvent.text).filter RuntimeEvent.isKept = [] := by
  rw [deltas]
  split <;> rfl

theorem deltas_muted (emitted : Text) : st.muted.deltas emitted = [] := by
  rw [deltas]
  simp [muted]

theorem finish_muted (counters : RuntimeCounters) (reason : FinishReason)
    (st : NativeRuntimeState ρ δ) :
    (st.muted.finish svc counters reason).map RuntimeEvent.text =
      ((st.finish svc counters reason).map RuntimeEvent.text).filter RuntimeEvent.isKept := by
  have hflush : st.muted.flush svc reason = st.flush svc reason := rfl
  rw [finish, finish, hflush]
  simp only [deltas_muted, List.map_append, List.filter_append, filter_deltas]
  rfl

theorem detokenize_muted (token : Token) (st : NativeRuntimeState ρ δ) :
    st.muted.detokenize svc token =
      ((st.detokenize svc token).1, (st.detokenize svc token).2.muted) := by
  rw [detokenize, detokenize, show st.muted.detokenizer = st.detokenizer from rfl]
  cases st.detokenizer <;> rfl

theorem acceptToken_muted (counters : RuntimeCounters) (token : Token)
    (st : NativeRuntimeState ρ δ) :
    ((st.muted.acceptToken svc counters token).1.map RuntimeEvent.text,
        (st.muted.acceptToken svc counters token).2) =
      (((st.acceptToken svc counters token).1.map RuntimeEvent.text).filter RuntimeEvent.isKept,
        (st.acceptToken svc counters token).2.map muted) := by
  have hcounted : { st.muted with completionTokenIds := st.muted.completionTokenIds ++ [token] } =
    muted { st with completionTokenIds := st.completionTokenIds ++ [token] } := rfl
  rw [acceptToken, acceptToken, hcounted]
  generalize { st with completionTokenIds := st.completionTokenIds ++ [token] } = st₀
  by_cases heos : token ∈ svc.eosTokenIds
  · simp only [if_pos heos, finish_muted, Option.map_none]
  · simp only [if_neg heos, detokenize_muted]
    generalize st₀.detokenize svc token = segment
    obtain ⟨delta, st₁⟩ := segment
    dsimp only
    rw [show st₁.muted.stop = st₁.stop from rfl]
    generalize st₁.stop.push delta = pushed
    obtain ⟨⟨emitted, hit⟩, stop⟩ := pushed
    dsimp only
    have hstop : { st₁.muted with stop := stop } = muted { st₁ with stop := stop } := rfl
    rw [hstop, show st₁.muted.request.maxTokens = st₁.request.maxTokens from rfl,
      show st₁.muted.completionTokenIds = st₁.completionTokenIds from rfl]
    by_cases hhit : hit = true
    · simp only [if_pos hhit, deltas_muted, List.map_append, List.filter_append, filter_deltas,
        finish_muted, Option.map_none, List.map_nil]
    · by_cases hmax : st₁.request.maxTokens ≤ st₁.completionTokenIds.length
      · simp only [if_neg hhit, if_pos hmax, deltas_muted, List.map_append, List.filter_append,
          filter_deltas, finish_muted, Option.map_none, List.map_nil]
      · simp only [if_neg hhit, if_neg hmax, deltas_muted, filter_deltas, Option.map_some,
          List.map_nil]

/-- What happens to the request that is not streamed is the same, without the deltas. -/
theorem receive_muted (input : RequestInput ρ) (st : NativeRuntimeState ρ δ) :
    st.muted.receive svc input = ((st.receive svc input).1.filter RuntimeEvent.isKept,
      (st.receive svc input).2.map muted) := by
  cases input with
  | cancel prefillTimeMs => rfl
  | event counters event =>
      cases event with
      | prefillProgress => rfl
      | metrics => rfl
      | executionError => rfl
      | cancelled id stage =>
          exact Prod.ext (finish_muted _ _ { st with cancellationStage := some stage.text }) rfl
      | token id token cacheLength phase batchSize =>
          cases token with
          | none => rfl
          | some token =>
              exact acceptToken_muted counters token
                { st with decodeBatchSize := batchSize <|> st.decodeBatchSize }

variable (svc) in
theorem receiveAll_muted (inputs : List (RequestInput ρ)) (st : NativeRuntimeState ρ δ) :
    receiveAll svc inputs st.muted = (receiveAll svc inputs st).filter RuntimeEvent.isKept := by
  induction inputs generalizing st with
  | nil => rfl
  | cons input inputs ih =>
      rw [receiveAll, receiveAll, receive_muted]
      generalize st.receive svc input = received
      obtain ⟨events, _ | st₁⟩ := received
      · rfl
      · dsimp only [Option.map_some]
        rw [ih, List.filter_append]

/-- **Streaming agrees with the response**: the deltas of a streamed request have the text of
its response, or a first part of it when the request was cancelled; not streamed, it gets the
same response and no deltas. -/
theorem streaming_agrees (svc : TextServices δ) (request : TextRequest ρ) (prompt : List Token)
    (inputs : List (RequestInput ρ)) :
    let output (stream : Bool) := receiveAll svc inputs
      (ofRequest svc { request with stream := stream } prompt)
    (∀ r, .text (.response r) ∈ output true →
      if r.finishReason = .cancelled then streamedText (output true) <+: r.text
      else streamedText (output true) = r.text) ∧
    (∀ r, .text (.response r) ∈ output true ↔ .text (.response r) ∈ output false) ∧
    ∀ id delta, .text (.delta id delta) ∉ output false := by
  have hmuted := receiveAll_muted svc inputs
    (ofRequest svc { request with stream := true } prompt)
  have hstream : (ofRequest svc { request with stream := true } prompt).request.stream = true := rfl
  have hstreams := streams_receiveAll svc inputs hstream
  refine ⟨fun r hr => ?_, fun r => ?_, fun id delta hdelta => ?_⟩
  · split
    · exact hstreams.cancelled r hr ‹_›
    · exact hstreams.natural r hr ‹_›
  · show _ ↔ _ ∈ receiveAll svc inputs (muted (ofRequest svc { request with stream := true } prompt))
    rw [hmuted, List.mem_filter]
    exact (and_iff_left rfl).symm
  · have hkept : _ ∈ receiveAll svc inputs
      (muted (ofRequest svc { request with stream := true } prompt)) := hdelta
    rw [hmuted] at hkept
    exact Bool.false_ne_true (List.mem_filter.mp hkept).2

end NativeRuntimeState
end MlxRuntime
