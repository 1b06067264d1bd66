import MlxRuntime.Interfaces
import MlxRuntime.Runtime.StopText

/-!
# The text of a native response

`NativeRuntime` gives each token of a request to its detokenizer, what that answers to the stop
sequences, and what these let through to the client.  A request ends with an end-of-sequence
token, with a stop sequence, or with the last token it asked for.

## Main definitions

* `TextServices` — the tokenizer.
* `NativeRuntimeState`, `NativeRuntimeState.acceptToken`, `NativeRuntimeState.finish` — a request.
* `NativeRuntimeState.acceptTokens` — its tokens.
* `CutsAtStop` — what the response says of the stop sequences.
-/

namespace MlxRuntime

open Words

/-- Text; a character is a code point. -/
abbrev Text := List Char

/-- A streaming detokenizer; the answers are the segments. -/
structure Detokenizer (δ : Type) where
  addToken : Token → δ → Text × δ
  finalize : δ → Text

/-- The tokenizer, as the runtime uses it. -/
structure TextServices (δ : Type) where
  eosTokenIds : List Token
  /-- `_new_streaming_detokenizer`. -/
  newDetokenizer : Option δ
  detokenizer : Detokenizer δ
  /-- `decode_target.decode`. -/
  decode : List Token → Text

/-- `finish_reason`. -/
inductive FinishReason
  | stop
  | length
  | cancelled
  deriving DecidableEq, Repr

/-- What the runtime reads of a `ChatCompletionRequest`. -/
structure TextRequest (ρ : Type) where
  requestId : ρ
  stop : List Text
  maxTokens : ℤ
  stream : Bool
  deriving DecidableEq

/-- `_RuntimeState`. -/
structure NativeRuntimeState (ρ δ : Type) where
  request : TextRequest ρ
  promptTokenIds : List Token
  stop : StopTextAssembler Char
  detokenizer : Option δ
  completionTokenIds : List Token := []
  decodedPrefix : Text := []
  promptBatchSize : Option ℕ := none
  decodeBatchSize : Option ℕ := none
  cancellationStage : Option String := none
  cachedTokens : ℕ := 0

/-- The counters of the runtime that a response has. -/
structure RuntimeCounters where
  cancellationCount : ℕ := 0
  errorCount : ℕ := 0
  deriving DecidableEq

/-- `ChatCompletionResponse`, as the runtime fills it. -/
structure TextResponse (ρ : Type) where
  requestId : ρ
  text : Text
  finishReason : FinishReason
  promptTokens : ℕ
  completionTokens : ℕ
  promptCacheHit : Bool
  cachedTokens : Option ℕ
  promptBatchSize : Option ℕ
  decodeBatchSize : Option ℕ
  schedulerStage : String
  cancellationStage : Option String
  counters : RuntimeCounters
  deriving DecidableEq

/-- A delta, or the response. -/
inductive TextEvent (ρ : Type)
  | delta (requestId : ρ) (delta : Text)
  | response (r : TextResponse ρ)
  deriving DecidableEq

namespace NativeRuntimeState

variable {ρ δ : Type} (svc : TextServices δ)

/-- The state that `submit` makes. -/
def ofRequest (request : TextRequest ρ) (prompt : List Token) : NativeRuntimeState ρ δ where
  request := request
  promptTokenIds := prompt
  stop := { stopSequences := .ofRequest request.stop }
  detokenizer := svc.newDetokenizer

/-- A delta, if there is one. -/
def deltas (st : NativeRuntimeState ρ δ) (emitted : Text) : List (TextEvent ρ) :=
  if emitted ≠ [] && st.request.stream then [.delta st.request.requestId emitted] else []

/-- What the detokenizer still has. -/
def flush (reason : FinishReason) (st : NativeRuntimeState ρ δ) : Text × StopTextAssembler Char :=
  match st.detokenizer with
  | some detokenizer =>
      let segment := svc.detokenizer.finalize detokenizer
      if reason ≠ .cancelled ∧ segment ≠ [] then
        let ((emitted, _), stop) := st.stop.push segment
        (emitted, stop)
      else ([], st.stop)
  | none => ([], st.stop)

/-- The response. -/
def response (counters : RuntimeCounters) (reason : FinishReason) (text : Text)
    (st : NativeRuntimeState ρ δ) : TextResponse ρ where
  requestId := st.request.requestId
  text := text
  finishReason := reason
  promptTokens := st.promptTokenIds.length
  completionTokens := st.completionTokenIds.length
  promptCacheHit := 0 < st.cachedTokens
  cachedTokens := if st.cachedTokens = 0 then none else some st.cachedTokens
  promptBatchSize := st.promptBatchSize
  decodeBatchSize := st.decodeBatchSize
  schedulerStage := if reason = .cancelled then "cancelled" else "completed"
  cancellationStage := st.cancellationStage
  counters := counters

/-- `_finish`, but for the scheduler. -/
def finish (counters : RuntimeCounters) (reason : FinishReason) (st : NativeRuntimeState ρ δ) :
    List (TextEvent ρ) :=
  let (finalEmitted, stop) := st.flush svc reason
  let (trailing, stop) := if reason = .cancelled then ([], stop) else stop.finish
  st.deltas finalEmitted ++ st.deltas trailing ++
    [.response (st.response counters reason stop.text)]

/-- The text of a token. -/
def detokenize (tokenId : Token) (st : NativeRuntimeState ρ δ) : Text × NativeRuntimeState ρ δ :=
  match st.detokenizer with
  | some detokenizer =>
      let (segment, detokenizer) := svc.detokenizer.addToken tokenId detokenizer
      (segment, { st with detokenizer := some detokenizer })
  | none =>
      let text := svc.decode st.completionTokenIds
      let delta :=
        if st.decodedPrefix <+: text then text.drop st.decodedPrefix.length else text
      (delta, { st with decodedPrefix := text })

/-- `_accept_token`; without a state the request has ended. -/
def acceptToken (counters : RuntimeCounters) (tokenId : Token) (st : NativeRuntimeState ρ δ) :
    List (TextEvent ρ) × Option (NativeRuntimeState ρ δ) :=
  let st := { st with completionTokenIds := st.completionTokenIds ++ [tokenId] }
  if tokenId ∈ svc.eosTokenIds then (st.finish svc counters .stop, none)
  else
    let (delta, st) := st.detokenize svc tokenId
    let ((emitted, stopHit), stop) := st.stop.push delta
    let st := { st with stop := stop }
    if stopHit then (st.deltas emitted ++ st.finish svc counters .stop, none)
    else if st.request.maxTokens ≤ st.completionTokenIds.length then
      (st.deltas emitted ++ st.finish svc counters .length, none)
    else (st.deltas emitted, some st)

/-- The tokens of a request, up to its end. -/
def acceptTokens (counters : RuntimeCounters) : List Token → NativeRuntimeState ρ δ →
    List (TextEvent ρ) × Option (NativeRuntimeState ρ δ)
  | [], st => ([], some st)
  | token :: tokens, st =>
      match st.acceptToken svc counters token with
      | (events, none) => (events, none)
      | (events, some st) =>
          let (more, st) := acceptTokens counters tokens st
          (events ++ more, st)

/-! ## What a response says -/

/-- The text of the deltas. -/
def deltaText (events : List (TextEvent ρ)) : Text :=
  events.flatMap fun
    | .delta _ delta => delta
    | .response _ => []

/-- The segments of tokens, up to an end-of-sequence token. -/
def segments : List Token → δ → List Text × δ
  | [], d => ([], d)
  | token :: tokens, d =>
      if token ∈ svc.eosTokenIds then ([], d)
      else
        let (segment, d) := svc.detokenizer.addToken token d
        let (rest, d) := segments tokens d
        (segment :: rest, d)

/-- The final segment, when it is not empty. -/
def finalSegment (d : δ) : List Text :=
  if svc.detokenizer.finalize d = [] then [] else [svc.detokenizer.finalize d]

variable {svc} {counters : RuntimeCounters} {st : NativeRuntimeState ρ δ} {d : δ} {reason : FinishReason}

@[simp] theorem deltaText_append (events more : List (TextEvent ρ)) :
    deltaText (events ++ more) = deltaText events ++ deltaText more := List.flatMap_append

theorem deltaText_deltas (st : NativeRuntimeState ρ δ) (emitted : Text) :
    deltaText (st.deltas emitted) = if st.request.stream then emitted else [] := by
  by_cases hstream : st.request.stream = true
  · by_cases hemitted : emitted = []
    · simp [deltas, hemitted, deltaText]
    · simp [deltas, hemitted, hstream, deltaText]
  · simp [deltas, hstream, deltaText]

theorem not_response_deltas {st : NativeRuntimeState ρ δ} {emitted : Text} {r : TextResponse ρ} :
    TextEvent.response r ∉ st.deltas emitted := by
  rw [deltas]
  split <;> simp

/-- **The end of a request** flushes the detokenizer and the stop sequences: the response has
what was emitted before and what is emitted now. -/
theorem finish_eq (counters : RuntimeCounters) (hreason : reason ≠ .cancelled)
    (hd : st.detokenizer = some d) :
    ∃ flushed trailing, flushed ++ trailing = (st.stop.assemble (finalSegment svc d)).1 ∧
      st.finish svc counters reason = st.deltas flushed ++ st.deltas trailing ++
        [.response (st.response counters reason (st.stop.emitted ++ (flushed ++ trailing)))] := by
  by_cases hsegment : svc.detokenizer.finalize d = []
  · refine ⟨[], st.stop.pending, ?_, ?_⟩
    · simp [finalSegment, hsegment, StopTextAssembler.assemble, StopTextAssembler.finish]
    · simp [finish, flush, hd, hsegment, hreason, StopTextAssembler.finish, StopTextAssembler.text]
  · generalize hpush : st.stop.push (svc.detokenizer.finalize d) = pushed
    obtain ⟨⟨flushed, hit⟩, stop⟩ := pushed
    have hemitted : stop.emitted = st.stop.emitted ++ flushed := by
      have hpushed := StopTextAssembler.push_emitted (svc.detokenizer.finalize d) st.stop.emitted
        st.stop
      rw [show { st.stop with emitted := st.stop.emitted } = st.stop from rfl, hpush] at hpushed
      exact congrArg (fun pushed => pushed.2.emitted) hpushed
    refine ⟨flushed, stop.pending, ?_, ?_⟩
    · simp only [finalSegment, hsegment, if_false, StopTextAssembler.assemble, hpush]
      cases hit with
      | true =>
          have hpending := StopTextAssembler.pending_of_hit (congrArg (fun p => p.1.2) hpush)
          rw [hpush] at hpending
          rw [hpending, List.append_nil]
      | false => rfl
    · simp [finish, flush, hd, hsegment, hreason, hpush, StopTextAssembler.finish,
        StopTextAssembler.text, hemitted]

/-- The response of a request that ends. -/
theorem mem_finish (hreason : reason ≠ .cancelled) (hd : st.detokenizer = some d)
    {r : TextResponse ρ} (h : TextEvent.response r ∈ st.finish svc counters reason) :
    r.finishReason = reason ∧ r.completionTokens = st.completionTokenIds.length ∧
      r.text = st.stop.emitted ++ (st.stop.assemble (finalSegment svc d)).1 ∧
      deltaText (st.finish svc counters reason) =
        if st.request.stream then (st.stop.assemble (finalSegment svc d)).1 else [] := by
  obtain ⟨flushed, trailing, hassemble, hfinish⟩ := finish_eq counters hreason hd
  rw [hfinish] at h ⊢
  rcases List.mem_append.mp h with h | h
  · rcases List.mem_append.mp h with h | h <;> exact absurd h not_response_deltas
  · obtain rfl := TextEvent.response.inj (List.mem_singleton.mp h)
    refine ⟨rfl, rfl, by rw [← hassemble]; rfl, ?_⟩
    rw [deltaText_append, deltaText_append, deltaText_deltas, deltaText_deltas, ← hassemble]
    by_cases hstream : st.request.stream = true
    · simp [hstream, deltaText]
    · simp [hstream, deltaText]

/-! ## How a request ends -/

/-- A request that has had no stop sequence yet. -/
structure Receiving (stops : StopSequences Char) (seen : Text) (d : δ) (st : NativeRuntimeState ρ δ) :
    Prop where
  stop : st.stop = .after stops seen
  clear : firstOf stops.words seen = none
  detokenizer : st.detokenizer = some d

variable (svc) in
/-- The text and the reason with which a request ends after tokens. -/
inductive Ending (stops : StopSequences Char) (seen : Text) (d : δ) (used : List Token) :
    Text → FinishReason → Prop
  /-- With an end-of-sequence token. -/
  | eos (token : ∃ token ∈ used, token ∈ svc.eosTokenIds)
      (clear : firstOf stops.words (seen ++ (segments svc used d).1.flatten) = none) :
      Ending stops seen d used (StopTextAssembler.cut stops.words
        (seen ++ (segments svc used d).1.flatten) (finalSegment svc (segments svc used d).2)).1 .stop
  /-- With a stop sequence. -/
  | hit (text : Text) (tokens : ∀ token ∈ used, token ∉ svc.eosTokenIds)
      (cut : StopTextAssembler.cut stops.words seen (segments svc used d).1 = (text, true)) :
      Ending stops seen d used (text ++ (StopTextAssembler.cut stops.words []
        (finalSegment svc (segments svc used d).2)).1) .stop
  /-- With its last token. -/
  | length (tokens : ∀ token ∈ used, token ∉ svc.eosTokenIds)
      (clear : firstOf stops.words (seen ++ (segments svc used d).1.flatten) = none) :
      Ending stops seen d used (StopTextAssembler.cut stops.words
        (seen ++ (segments svc used d).1.flatten)
        (finalSegment svc (segments svc used d).2)).1 .length

variable (svc) in
/-- A request ends with these tokens. -/
def Ends (stops : StopSequences Char) (maxTokens : ℤ) (seen : Text) (count : ℕ) (d : δ)
    (used : List Token) : Prop :=
  (∃ token ∈ used, token ∈ svc.eosTokenIds) ∨
    firstOf stops.words (seen ++ (segments svc used d).1.flatten) ≠ none ∨
    used ≠ [] ∧ maxTokens ≤ (count + used.length : ℕ)

instance (stops : StopSequences Char) (maxTokens : ℤ) (seen : Text) (count : ℕ) (d : δ)
    (used : List Token) : Decidable (Ends svc stops maxTokens seen count d used) :=
  inferInstanceAs (Decidable (_ ∨ _))

variable {stops : StopSequences Char} {seen : Text} {token : Token} {tokens used : List Token}
  {maxTokens : ℤ} {count : ℕ}

theorem segments_eos (h : token ∈ svc.eosTokenIds) :
    segments svc (token :: used) d = ([], d) := if_pos h

theorem segments_cons (h : token ∉ svc.eosTokenIds) {segment : Text} {d' : δ}
    (hadd : svc.detokenizer.addToken token d = (segment, d')) (used : List Token) :
    segments svc (token :: used) d =
      (segment :: (segments svc used d').1, (segments svc used d').2) := by
  rw [segments, if_neg h, hadd]

/-- A token without a stop sequence comes before an ending. -/
theorem Ending.cons {segment : Text} {d' : δ} {text : Text}
    (h : Ending svc stops (seen ++ segment) d' used text reason)
    (htoken : token ∉ svc.eosTokenIds) (hadd : svc.detokenizer.addToken token d = (segment, d'))
    (hclear : firstOf stops.words (seen ++ segment) = none) :
    Ending svc stops seen d (token :: used) text reason := by
  have hsegments := segments_cons htoken hadd used
  have hflat : seen ++ (segments svc (token :: used) d).1.flatten =
      seen ++ segment ++ (segments svc used d').1.flatten := by
    rw [hsegments, List.flatten_cons, List.append_assoc]
  have hend : (segments svc (token :: used) d).2 = (segments svc used d').2 := by rw [hsegments]
  have hall : (∀ t ∈ used, t ∉ svc.eosTokenIds) → ∀ t ∈ token :: used, t ∉ svc.eosTokenIds := by
    intro hused t ht
    rcases List.mem_cons.mp ht with rfl | ht
    · exact htoken
    · exact hused t ht
  cases h with
  | eos heos hnone =>
      rw [← hflat, ← hend]
      obtain ⟨t, ht, hteos⟩ := heos
      exact .eos ⟨t, List.mem_cons_of_mem _ ht, hteos⟩ (hflat ▸ hnone)
  | hit text hused hcut =>
      rw [← hend]
      refine .hit text (hall hused) ?_
      rw [hsegments, StopTextAssembler.cut, hclear]
      exact hcut
  | length hused hnone =>
      rw [← hflat, ← hend]
      exact .length (hall hused) (hflat ▸ hnone)

theorem not_ends_nil (hclear : firstOf stops.words seen = none) :
    ¬ Ends svc stops maxTokens seen count d [] := by
  rintro (⟨token, htoken, -⟩ | hfirst | ⟨hnil, -⟩)
  · cases htoken
  · exact hfirst (by rw [segments, List.flatten_nil, List.append_nil, hclear])
  · exact hnil rfl

theorem ends_cons (htoken : token ∉ svc.eosTokenIds) {segment : Text} {d' : δ}
    (hadd : svc.detokenizer.addToken token d = (segment, d'))
    (hmax : ¬ maxTokens ≤ (count + 1 : ℕ)) (used : List Token) :
    Ends svc stops maxTokens seen count d (token :: used) ↔
      Ends svc stops maxTokens (seen ++ segment) (count + 1) d' used := by
  have hcount : (used ≠ [] ∧ maxTokens ≤ (count + 1 + used.length : ℕ)) ↔
      (token :: used ≠ [] ∧ maxTokens ≤ (count + (token :: used).length : ℕ)) := by
    cases used with
    | nil => simpa using hmax
    | cons _ _ =>
        simp only [ne_eq, List.cons_ne_nil, not_false_eq_true, List.length_cons, true_and]
        omega
  have heos : (∃ t ∈ token :: used, t ∈ svc.eosTokenIds) ↔ ∃ t ∈ used, t ∈ svc.eosTokenIds := by
    simp [htoken]
  rw [Ends, Ends, hcount, heos, segments_cons htoken hadd, List.flatten_cons, List.append_assoc]

/-- What a token does: it ends the text, it completes a stop sequence, it is the last one, or the
request goes on. -/
theorem acceptToken_cases (counters : RuntimeCounters) (token : Token)
    (h : Receiving stops seen d st) :
    (∃ st₁, token ∈ svc.eosTokenIds ∧ Receiving stops seen d st₁ ∧ st₁.request = st.request ∧
      st₁.completionTokenIds = st.completionTokenIds ++ [token] ∧
      st.acceptToken svc counters token = (st₁.finish svc counters .stop, none)) ∨
    ∃ st₁ segment d' emitted, token ∉ svc.eosTokenIds ∧
      svc.detokenizer.addToken token d = (segment, d') ∧ st₁.request = st.request ∧
      st₁.completionTokenIds = st.completionTokenIds ++ [token] ∧ st₁.detokenizer = some d' ∧
      ((∃ i, firstOf stops.words (seen ++ segment) = some i ∧
        (StopTextAssembler.after stops seen).emitted ++ emitted = (seen ++ segment).take i ∧
        st₁.stop = { stopSequences := stops, emitted := (seen ++ segment).take i } ∧
        st.acceptToken svc counters token =
          (st₁.deltas emitted ++ st₁.finish svc counters .stop, none)) ∨
      (StopTextAssembler.after stops seen).emitted ++ emitted =
          (StopTextAssembler.after stops (seen ++ segment)).emitted ∧
        Receiving stops (seen ++ segment) d' st₁ ∧
        (st.request.maxTokens ≤ (st.completionTokenIds.length + 1 : ℕ) ∧
          st.acceptToken svc counters token =
            (st₁.deltas emitted ++ st₁.finish svc counters .length, none) ∨
        ¬ st.request.maxTokens ≤ (st.completionTokenIds.length + 1 : ℕ) ∧
          st.acceptToken svc counters token = (st₁.deltas emitted, some st₁))) := by
  obtain ⟨hstop, hclear, hdetokenizer⟩ := h
  by_cases heos : token ∈ svc.eosTokenIds
  · refine .inl ⟨{ st with completionTokenIds := st.completionTokenIds ++ [token] }, heos,
      ⟨hstop, hclear, hdetokenizer⟩, rfl, rfl, ?_⟩
    simp only [acceptToken, heos, if_true]
  refine .inr ?_
  generalize hadd : svc.detokenizer.addToken token d = added
  obtain ⟨segment, d'⟩ := added
  cases hfirst : firstOf stops.words (seen ++ segment) with
  | some i =>
      obtain ⟨emitted, hpush, htake⟩ := StopTextAssembler.push_of_some hclear hfirst
      refine ⟨{ st with
        completionTokenIds := st.completionTokenIds ++ [token]
        detokenizer := some d'
        stop := { stopSequences := stops, emitted := (seen ++ segment).take i } }, segment, d',
        emitted, heos, rfl, rfl, rfl, rfl, .inl ⟨i, hfirst, htake, rfl, ?_⟩⟩
      simp only [acceptToken, heos, if_false, detokenize, hdetokenizer, hadd, hstop, hpush, if_true]
  | none =>
      obtain ⟨emitted, hpush, htake⟩ := StopTextAssembler.push_of_none hclear hfirst
      refine ⟨{ st with
        completionTokenIds := st.completionTokenIds ++ [token]
        detokenizer := some d'
        stop := .after stops (seen ++ segment) }, segment, d', emitted, heos, rfl, rfl, rfl, rfl,
        .inr ⟨htake, ⟨rfl, hfirst, rfl⟩, ?_⟩⟩
      simp only [acceptToken, heos, if_false, detokenize, hdetokenizer, hadd, hstop, hpush,
        Bool.false_eq_true, List.length_append, List.length_singleton]
      split
      · exact .inl ⟨‹_›, rfl⟩
      · exact .inr ⟨‹_›, rfl⟩

/-- What the deltas have: what is left of the text after what was emitted before, if the request
is streamed. -/
def Delivers (stream : Bool) (before : Text) (events : List (TextEvent ρ)) (text : Text) : Prop :=
  if stream then before ++ deltaText events = text else deltaText events = []

theorem Delivers.append {stream : Bool} {before emitted text : Text} {events more : List (TextEvent ρ)}
    (h : Delivers stream (before ++ emitted) more text)
    (hevents : deltaText events = if stream then emitted else []) :
    Delivers stream before (events ++ more) text := by
  cases stream with
  | false =>
      rw [Delivers, if_neg Bool.false_ne_true] at h ⊢
      rw [deltaText_append, hevents, h]
      rfl
  | true =>
      rw [Delivers, if_pos rfl] at h ⊢
      rw [deltaText_append, hevents, if_pos rfl, ← List.append_assoc]
      exact h

theorem Delivers.deltaText_eq {stream : Bool} {text : Text} {events : List (TextEvent ρ)}
    (h : Delivers stream [] events text) : deltaText events = if stream then text else [] := by
  cases stream with
  | false => exact h
  | true => exact h

/-- The response of a request that ends without a stop sequence so far. -/
theorem Receiving.mem_finish (h : Receiving stops seen d st) (hreason : reason ≠ .cancelled)
    {r : TextResponse ρ} (hr : TextEvent.response r ∈ st.finish svc counters reason) :
    r.finishReason = reason ∧ r.completionTokens = st.completionTokenIds.length ∧
      r.text = (StopTextAssembler.cut stops.words seen (finalSegment svc d)).1 ∧
      Delivers st.request.stream (StopTextAssembler.after stops seen).emitted
        (st.finish svc counters reason) r.text := by
  obtain ⟨hstop, hclear, hdetokenizer⟩ := h
  obtain ⟨hreason, hcount, htext, hdeltas⟩ := NativeRuntimeState.mem_finish hreason hdetokenizer hr
  rw [hstop] at htext hdeltas
  refine ⟨hreason, hcount, ?_, ?_⟩
  · rw [htext]
    exact (StopTextAssembler.assemble_after _ hclear).1
  · rw [Delivers, hdeltas, htext]
    split <;> rfl

/-- An end-of-sequence token ends the text. -/
theorem Ending.of_eos (htoken : token ∈ svc.eosTokenIds)
    (hclear : firstOf stops.words seen = none) : Ending svc stops seen d [token]
      (StopTextAssembler.cut stops.words seen (finalSegment svc d)).1 .stop := by
  have hsegments : segments svc [token] d = ([], d) := segments_eos htoken
  have hseen : seen ++ (segments svc [token] d).1.flatten = seen := by
    rw [hsegments, List.flatten_nil, List.append_nil]
  have hending : Ending svc stops seen d [token] _ _ :=
    .eos ⟨token, List.mem_singleton_self token, htoken⟩ (hseen.symm ▸ hclear)
  rwa [hseen, hsegments] at hending

/-- The token with which a stop sequence is complete ends the text. -/
theorem Ending.of_hit (htoken : token ∉ svc.eosTokenIds) {segment : Text} {d' : δ} {i : ℕ}
    (hadd : svc.detokenizer.addToken token d = (segment, d'))
    (hfirst : firstOf stops.words (seen ++ segment) = some i) : Ending svc stops seen d [token]
      ((seen ++ segment).take i ++
        (StopTextAssembler.cut stops.words [] (finalSegment svc d')).1) .stop := by
  have hsegments : segments svc [token] d = ([segment], d') := segments_cons htoken hadd []
  have hcut : StopTextAssembler.cut stops.words seen (segments svc [token] d).1 =
      ((seen ++ segment).take i, true) := by
    rw [hsegments, StopTextAssembler.cut, hfirst]
  have hending : Ending svc stops seen d [token] _ _ := .hit _ (by simpa using htoken) hcut
  rwa [hsegments] at hending

/-- The last token ends the text. -/
theorem Ending.of_length (htoken : token ∉ svc.eosTokenIds) {segment : Text} {d' : δ}
    (hadd : svc.detokenizer.addToken token d = (segment, d'))
    (hclear : firstOf stops.words (seen ++ segment) = none) : Ending svc stops seen d [token]
      (StopTextAssembler.cut stops.words (seen ++ segment) (finalSegment svc d')).1 .length := by
  have hsegments : segments svc [token] d = ([segment], d') := segments_cons htoken hadd []
  have hseen : seen ++ (segments svc [token] d).1.flatten = seen ++ segment := by
    rw [hsegments, List.flatten_singleton]
  have hending : Ending svc stops seen d [token] _ _ :=
    .length (by simpa using htoken) (hseen.symm ▸ hclear)
  rwa [hseen, hsegments] at hending

/-- The response of a request that has had a stop sequence. -/
theorem mem_finish_hit {text : Text}
    (hstop : st.stop = { stopSequences := stops, emitted := text }) (hd : st.detokenizer = some d)
    {r : TextResponse ρ} (hr : TextEvent.response r ∈ st.finish svc counters .stop) :
    r.finishReason = .stop ∧ r.completionTokens = st.completionTokenIds.length ∧
      r.text = text ++ (StopTextAssembler.cut stops.words [] (finalSegment svc d)).1 ∧
      Delivers st.request.stream text (st.finish svc counters .stop) r.text := by
  obtain ⟨hreason, hcount, htext, hdeltas⟩ := mem_finish (by decide) hd hr
  rw [hstop, StopTextAssembler.assemble_emitted (a := { stopSequences := stops }),
    StopTextAssembler.assemble_eq] at hdeltas htext
  refine ⟨hreason, hcount, htext, ?_⟩
  rw [Delivers, hdeltas, htext]
  split <;> rfl

/-- **The tokens of a request**: the response has the text of its ending, and so have the deltas. -/
theorem acceptTokens_response (h : Receiving stops seen d st) {r : TextResponse ρ}
    (hr : TextEvent.response r ∈ (acceptTokens svc counters tokens st).1) :
    ∃ used, used <+: tokens ∧
      (Ends svc stops st.request.maxTokens seen st.completionTokenIds.length d used ∧
        ∀ n < used.length,
          ¬ Ends svc stops st.request.maxTokens seen st.completionTokenIds.length d (tokens.take n)) ∧
      r.completionTokens = st.completionTokenIds.length + used.length ∧
      Ending svc stops seen d used r.text r.finishReason ∧
      Delivers st.request.stream (StopTextAssembler.after stops seen).emitted
        (acceptTokens svc counters tokens st).1 r.text := by
  induction tokens generalizing st seen d with
  | nil => cases hr
  | cons token tokens ih =>
      have hnil : ¬ Ends svc stops st.request.maxTokens seen st.completionTokenIds.length d [] :=
        not_ends_nil h.clear
      -- nothing but the first token is before a request that ends with it
      have hone : ∀ n < [token].length, ¬ Ends svc stops st.request.maxTokens seen
          st.completionTokenIds.length d ((token :: tokens).take n) := by
        intro n hn
        obtain rfl : n = 0 := Nat.lt_one_iff.mp hn
        exact hnil
      rw [acceptTokens] at hr ⊢
      rcases acceptToken_cases counters token h with ⟨st₁, heos, h₁, hrequest, hlength, haccept⟩ |
        ⟨st₁, segment, d', emitted, heos, hadd, hrequest, hlength, hd', hcases⟩
      · rw [haccept] at hr ⊢
        obtain ⟨hreason, hcount, htext, hdeltas⟩ := h₁.mem_finish (by decide) hr
        refine ⟨[token], List.prefix_append _ _, ⟨?_, hone⟩, ?_, ?_, hrequest ▸ hdeltas⟩
        · exact .inl ⟨token, List.mem_singleton_self token, heos⟩
        · rw [hcount, hlength, List.length_append]
        · rw [htext, hreason]
          exact .of_eos heos h.clear
      have hemitted := hrequest ▸ deltaText_deltas st₁ emitted
      have hsegments : segments svc [token] d = ([segment], d') := segments_cons heos hadd []
      rcases hcases with ⟨i, hfirst, htake, hstop, haccept⟩ |
        ⟨htake, h₁, ⟨hmax, haccept⟩ | ⟨hmax, haccept⟩⟩
      · rw [haccept] at hr ⊢
        have hr := (List.mem_append.mp hr).resolve_left not_response_deltas
        obtain ⟨hreason, hcount, htext, hdeltas⟩ := mem_finish_hit hstop hd' hr
        rw [← htake, hrequest] at hdeltas
        refine ⟨[token], List.prefix_append _ _, ⟨?_, hone⟩, ?_, ?_, hdeltas.append hemitted⟩
        · refine .inr (.inl ?_)
          simp [hsegments, hfirst]
        · rw [hcount, hlength, List.length_append]
        · rw [htext, hreason]
          exact .of_hit heos hadd hfirst
      · rw [haccept] at hr ⊢
        have hr := (List.mem_append.mp hr).resolve_left not_response_deltas
        obtain ⟨hreason, hcount, htext, hdeltas⟩ := h₁.mem_finish (by decide) hr
        rw [← htake, hrequest] at hdeltas
        refine ⟨[token], List.prefix_append _ _, ⟨?_, hone⟩, ?_, ?_, hdeltas.append hemitted⟩
        · exact .inr (.inr ⟨List.cons_ne_nil _ _, hmax⟩)
        · rw [hcount, hlength, List.length_append]
        · rw [htext, hreason]
          exact .of_length heos hadd h₁.clear
      · rw [haccept] at hr ⊢
        have hr := (List.mem_append.mp hr).resolve_left not_response_deltas
        obtain ⟨used, hused, ⟨hends, hfirst⟩, hcount, hending, hdeltas⟩ := ih h₁ hr
        rw [← htake, hrequest] at hdeltas
        rw [hrequest, hlength, List.length_append] at hends hfirst
        refine ⟨token :: used, List.cons_prefix_cons.mpr ⟨rfl, hused⟩, ⟨?_, ?_⟩, ?_,
          hending.cons heos hadd h₁.clear, hdeltas.append hemitted⟩
        · exact (ends_cons heos hadd hmax used).mpr hends
        · rintro (_ | n) hn
          · exact hnil
          · rw [List.take_succ_cons, ends_cons heos hadd hmax]
            exact hfirst n (Nat.lt_of_succ_lt_succ hn)
        · rw [hcount, hlength, List.length_append, List.length_cons, List.length_cons,
            List.length_nil]
          omega

/-! ## The stop sequences of a response -/

variable (svc) in
/-- The tokens that a request takes: the first ones with which it ends. -/
def taken (request : TextRequest ρ) (d : δ) (tokens : List Token) : List Token :=
  tokens.take (((List.range (tokens.length + 1)).find? fun n =>
    Ends svc (.ofRequest request.stop) request.maxTokens [] 0 d (tokens.take n)).getD tokens.length)

variable (svc) in
/-- The detokenized text: the segments in order, then the final segment. -/
def detokenized (d : δ) (used : List Token) : List Text :=
  (segments svc used d).1 ++ [svc.detokenizer.finalize (segments svc used d).2]

/-- The response and its deltas have the text up to the stop sequence that is reported. -/
structure CutsAtStop (request : TextRequest ρ) (chunks : List Text) (events : List (TextEvent ρ))
    (r : TextResponse ρ) : Prop where
  noStop : ∀ stop ∈ request.stop, stop ≠ [] → ¬ stop <:+: r.text
  text : r.text = (StopTextAssembler.cut (StopSequences.ofRequest request.stop).words [] chunks).1
  deltas : deltaText events = if request.stream then
    (StopTextAssembler.cut (StopSequences.ofRequest request.stop).words [] chunks).1 else []
  reason : (StopTextAssembler.cut (StopSequences.ofRequest request.stop).words [] chunks).2 = true →
    r.finishReason = .stop

variable (svc) in
/-- The final segment adds nothing after a stop sequence, and completes none unless an
end-of-sequence token came before. -/
def FlushesClean (request : TextRequest ρ) (d : δ) (used : List Token) : Prop :=
  let words := (StopSequences.ofRequest request.stop).words
  let text := (segments svc used d).1.flatten
  let final := svc.detokenizer.finalize (segments svc used d).2
  if firstOf words text = none then
    (∃ token ∈ used, token ∈ svc.eosTokenIds) ∨ firstOf words (text ++ final) = none
  else final = [] ∨ ∃ stop ∈ words, stop <+: final

theorem taken_eq {request : TextRequest ρ} (hused : used <+: tokens)
    (hends : Ends svc (.ofRequest request.stop) request.maxTokens [] 0 d used)
    (hfirst : ∀ n < used.length,
      ¬ Ends svc (.ofRequest request.stop) request.maxTokens [] 0 d (tokens.take n)) :
    taken svc request d tokens = used := by
  have htake : tokens.take used.length = used := (List.prefix_iff_eq_take.mp hused).symm
  have hfind : ((List.range (tokens.length + 1)).find? fun n => decide (
      Ends svc (.ofRequest request.stop) request.maxTokens [] 0 d (tokens.take n))) =
        some used.length := by
    rw [List.find?_range_eq_some]
    refine ⟨?_, ?_, fun n hn => ?_⟩
    · rw [htake]
      exact decide_eq_true hends
    · rw [List.mem_range]
      have := hused.length_le
      omega
    · rw [decide_eq_false (hfirst n hn)]
      rfl
  rw [taken, hfind, Option.getD_some, htake]

theorem cut_finalSegment (hclear : firstOf stops.words seen = none) :
    StopTextAssembler.cut stops.words seen (finalSegment svc d) =
      StopTextAssembler.cut stops.words seen [svc.detokenizer.finalize d] := by
  rw [finalSegment]
  split
  · rename_i hnil
    rw [hnil, StopTextAssembler.cut, StopTextAssembler.cut, List.append_nil, hclear]
    rfl
  · rfl

theorem cutsAtStop_iff {request : TextRequest ρ} {chunks : List Text} {events : List (TextEvent ρ)}
    {r : TextResponse ρ}
    (hdeltas : deltaText events = if request.stream then r.text else []) :
    CutsAtStop request chunks events r ↔
      r.text = (StopTextAssembler.cut (StopSequences.ofRequest request.stop).words [] chunks).1 ∧
      ((StopTextAssembler.cut (StopSequences.ofRequest request.stop).words [] chunks).2 = true →
        r.finishReason = .stop) := by
  constructor
  · intro h
    exact ⟨h.text, h.reason⟩
  · rintro ⟨htext, hreason⟩
    refine ⟨fun stop hstop hne => ?_, htext, ?_, hreason⟩
    · rw [htext]
      refine StopTextAssembler.not_isInfix_cut chunks (firstOf_nil (StopSequences.ne_nil _)) ?_
      exact List.mem_filter.mpr ⟨hstop, decide_eq_true hne⟩
    · rw [hdeltas, htext]

/-- Where the first segments have no stop sequence, the final segment is cut after them. -/
theorem cut_detokenized_of_clear
    (hclear : firstOf stops.words (segments svc used d).1.flatten = none) :
    StopTextAssembler.cut stops.words [] (detokenized svc d used) =
      StopTextAssembler.cut stops.words (segments svc used d).1.flatten
        [svc.detokenizer.finalize (segments svc used d).2] := by
  have hcut : (StopTextAssembler.cut stops.words [] (segments svc used d).1).2 = false := by
    rw [StopTextAssembler.cut_snd (firstOf_nil stops.ne_nil), List.nil_append, hclear]
    rfl
  rw [detokenized, StopTextAssembler.cut_append, hcut, if_neg Bool.false_ne_true, List.nil_append]

/-- How a request ends decides whether the stop sequences cut its text. -/
theorem Ending.flushesClean {request : TextRequest ρ} {text : Text}
    (h : Ending svc (.ofRequest request.stop) [] d used text reason) :
    (text = (StopTextAssembler.cut (StopSequences.ofRequest request.stop).words []
        (detokenized svc d used)).1 ∧
      ((StopTextAssembler.cut (StopSequences.ofRequest request.stop).words []
        (detokenized svc d used)).2 = true → reason = .stop)) ↔
      FlushesClean svc request d used := by
  have hnil := firstOf_nil (StopSequences.ofRequest request.stop).ne_nil
  cases h with
  | eos token hclear =>
      rw [List.nil_append] at hclear ⊢
      rw [cut_detokenized_of_clear hclear, cut_finalSegment hclear, FlushesClean, if_pos hclear]
      exact ⟨fun _ => .inl token, fun _ => ⟨rfl, fun _ => rfl⟩⟩
  | hit text tokens hcut =>
      have hfirst : firstOf (StopSequences.ofRequest request.stop).words
          (segments svc used d).1.flatten ≠ none := by
        intro hnone
        have hsnd : (StopTextAssembler.cut _ [] (segments svc used d).1).2 = _ :=
          StopTextAssembler.cut_snd hnil
        rw [hcut, List.nil_append, hnone] at hsnd
        cases hsnd
      rw [detokenized, StopTextAssembler.cut_append, hcut, if_pos rfl, cut_finalSegment hnil,
        FlushesClean, if_neg hfirst, ← StopTextAssembler.cut_singleton_eq_nil]
      simp
  | length tokens hclear =>
      rw [List.nil_append] at hclear ⊢
      have hsnd : (StopTextAssembler.cut (StopSequences.ofRequest request.stop).words _
          [svc.detokenizer.finalize (segments svc used d).2]).2 = _ :=
        StopTextAssembler.cut_snd hclear
      have htoken : ¬ ∃ token ∈ used, token ∈ svc.eosTokenIds := by
        rintro ⟨token, hused, heos⟩
        exact tokens token hused heos
      rw [cut_detokenized_of_clear hclear, cut_finalSegment hclear, FlushesClean, if_pos hclear,
        or_iff_right htoken, hsnd]
      simp

/-- **The stop sequences cut a response** just when the detokenizer flushes clean. -/
theorem response_cuts_at_stop (svc : TextServices δ) (hd : svc.newDetokenizer = some d)
    (counters : RuntimeCounters) (request : TextRequest ρ) (prompt tokens : List Token)
    {r : TextResponse ρ} (hr : TextEvent.response r ∈
      (acceptTokens svc counters tokens (ofRequest svc request prompt)).1) :
    CutsAtStop request (detokenized svc d (taken svc request d tokens))
        (acceptTokens svc counters tokens (ofRequest svc request prompt)).1 r ↔
      FlushesClean svc request d (taken svc request d tokens) := by
  have hreceiving : Receiving (.ofRequest request.stop) [] d (ofRequest svc request prompt) := by
    refine ⟨?_, firstOf_nil (StopSequences.ne_nil _), hd⟩
    rw [StopTextAssembler.after_nil]
    rfl
  obtain ⟨used, hused, ⟨hends, hfirst⟩, -, hending, hdeltas⟩ := acceptTokens_response hreceiving hr
  rw [taken_eq hused hends hfirst, cutsAtStop_iff]
  · exact hending.flushesClean
  · rw [StopTextAssembler.after_nil] at hdeltas
    exact hdeltas.deltaText_eq

/-- A tokenizer whose tokens are characters; what it holds back is its state. -/
def spellingTokenizer (final : Text) : TextServices Unit where
  eosTokenIds := [0]
  newDetokenizer := some ()
  detokenizer := {
    addToken := fun token _ => ([Char.ofNat token], ())
    finalize := fun _ => final
  }
  decode := fun tokens => tokens.map fun token => Char.ofNat token

/-- A request for text that ends before "b". -/
def stopAtB : TextRequest ℕ := { requestId := 1, stop := ["b".toList], maxTokens := 4, stream := true }

/-- Its response after two tokens. -/
def stopAtBResponse (text : Text) : TextResponse ℕ where
  requestId := 1
  text := text
  finishReason := .stop
  promptTokens := 0
  completionTokens := 2
  promptCacheHit := false
  cachedTokens := none
  promptBatchSize := none
  decodeBatchSize := none
  schedulerStage := "completed"
  cancellationStage := none
  counters := {}

/-- A response that is cut before its stop sequence. -/
theorem response_cuts_at_b : CutsAtStop stopAtB
    (detokenized (spellingTokenizer []) () (taken (spellingTokenizer []) stopAtB () [97, 98]))
    (acceptTokens (spellingTokenizer []) {} [97, 98] (ofRequest (spellingTokenizer []) stopAtB [])).1
    (stopAtBResponse ['a']) := by
  have hr : TextEvent.response (stopAtBResponse ['a']) ∈ (acceptTokens (spellingTokenizer []) {}
      [97, 98] (ofRequest (spellingTokenizer []) stopAtB [])).1 := by decide
  refine (response_cuts_at_stop (spellingTokenizer []) rfl {} stopAtB [] [97, 98] hr).mpr ?_
  have htaken : taken (spellingTokenizer []) stopAtB () [97, 98] = [97, 98] := by decide
  have hfirst : firstOf (StopSequences.ofRequest stopAtB.stop).words
      (segments (spellingTokenizer []) [97, 98] ()).1.flatten ≠ none := by decide
  rw [htaken, FlushesClean, if_neg hfirst]
  exact .inl rfl

/-- What the detokenizer held back is sent after the stop sequence. -/
theorem final_segment_after_stop : ∃ r, TextEvent.response r ∈
      (acceptTokens (spellingTokenizer ['c']) {} [97, 98]
        (ofRequest (spellingTokenizer ['c']) stopAtB [])).1 ∧
    ¬ CutsAtStop stopAtB
      (detokenized (spellingTokenizer ['c']) () (taken (spellingTokenizer ['c']) stopAtB () [97, 98]))
      (acceptTokens (spellingTokenizer ['c']) {} [97, 98]
        (ofRequest (spellingTokenizer ['c']) stopAtB [])).1 r := by
  refine ⟨stopAtBResponse ['a', 'c'], by decide, fun h => ?_⟩
  have hcut : (StopTextAssembler.cut (StopSequences.ofRequest stopAtB.stop).words []
      (detokenized (spellingTokenizer ['c']) ()
        (taken (spellingTokenizer ['c']) stopAtB () [97, 98]))).1 = ['a'] := by decide
  have htext := h.text
  rw [hcut] at htext
  cases htext

end NativeRuntimeState
end MlxRuntime
