import MlxRuntime.Lib.Increments
import MlxRuntime.Runtime.Native

/-!
# Text without a streaming detokenizer

A tokenizer that has no streaming detokenizer decodes all the tokens of a request again after
each of them.  What is sent is the increment of the decoded text.

## Main definitions

* `NativeRuntimeState.decodedTexts` — the decoded text after each token.
* `NativeRuntimeState.sentTexts` — what is sent for each token.
* `RendersFaithfully` — nothing is sent twice, and a text that grows is sent as it is.
-/

namespace MlxRuntime

open Increments Words

/-- What is sent is faithful to the versions of a text: nothing of it is sent twice, and a text
that grows is what was sent, and what the response says. -/
structure RendersFaithfully (versions sent : List Text) (texts : List Text) : Prop where
  sendsOnce : SendsOnce [[]] versions sent
  flatten : Grows [] versions → sent.flatten = versions.getLastD [] ∧
    ∀ text ∈ texts, text = versions.getLastD []

namespace StopTextAssembler

/-- Without stop sequences nothing is held back. -/
theorem push_of_noStops {α : Type} [DecidableEq α] {a : StopTextAssembler α} (text : List α)
    (hwords : a.stopSequences.words = []) (hpending : a.pending = []) :
    a.push text = ((text, false), { a with emitted := a.emitted ++ text }) := by
  have hhold : hold a.stopSequences = 0 := by rw [hold, hwords]; rfl
  have hnone : firstOf a.stopSequences.words text = none := by rw [hwords]; rfl
  rw [push, hpending, List.nil_append]
  simp only [hnone, hhold, Nat.le_zero, List.length_eq_zero_iff, Nat.sub_zero, List.take_length,
    List.drop_length]
  split
  · rename_i hnil
    rw [hnil, List.append_nil, ← hpending]
  · rw [← hpending]

end StopTextAssembler

namespace NativeRuntimeState

variable {ρ δ : Type} (svc : TextServices δ)

/-- The decoded text after each token, up to the end of the request; `done` are the tokens
before, and an end-of-sequence token is not decoded. -/
def decodedTexts (maxTokens : ℤ) : List Token → Text → List Token → List Text
  | _, _, [] => []
  | done, previous, token :: tokens =>
      if token ∈ svc.eosTokenIds then [previous]
      else
        let text := svc.decode (done ++ [token])
        text :: if maxTokens ≤ (done.length + 1 : ℕ) then []
          else decodedTexts maxTokens (done ++ [token]) text tokens

/-- What is sent for each token, up to the end of the request. -/
def sentTexts (counters : RuntimeCounters) : List Token → NativeRuntimeState ρ δ → List Text
  | [], _ => []
  | token :: tokens, st =>
      match st.acceptToken svc counters token with
      | (events, none) => [deltaText events]
      | (events, some st) => deltaText events :: sentTexts counters tokens st

/-- The texts of the responses. -/
def responseTexts (counters : RuntimeCounters) (tokens : List Token)
    (st : NativeRuntimeState ρ δ) : List Text :=
  (acceptTokens svc counters tokens st).1.filterMap fun
    | .response r => some r.text
    | .delta _ _ => none

variable {svc} {counters : RuntimeCounters} {st : NativeRuntimeState ρ δ} {token : Token}
  {tokens : List Token} {reason : FinishReason}

/-- What is sent for the tokens is what the deltas have. -/
theorem flatten_sentTexts (tokens : List Token) (st : NativeRuntimeState ρ δ) :
    (sentTexts svc counters tokens st).flatten =
      deltaText (acceptTokens svc counters tokens st).1 := by
  induction tokens generalizing st with
  | nil => rfl
  | cons token tokens ih =>
      rw [sentTexts, acceptTokens]
      generalize st.acceptToken svc counters token = accepted
      obtain ⟨events, _ | st₁⟩ := accepted
      · exact List.append_nil _
      · dsimp only
        rw [List.flatten_cons, ih, deltaText_append]

/-- The request is streamed, decoded anew after each token, and has no stop sequences. -/
structure Redecodes (st : NativeRuntimeState ρ δ) : Prop where
  stream : st.request.stream = true
  detokenizer : st.detokenizer = none
  words : st.stop.stopSequences.words = []
  pending : st.stop.pending = []

theorem redecodes_ofRequest {request : TextRequest ρ} (hnone : svc.newDetokenizer = none)
    (hstream : request.stream = true) (hstop : request.stop = []) (prompt : List Token) :
    (ofRequest svc request prompt).Redecodes where
  stream := hstream
  detokenizer := hnone
  words := by
    rw [ofRequest, hstop]
    rfl
  pending := rfl

variable (svc counters) in
/-- The end of the request sends nothing more. -/
theorem Redecodes.finish (h : st.Redecodes) (hreason : reason ≠ .cancelled) :
    st.finish svc counters reason = [.response (st.response counters reason st.stop.emitted)] := by
  have hnil : st.deltas [] = [] := by simp [deltas]
  have hpending := h.pending
  simp [NativeRuntimeState.finish, flush, h.detokenizer, hreason, StopTextAssembler.finish,
    StopTextAssembler.text, hpending, hnil]

/-- The state after a token that is decoded. -/
def redecoded (svc : TextServices δ) (token : Token) (st : NativeRuntimeState ρ δ) :
    NativeRuntimeState ρ δ :=
  let text := svc.decode (st.completionTokenIds ++ [token])
  { st with
    completionTokenIds := st.completionTokenIds ++ [token]
    decodedPrefix := text
    stop := { st.stop with emitted := st.stop.emitted ++ increment st.decodedPrefix text } }

variable (svc) in
theorem Redecodes.redecoded (h : st.Redecodes) (token : Token) :
    (st.redecoded svc token).Redecodes :=
  ⟨h.stream, h.detokenizer, h.words, h.pending⟩

/-- What a token that is decoded does. -/
theorem Redecodes.acceptToken (h : st.Redecodes) (htoken : token ∉ svc.eosTokenIds) :
    st.acceptToken svc counters token =
      if st.request.maxTokens ≤ (st.completionTokenIds.length + 1 : ℕ) then
        ((st.redecoded svc token).deltas (increment st.decodedPrefix
            (svc.decode (st.completionTokenIds ++ [token]))) ++
          [.response ((st.redecoded svc token).response counters .length
            (st.redecoded svc token).stop.emitted)], none)
      else ((st.redecoded svc token).deltas (increment st.decodedPrefix
        (svc.decode (st.completionTokenIds ++ [token]))), some (st.redecoded svc token)) := by
  have hpush := StopTextAssembler.push_of_noStops (increment st.decodedPrefix
    (svc.decode (st.completionTokenIds ++ [token]))) h.words h.pending
  have hdecoded : { st with completionTokenIds := st.completionTokenIds ++ [token] }.detokenize svc
      token = (increment st.decodedPrefix (svc.decode (st.completionTokenIds ++ [token])),
        { st with
          completionTokenIds := st.completionTokenIds ++ [token]
          decodedPrefix := svc.decode (st.completionTokenIds ++ [token]) }) := by
    simp only [detokenize, h.detokenizer]
    rfl
  have hlength : FinishReason.length ≠ .cancelled := by decide
  have hfinish := (h.redecoded svc token).finish svc counters hlength
  rw [NativeRuntimeState.acceptToken, if_neg htoken, hdecoded]
  dsimp only
  rw [hpush]
  dsimp only
  rw [if_neg Bool.false_ne_true, ← hfinish, List.length_append, List.length_singleton]
  rfl

/-- **What is sent** for each token is the increment of the decoded text. -/
theorem Redecodes.sentTexts_eq (h : st.Redecodes) :
    sentTexts svc counters tokens st = increments st.decodedPrefix
      (decodedTexts svc st.request.maxTokens st.completionTokenIds st.decodedPrefix tokens) := by
  induction tokens generalizing st with
  | nil => rfl
  | cons token tokens ih =>
      rw [sentTexts, decodedTexts]
      by_cases htoken : token ∈ svc.eosTokenIds
      · have hstop : FinishReason.stop ≠ .cancelled := by decide
        have h₁ : Redecodes { st with completionTokenIds := st.completionTokenIds ++ [token] } :=
          ⟨h.stream, h.detokenizer, h.words, h.pending⟩
        have hfinish := h₁.finish svc counters hstop
        rw [if_pos htoken, NativeRuntimeState.acceptToken, if_pos htoken, hfinish]
        simp [increments, increment, deltaText]
      · rw [if_neg htoken, h.acceptToken htoken]
        have h₁ := h.redecoded svc token
        have hsent : deltaText ((st.redecoded svc token).deltas
            (increment st.decodedPrefix (svc.decode (st.completionTokenIds ++ [token])))) =
              increment st.decodedPrefix (svc.decode (st.completionTokenIds ++ [token])) := by
          rw [deltaText_deltas, if_pos h₁.stream]
        by_cases hmax : st.request.maxTokens ≤ (st.completionTokenIds.length + 1 : ℕ)
        · rw [if_pos hmax]
          dsimp only
          rw [if_pos hmax, deltaText_append, hsent]
          exact congrArg (· :: []) (List.append_nil _)
        · rw [if_neg hmax]
          dsimp only
          rw [if_neg hmax, hsent]
          exact congrArg (_ :: ·) (ih h₁)

/-- The response has what was sent. -/
theorem Redecodes.response_text (h : st.Redecodes) {r : TextResponse ρ}
    (hr : .response r ∈ (acceptTokens svc counters tokens st).1) :
    r.text = st.stop.emitted ++ (sentTexts svc counters tokens st).flatten := by
  induction tokens generalizing st with
  | nil => cases hr
  | cons token tokens ih =>
      rw [acceptTokens] at hr
      rw [sentTexts]
      by_cases htoken : token ∈ svc.eosTokenIds
      · have hstop : FinishReason.stop ≠ .cancelled := by decide
        have h₁ : Redecodes { st with completionTokenIds := st.completionTokenIds ++ [token] } :=
          ⟨h.stream, h.detokenizer, h.words, h.pending⟩
        have hfinish := h₁.finish svc counters hstop
        rw [NativeRuntimeState.acceptToken, if_pos htoken, hfinish] at hr ⊢
        obtain rfl := TextEvent.response.inj (List.mem_singleton.mp hr)
        exact (List.append_nil _).symm
      · have h₁ := h.redecoded svc token
        rw [h.acceptToken htoken] at hr ⊢
        by_cases hmax : st.request.maxTokens ≤ (st.completionTokenIds.length + 1 : ℕ)
        · rw [if_pos hmax] at hr ⊢
          have hlast := (List.mem_append.mp hr).resolve_left not_response_deltas
          obtain rfl := TextEvent.response.inj (List.mem_singleton.mp hlast)
          dsimp only
          rw [List.flatten_singleton, deltaText_append, deltaText_deltas, if_pos h₁.stream]
          exact congrArg (st.stop.emitted ++ ·) (List.append_nil _).symm
        · rw [if_neg hmax] at hr ⊢
          have hlast := (List.mem_append.mp hr).resolve_left not_response_deltas
          dsimp only
          rw [List.flatten_cons, deltaText_deltas, if_pos h₁.stream, ← List.append_assoc]
          exact ih h₁ hlast

/-- **The text of a request that is decoded anew** is sent once just when no decoded text
rewrites an earlier one that has its first character. -/
theorem rendersFaithfully_iff (svc : TextServices δ) (request : TextRequest ρ)
    (hnone : svc.newDetokenizer = none) (hstream : request.stream = true) (hstop : request.stop = []) (counters : RuntimeCounters)
    (prompt tokens : List Token) :
    RendersFaithfully (decodedTexts svc request.maxTokens [] [] tokens)
        (sentTexts svc counters tokens (ofRequest svc request prompt))
        (responseTexts svc counters tokens (ofRequest svc request prompt)) ↔
      Renews [[]] [] (decodedTexts svc request.maxTokens [] [] tokens) := by
  have h := redecodes_ofRequest hnone hstream hstop prompt
  have hsent : sentTexts svc counters tokens (ofRequest svc request prompt) =
      increments [] (decodedTexts svc request.maxTokens [] [] tokens) := h.sentTexts_eq
  have hsettled : Settled [[]] ([] : Text) := by
    intro e he
    exact .inr (.inl (List.mem_singleton.mp he))
  constructor
  · intro hfaithful
    exact (sendsOnce_increments_iff hsettled).mp (hsent ▸ hfaithful.sendsOnce)
  · intro hrenews
    refine ⟨hsent ▸ (sendsOnce_increments_iff hsettled).mpr hrenews, fun hgrows => ?_⟩
    have hflatten : (sentTexts svc counters tokens (ofRequest svc request prompt)).flatten =
        (decodedTexts svc request.maxTokens [] [] tokens).getLastD [] := by
      rw [hsent]
      exact hgrows.flatten
    refine ⟨hflatten, fun text htext => ?_⟩
    obtain ⟨event, hevent, heq⟩ := List.mem_filterMap.mp htext
    cases event with
    | delta id delta => cases heq
    | response r =>
        obtain rfl := Option.some.inj heq
        rw [h.response_text hevent, ← hflatten]
        rfl

end NativeRuntimeState
end MlxRuntime
