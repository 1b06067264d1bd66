import MlxRuntime.Runtime.Lifecycle
import MlxRuntime.Runtime.Warmup
import MlxRuntime.Scheduler.Progress
import Mathlib.Algebra.Order.BigOperators.Group.Finset

/-!
# Draining the native runtime

The runtime and the scheduler count the tokens of a request apart, and each of them stops it on
its own: the scheduler does not select a request that is complete, and the runtime ends it.  They
agree on every request that is pending, so a request that waits for more tokens is selected, and
without new requests the runtime is idle after so many ticks as there is work left.

## Main definitions

* `NativeRuntimeState.Spends` — a response within the budget of its request.
* `NativeScheduler.backlog` — the work that is left, in ticks.
* `NativeRuntime.Agrees` — the two accounts of a request.
* `NativeRuntime.Going` — the invariant.
-/

namespace MlxRuntime

namespace NativeRuntimeState

variable {ρ δ : Type} {svc : TextServices δ} {st st' : NativeRuntimeState ρ δ}

/-- A token that does not end the request is counted. -/
theorem acceptToken_goesOn {counters : RuntimeCounters} {token : Token}
    {events : List (TextEvent ρ)} (h : st.acceptToken svc counters token = (events, some st')) :
    st'.request = st.request ∧ st'.promptTokenIds = st.promptTokenIds ∧
      st'.completionTokenIds = st.completionTokenIds ++ [token] ∧
      (st'.completionTokenIds.length : ℤ) < st.request.maxTokens ∧ token ∉ svc.eosTokenIds := by
  rw [acceptToken] at h
  split at h
  · cases (Prod.mk.inj h).2
  rename_i heos
  generalize hst : { st with completionTokenIds := st.completionTokenIds ++ [token] } = st₀ at h
  generalize hsegment : detokenize svc token st₀ = segment at h
  obtain ⟨delta, st₁⟩ := segment
  have hsame : st₁.request = st.request ∧ st₁.promptTokenIds = st.promptTokenIds ∧
      st₁.completionTokenIds = st.completionTokenIds ++ [token] := by
    rw [detokenize, ← hst] at hsegment
    split at hsegment <;> obtain ⟨-, rfl⟩ := Prod.mk.inj hsegment <;> exact ⟨rfl, rfl, rfl⟩
  dsimp only at h
  split at h
  · cases (Prod.mk.inj h).2
  split at h
  · cases (Prod.mk.inj h).2
  rename_i hlength
  obtain ⟨-, hst'⟩ := Prod.mk.inj h
  obtain rfl := Option.some.inj hst'
  refine ⟨hsame.1, hsame.2.1, hsame.2.2, ?_, heos⟩
  have hlt := not_le.mp hlength
  rw [hsame.1] at hlt
  exact hlt

/-- The tokens of a request that goes on. -/
structure Counts (svc : TextServices δ) (st st' : NativeRuntimeState ρ δ) (tokens : List Token) :
    Prop where
  request : st'.request = st.request
  promptTokenIds : st'.promptTokenIds = st.promptTokenIds
  completionTokenIds : st'.completionTokenIds = st.completionTokenIds ++ tokens
  length : tokens ≠ [] → (st'.completionTokenIds.length : ℤ) < st.request.maxTokens
  eos : ∀ token ∈ tokens, token ∉ svc.eosTokenIds

theorem Counts.trans {st'' : NativeRuntimeState ρ δ} {tokens tokens' : List Token}
    (h : Counts svc st st' tokens) (h' : Counts svc st' st'' tokens') :
    Counts svc st st'' (tokens ++ tokens') where
  request := h'.request.trans h.request
  promptTokenIds := h'.promptTokenIds.trans h.promptTokenIds
  completionTokenIds := by
    rw [h'.completionTokenIds, h.completionTokenIds, List.append_assoc]
  length hne := by
    rcases eq_or_ne tokens' [] with rfl | hne'
    · rw [h'.completionTokenIds, List.append_nil]
      exact h.length (by simpa using hne)
    · exact h.request ▸ h'.length hne'
  eos token htoken := (List.mem_append.mp htoken).elim (h.eos token) (h'.eos token)

theorem counts_nil (hrequest : st'.request = st.request)
    (hprompt : st'.promptTokenIds = st.promptTokenIds)
    (hcompletion : st'.completionTokenIds = st.completionTokenIds) : Counts svc st st' [] :=
  ⟨hrequest, hprompt, hcompletion.trans (List.append_nil _).symm, fun hne => absurd rfl hne,
    fun _ htoken => absurd htoken List.not_mem_nil⟩

theorem counts_receive {counters : RuntimeCounters} {event : SchedulerEvent ρ}
    {events : List (RuntimeEvent ρ)}
    (h : st.receive svc (.event counters event) = (events, some st')) :
    ∃ tokens, tokensOf [event] = tokens.map some ∧ Counts svc st st' tokens := by
  cases event with
  | prefillProgress =>
      obtain ⟨-, hst'⟩ := Prod.mk.inj h
      obtain rfl := Option.some.inj hst'
      exact ⟨[], rfl, counts_nil rfl rfl rfl⟩
  | metrics =>
      obtain ⟨-, hst'⟩ := Prod.mk.inj h
      obtain rfl := Option.some.inj hst'
      exact ⟨[], rfl, counts_nil rfl rfl rfl⟩
  | executionError => cases (Prod.mk.inj h).2
  | cancelled => cases (Prod.mk.inj h).2
  | token id token cacheLength phase batchSize =>
      cases token with
      | none => cases (Prod.mk.inj h).2
      | some token =>
          rw [receive, applyEvent] at h
          dsimp only at h
          generalize haccept : acceptToken svc counters token
            { st with decodeBatchSize := batchSize <|> st.decodeBatchSize } = accepted at h
          obtain ⟨said, left⟩ := accepted
          obtain ⟨-, rfl⟩ := Prod.mk.inj h
          obtain ⟨hrequest, hprompt, hcompletion, hlength, heos⟩ := acceptToken_goesOn haccept
          exact ⟨[token], rfl, hrequest, hprompt, hcompletion, fun _ => hlength,
            fun t ht => List.mem_singleton.mp ht ▸ heos⟩

/-- A request that goes on has counted the tokens of its events. -/
theorem counts_remains {inputs : List (RequestInput ρ)} {events : List (SchedulerEvent ρ)}
    (h : inputs.map RequestInput.event? = events.map some)
    (hremains : remains svc inputs st = some st') :
    ∃ tokens, tokensOf events = tokens.map some ∧ Counts svc st st' tokens := by
  induction inputs generalizing st events with
  | nil =>
      obtain rfl := Option.some.inj hremains
      cases events with
      | nil => exact ⟨[], rfl, counts_nil rfl rfl rfl⟩
      | cons e events => cases h
  | cons input inputs ih =>
      cases events with
      | nil => cases h
      | cons e events =>
        obtain ⟨hinput, hinputs⟩ := List.cons.inj h
        cases input with
        | cancel => cases hinput
        | event counters event =>
          obtain rfl := Option.some.inj hinput
          rw [remains] at hremains
          rcases hreceive : st.receive svc (.event counters event) with ⟨said, _ | st₁⟩
          · rw [hreceive] at hremains
            cases hremains
          · rw [hreceive] at hremains
            obtain ⟨tokens, htokens, hcounts⟩ := counts_receive hreceive
            obtain ⟨tokens', htokens', hcounts'⟩ := ih hinputs hremains
            refine ⟨tokens ++ tokens', ?_, hcounts.trans hcounts'⟩
            rw [← List.singleton_append, tokensOf_append, htokens, htokens', List.map_append]

end NativeRuntimeState

namespace NativeRuntimeState

variable {ρ δ : Type} {svc : TextServices δ} {st : NativeRuntimeState ρ δ}

/-! ## The budget of a request -/

/-- The request may have another token. -/
def Budgeted (st : NativeRuntimeState ρ δ) : Prop :=
  st.completionTokenIds ≠ [] → (st.completionTokenIds.length : ℤ) < st.request.maxTokens

/-- A response keeps to the budget of its request, and uses it up if it ends by length. -/
def Spends (maxTokens : ℤ) (answer : TextResponse ρ) : Prop :=
  (answer.completionTokens : ℤ) ≤ max 1 maxTokens ∧
    (answer.finishReason = .length → maxTokens ≤ answer.completionTokens)

theorem spends_finish {counters : RuntimeCounters} {reason : FinishReason} {answer : TextResponse ρ}
    (h : .text (.response answer) ∈ (st.finish svc counters reason).map RuntimeEvent.text) :
    answer.completionTokens = st.completionTokenIds.length ∧ answer.finishReason = reason := by
  obtain ⟨chunks, text, hfinish, -⟩ := finish_delivers counters reason st
  obtain ⟨event, hevent, heq⟩ := List.mem_map.mp h
  obtain rfl := RuntimeEvent.text.inj heq
  rw [hfinish] at hevent
  have hlast := (List.mem_append.mp hevent).resolve_left not_response_flatMap
  obtain rfl := TextEvent.response.inj (List.mem_singleton.mp hlast)
  exact ⟨rfl, rfl⟩

/-- The response to a token that ends the request. -/
theorem spends_acceptToken {counters : RuntimeCounters} {token : Token} (h : st.Budgeted)
    {answer : TextResponse ρ} (hanswer : .text (.response answer) ∈
      ((st.acceptToken svc counters token).1.map RuntimeEvent.text)) :
    Spends st.request.maxTokens answer := by
  have hnext : ((st.completionTokenIds.length + 1 : ℕ) : ℤ) ≤ max 1 st.request.maxTokens := by
    rcases eq_or_ne st.completionTokenIds [] with hnil | hne
    · rw [hnil]
      exact le_max_left _ _
    · have hlt := h hne
      omega
  rw [acceptToken] at hanswer
  split at hanswer
  · obtain ⟨hcount, hreason⟩ := spends_finish hanswer
    rw [List.length_append] at hcount
    exact ⟨hcount ▸ hnext, fun hlength => by rw [hreason] at hlength; cases hlength⟩
  generalize hst : { st with completionTokenIds := st.completionTokenIds ++ [token] } = st₀
    at hanswer
  generalize hsegment : detokenize svc token st₀ = segment at hanswer
  obtain ⟨delta, st₁⟩ := segment
  have hsame : st₁.request = st.request ∧
      st₁.completionTokenIds.length = st.completionTokenIds.length + 1 := by
    rw [detokenize, ← hst] at hsegment
    split at hsegment <;> obtain ⟨-, rfl⟩ := Prod.mk.inj hsegment <;>
      exact ⟨rfl, List.length_append⟩
  dsimp only at hanswer
  split at hanswer
  · rw [List.map_append] at hanswer
    rcases List.mem_append.mp hanswer with hdelta | hfinish
    · obtain ⟨event, hevent, heq⟩ := List.mem_map.mp hdelta
      obtain rfl := RuntimeEvent.text.inj heq
      exact absurd hevent not_response_deltas
    · obtain ⟨hcount, hreason⟩ := spends_finish hfinish
      exact ⟨hcount ▸ hsame.2 ▸ hnext, fun hlength => by rw [hreason] at hlength; cases hlength⟩
  split at hanswer
  · rename_i hmax
    rw [List.map_append] at hanswer
    rcases List.mem_append.mp hanswer with hdelta | hfinish
    · obtain ⟨event, hevent, heq⟩ := List.mem_map.mp hdelta
      obtain rfl := RuntimeEvent.text.inj heq
      exact absurd hevent not_response_deltas
    · obtain ⟨hcount, -⟩ := spends_finish hfinish
      rw [hsame.1] at hmax
      exact ⟨hcount ▸ hsame.2 ▸ hnext, fun _ => hcount ▸ hmax⟩
  · obtain ⟨event, hevent, heq⟩ := List.mem_map.mp hanswer
    obtain rfl := RuntimeEvent.text.inj heq
    exact absurd hevent not_response_deltas

/-- The responses of a request. -/
theorem spends_receiveAll {inputs : List (RequestInput ρ)} (h : st.Budgeted)
    {answer : TextResponse ρ} (hanswer : .text (.response answer) ∈ receiveAll svc inputs st) :
    Spends st.request.maxTokens answer := by
  induction inputs generalizing st with
  | nil => cases hanswer
  | cons input inputs ih =>
      have hsame : ∀ st₁ : NativeRuntimeState ρ δ, st₁.request = st.request →
          st₁.completionTokenIds = st.completionTokenIds →
            .text (.response answer) ∈ receiveAll svc inputs st₁ →
              Spends st.request.maxTokens answer := by
        intro st₁ hrequest hcompletion hmem
        have hbudget : st₁.Budgeted := by
          rw [Budgeted, hcompletion, hrequest]
          exact h
        exact hrequest ▸ ih hbudget hmem
      cases input with
      | cancel prefillTimeMs => exact hsame (st.markCancelled prefillTimeMs) rfl rfl hanswer
      | event counters event =>
        cases event with
        | prefillProgress id cacheLength batchSize scheduledTokens cachedTokens promptComplete =>
          exact hsame { st with
            cachedTokens := max st.cachedTokens cachedTokens
            promptBatchSize := some batchSize } rfl rfl hanswer
        | metrics => exact hsame st rfl rfl hanswer
        | executionError => cases List.mem_singleton.mp hanswer
        | cancelled id stage =>
          have hfinish : .text (.response answer) ∈
              (finish svc { counters with cancellationCount := counters.cancellationCount + 1 }
                .cancelled { st with cancellationStage := some stage.text }).map
                RuntimeEvent.text := hanswer
          obtain ⟨hcount, hreason⟩ := spends_finish hfinish
          refine ⟨?_, fun hlength => by rw [hreason] at hlength; cases hlength⟩
          rw [hcount]
          rcases eq_or_ne st.completionTokenIds [] with hnil | hne
          · simp [hnil]
          · have hlt := h hne
            dsimp only
            omega
        | token id token cacheLength phase batchSize =>
          cases token with
          | none => cases List.mem_singleton.mp hanswer
          | some token =>
            rw [receiveAll, receive, applyEvent] at hanswer
            dsimp only at hanswer
            generalize haccept : acceptToken svc counters token
              { st with decodeBatchSize := batchSize <|> st.decodeBatchSize } = accepted at hanswer
            have hspends : .text (.response answer) ∈ accepted.1.map RuntimeEvent.text →
                Spends st.request.maxTokens answer := by
              have hbudget : ({ st with decodeBatchSize := batchSize <|> st.decodeBatchSize } :
                NativeRuntimeState ρ δ).Budgeted := h
              rw [← haccept]
              exact spends_acceptToken hbudget
            obtain ⟨said, _ | st₁⟩ := accepted
            · exact hspends hanswer
            · rcases List.mem_append.mp hanswer with hsaid | hlater
              · exact hspends hsaid
              · obtain ⟨hrequest, -, -, hlength, -⟩ := acceptToken_goesOn haccept
                have hbudget : st₁.Budgeted := fun _ => hrequest ▸ hlength
                exact hrequest ▸ ih hbudget hlater

end NativeRuntimeState

/-- A sum over fewer things, each of which costs no more, is smaller if one is gone or costs
less. -/
theorem sum_lt_of_subset {α : Type} [DecidableEq α] {small large : Finset α} {cost cost' : α → ℕ}
    (hsub : small ⊆ large) (hle : ∀ a ∈ small, cost' a ≤ cost a)
    (hlt : ∃ a ∈ large, (a ∈ small → cost' a < cost a) ∧ (a ∉ small → 0 < cost a)) :
    small.sum cost' < large.sum cost := by
  have hsum : small.sum cost' = large.sum fun a => if a ∈ small then cost' a else 0 := by
    rw [← Finset.sum_filter, Finset.filter_mem_eq_inter, Finset.inter_eq_right.mpr hsub]
  rw [hsum]
  obtain ⟨a, ha, hin, hout⟩ := hlt
  refine Finset.sum_lt_sum (fun b _ => ?_) ⟨a, ha, ?_⟩
  · by_cases hb : b ∈ small
    · rw [if_pos hb]
      exact hle b hb
    · rw [if_neg hb]
      exact Nat.zero_le _
  · by_cases hb : a ∈ small
    · rw [if_pos hb]
      exact hin hb
    · rw [if_neg hb]
      exact hout hb

/-- The operation is a submission. -/
def NativeRuntimeOp.isSubmit {ρ F : Type} : NativeRuntimeOp ρ F → Bool
  | .submit _ _ => true
  | _ => false

/-- The work that is left for a request: the rest of its prompt, its tokens, and its end. -/
def ScheduledState.cost {ρ : Type} (st : ScheduledState ρ) : ℕ :=
  if st.finishRequested then 1
  else 2 + (st.promptLength - st.promptCursor) +
    ((max 1 st.work.maxTokens).toNat - st.generatedTokens)

namespace NativeScheduler

variable {ρ σ π φ : Type} [DecidableEq ρ] {config : SchedulerConfig}
  {s s' : NativeScheduler ρ σ φ} {id : ρ}

/-! ## Flags -/

/-- Two states that agree but for the requests that were cancelled or finished. -/
def SameWork (st st' : ScheduledState ρ) : Prop :=
  { st' with cancelRequested := st.cancelRequested, finishRequested := st.finishRequested } = st

omit [DecidableEq ρ] in
theorem SameWork.refl (st : ScheduledState ρ) : SameWork st st := rfl

omit [DecidableEq ρ] in
theorem SameWork.inPrompt {st st' : ScheduledState ρ} (h : SameWork st st') :
    st'.InPrompt ↔ st.InPrompt := by
  rw [← h]
  exact Iff.rfl

omit [DecidableEq ρ] in
theorem SameWork.ready {st st' : ScheduledState ρ} (h : SameWork st st') :
    st'.Ready ↔ st.Ready := by
  rw [← h]
  exact Iff.rfl

omit [DecidableEq ρ] in
theorem SameWork.fits {st st' : ScheduledState ρ} {request : ExecutionRequest ρ}
    (h : SameWork st st') : Fits config request st' ↔ Fits config request st := by
  rw [← h]
  exact Iff.rfl

omit [DecidableEq ρ] in
/-- Flags may be set, and requests leave, as long as who is open stays so. -/
theorem Paced.of_sameWork {ended ended' : ρ → Prop} (h : Paced config s ended)
    (hflight : s'.inFlight = s.inFlight) (hsame : ∀ id, SameWork (s.states id) (s'.states id))
    (hready : ∀ id ∈ s'.running, (s'.states id).open = true → id ∉ s'.inFlightIds →
      id ∈ s.running ∧ (s.states id).open = true ∧ (ended id → ended' id)) :
    Paced config s' ended' := by
  refine ⟨fun id => (hsame id).inPrompt.mpr (h.cursor id), fun step hstep => ?_,
    fun id hid hopen hnot => ?_⟩
  · obtain ⟨hne, hsuits⟩ := h.flies step (hflight ▸ hstep)
    exact ⟨hne, fun r hr => (hsame _).fits.mpr (hsuits r hr)⟩
  · obtain ⟨hr, hopen, hended⟩ := hready id hid hopen hnot
    refine (h.ready id hr hopen ?_).imp hended (hsame id).ready.mpr
    simpa only [inFlightIds, hflight] using hnot

/-! ## The backlog -/

/-- The ids of the requests. -/
def ids (s : NativeScheduler ρ σ φ) : Finset ρ := (s.waiting ++ s.running).toFinset

/-- The work that is left, in ticks: each piece of it is launched by one, and lands in the next. -/
def backlog (s : NativeScheduler ρ σ φ) : ℕ :=
  2 * s.ids.sum (fun id => (s.states id).cost) + if s.inFlight.isNone then 1 else 0

theorem mem_ids : id ∈ s.ids ↔ s.Present id := by
  rw [ids, List.mem_toFinset, List.mem_append]
  exact Iff.rfl

end NativeScheduler

namespace NativeRuntime

open NativeScheduler (Paced Planned Suits backlog)

variable {ρ σ π φ δ F : Type} [DecidableEq ρ] {svc : SchedulerServices ρ σ π φ}
  {config : SchedulerConfig} {model : ModelServices F} {text : TextServices δ}
  {r r' : NativeRuntime ρ σ φ δ} {id : ρ}

/-! ## Two accounts of a request -/

/-- The scheduler and the runtime agree on a request. -/
structure Agrees (scheduled : ScheduledState ρ) (st : NativeRuntimeState ρ δ) : Prop where
  work : scheduled.work = schedulable st.request st.promptTokenIds
  generatedTokens : scheduled.generatedTokens = st.completionTokenIds.length
  lastTokenId : scheduled.lastTokenId = st.completionTokenIds.getLast?
  generationComplete : scheduled.generationComplete = false
  length : st.completionTokenIds ≠ [] →
    (st.completionTokenIds.length : ℤ) < st.request.maxTokens

omit [DecidableEq ρ] in
/-- They agree after a tick in which the request goes on. -/
theorem Agrees.goesOn {scheduled scheduled' : ScheduledState ρ} {st st' : NativeRuntimeState ρ δ}
    {tokens : List Token} (h : Agrees scheduled st)
    (heos : ∀ token ∈ config.terminalTokenIds, token ∈ text.eosTokenIds)
    (hgoes : GoesOn config scheduled scheduled' (tokens.map some))
    (hcounts : NativeRuntimeState.Counts text st st' tokens) : Agrees scheduled' st' := by
  have hgenerated : scheduled'.generatedTokens = st'.completionTokenIds.length := by
    rw [hgoes.generatedTokens, h.generatedTokens, hcounts.completionTokenIds, List.length_append,
      List.length_map]
  refine ⟨?_, hgenerated, ?_, ?_, fun hne => ?_⟩
  · rw [hgoes.work, h.work, hcounts.request, hcounts.promptTokenIds]
  · rw [hgoes.lastTokenId, h.lastTokenId, hcounts.completionTokenIds, List.getLast?_append,
      List.getLast?_map]
    cases tokens.getLast? <;> rfl
  · have hcomplete := hgoes.generationComplete
    rw [List.getLast?_map] at hcomplete
    cases hlast : tokens.getLast? with
    | none =>
      rw [hlast] at hcomplete
      exact hcomplete.trans h.generationComplete
    | some token =>
      have hmem := List.mem_of_getLast? hlast
      rw [hlast] at hcomplete
      refine hcomplete.trans ?_
      dsimp only [Option.map_some]
      split
      · have hlt := hcounts.length (List.ne_nil_of_mem hmem)
        have hmax : scheduled.work.maxTokens = st.request.maxTokens := by rw [h.work]; rfl
        rw [hgenerated, hmax, Bool.or_eq_false_iff]
        refine ⟨decide_eq_false (not_le.mpr hlt), ?_⟩
        exact decide_eq_false fun hin => hcounts.eos token hmem (heos token hin)
      · exact h.generationComplete
  · rcases eq_or_ne tokens [] with rfl | htokens
    · have hsame := hcounts.completionTokenIds
      rw [List.append_nil] at hsame
      rw [hsame] at hne ⊢
      exact hcounts.request ▸ h.length hne
    · exact hcounts.request ▸ hcounts.length htokens

/-- The invariant of a runtime that is served by a coordinator that reuses prompts. -/
structure Going (config : SchedulerConfig) (r : NativeRuntime ρ σ φ δ) : Prop where
  serving : Serving config r
  agrees : ∀ id st, r.requests.get? id = some st → Agrees (r.scheduler.states id) st
  paced : Paced config r.scheduler fun _ => False

theorem going_new (config : SchedulerConfig) (world : σ) :
    Going config ({ scheduler := .new world } : NativeRuntime ρ σ φ δ) where
  serving := serving_new config world
  agrees _ _ hsome := by cases hsome
  paced := ⟨fun _ => le_rfl, fun _ hstep => (by cases hstep), fun _ hid =>
    absurd hid List.not_mem_nil⟩

/-- A pending request that is ready waits to be selected. -/
theorem Going.selectable (h : Going config r) {st : NativeRuntimeState ρ δ}
    (hsome : r.requests.get? id = some st) (hready : (r.scheduler.states id).Ready) :
    (r.scheduler.states id).Selectable := by
  have hagrees := h.agrees id st hsome
  refine hready.imp_right fun hgenerated => ⟨?_, hagrees.generationComplete⟩
  rw [hagrees.lastTokenId, ne_eq, List.getLast?_eq_none_iff]
  intro hnil
  rw [hagrees.generatedTokens, hnil] at hgenerated
  exact hgenerated rfl

variable {events : List (SchedulerEvent ρ)} {s : NativeScheduler ρ σ φ} {ended : List ρ}
  {output : List (RuntimeEvent ρ)}

/-- A request that goes on: the scheduler and the runtime have the same tokens for it. -/
theorem Step.counts (hstep : Step svc text config r events s ended output r') (h : Serving config r)
    {st st' : NativeRuntimeState ρ δ} (hsome : r.requests.get? id = some st)
    (hsome' : r'.requests.get? id = some st') :
    ∃ tokens, NativeRuntimeState.Counts text st st' tokens ∧
      GoesOn config (r.scheduler.states id) (r'.scheduler.states id) (tokens.map some) ∧
      tokensOf (eventsOf id events) = tokens.map some := by
  obtain ⟨inputs, hinputs, -, hremains, -⟩ := hstep.heard.present id st hsome
  obtain ⟨-, hstates, hgoes, -⟩ := hstep.goesOn h (hsome ▸ Option.some_ne_none st)
    (hsome' ▸ Option.some_ne_none st')
  obtain ⟨tokens, htokens, hcounts⟩ :=
    NativeRuntimeState.counts_remains hinputs (hremains.symm.trans hsome')
  rw [htokens] at hgoes
  exact ⟨tokens, hcounts, hstates ▸ hgoes, htokens⟩

/-- A tick keeps the invariant. -/
theorem Step.going (hstep : Step svc text config r events s ended output r')
    (h : Going config r) (heos : ∀ token ∈ config.terminalTokenIds, token ∈ text.eosTokenIds)
    (hpaced : Paced config s fun id => HasEnd (eventsOf id events)) : Going config r' := by
  have hserving := hstep.serving h.serving
  refine ⟨hserving, fun id st' hsome' => ?_, hpaced.of_sameWork hstep.finished.inFlight
    (fun id => ?_) fun id hid hopen hflight => ?_⟩
  · have hne' : r'.requests.get? id ≠ none := hsome' ▸ Option.some_ne_none st'
    have hne : r.requests.get? id ≠ none := fun hnone => hne' (hstep.heard.absent id hnone).1
    obtain ⟨st, hsome⟩ := Option.ne_none_iff_exists'.mp hne
    obtain ⟨tokens, hcounts, hgoes, -⟩ := hstep.counts h.serving hsome hsome'
    exact (h.agrees id st hsome).goesOn heos hgoes hcounts
  · rw [hstep.finished.states]
    split <;> rfl
  · -- who is open and not in flight has not ended
    have hpresent := (hstep.finished.present id).mp (.inr hid)
    have hids : r'.scheduler.inFlightIds = s.inFlightIds := by
      simp only [NativeScheduler.inFlightIds, hstep.finished.inFlight]
    have hnot : id ∉ ended := fun hmem => hflight (hids ▸ hpresent.2 hmem)
    have hstates : r'.scheduler.states id = s.states id := by
      rw [hstep.finished.states, if_neg fun hmem => hnot hmem.1]
    refine ⟨hstep.finished.running id hid, hstates ▸ hopen, fun hend => ?_⟩
    · obtain ⟨st, hsome⟩ := Option.ne_none_iff_exists'.mp (hstep.unfinished h.serving hpresent.1)
      obtain ⟨inputs, hinputs, -, hremains, hended⟩ := hstep.heard.present id st hsome
      exact hnot (hended.mpr (hremains.trans (NativeRuntimeState.remains_of_hasEnd hinputs hend)))

/-! ## A tick does some of the work -/

theorem Going.submit (h : Going config r) {request : ChatRequest ρ F} {prompt : List Token}
    {s : NativeScheduler ρ σ φ}
    (hsubmit : r.scheduler.submit (schedulable request.textRequest prompt) = .ok s) :
    Going config { r.entered text request prompt with scheduler := s } := by
  obtain ⟨habsent, hflight, -, hpresent, hstates⟩ := NativeScheduler.submit_eq_ok hsubmit
  have hkept : ∀ id, r.scheduler.Present id → s.states id = r.scheduler.states id :=
    fun id hid => by
      rw [hstates, if_neg]
      exact fun heq => habsent (heq ▸ hid)
  have hrunning : s.running = r.scheduler.running := by
    rw [NativeScheduler.submit, if_neg habsent] at hsubmit
    obtain rfl := Except.ok.inj hsubmit
    rfl
  refine ⟨h.serving.submit hsubmit, fun id st hsome => ?_, fun id => ?_, fun step hstep => ?_,
    fun id hid hopen hnot => ?_⟩
  · dsimp only [entered] at hsome ⊢
    rw [Dict.get?_set] at hsome
    split at hsome
    · rename_i heq
      obtain rfl := Option.some.inj hsome
      rw [hstates, if_pos (show id = (schedulable request.textRequest prompt).requestId from heq)]
      exact ⟨rfl, rfl, rfl, rfl, fun hne => absurd rfl hne⟩
    · rename_i hne
      rw [hstates, if_neg (show ¬ id = (schedulable request.textRequest prompt).requestId from hne)]
      exact h.agrees id st hsome
  · dsimp only
    rw [hstates]
    split
    · exact Nat.zero_le _
    · exact h.paced.cursor id
  · obtain ⟨hne, hsuits⟩ := h.paced.flies step (hflight ▸ hstep)
    refine ⟨hne, fun r' hr' => ?_⟩
    dsimp only
    rw [hkept]
    · exact hsuits r' hr'
    · exact .inr ((h.serving.wf.inFlight step (hflight ▸ hstep)).running r' hr')
  · dsimp only at hid hopen hnot ⊢
    rw [hrunning] at hid
    rw [hkept id (.inr hid)] at hopen ⊢
    refine h.paced.ready id hid hopen ?_
    simpa only [NativeScheduler.inFlightIds, hflight] using hnot

theorem Going.cancel (h : Going config r) (id : ρ) (prefillTimeMs : ℕ) :
    Going config (r.cancel id prefillTimeMs).2 := by
  obtain ⟨hflight, -, -, hstates⟩ := NativeScheduler.cancel_eq id r.scheduler
  have hrunning : (r.scheduler.cancel id).2.running = r.scheduler.running := by
    rw [NativeScheduler.cancel]
    split <;> rfl
  have hagrees : ∀ {scheduled st}, Agrees scheduled st →
      Agrees (ρ := ρ) (δ := δ) { scheduled with cancelRequested := true } st := fun hagrees =>
    ⟨hagrees.work, hagrees.generatedTokens, hagrees.lastTokenId, hagrees.generationComplete,
      hagrees.length⟩
  refine ⟨h.serving.cancel id prefillTimeMs, fun id' st hsome => ?_,
    h.paced.of_sameWork hflight (fun id' => ?_) fun id' hid' hopen _ => ?_⟩
  · have hscheduled : ∃ st₀, r.requests.get? id' = some st₀ ∧
        Agrees (r.scheduler.states id') st := by
      rw [get?_cancel] at hsome
      split at hsome
      · rename_i heq
        subst heq
        obtain ⟨st₀, hst₀, rfl⟩ := Option.map_eq_some_iff.mp hsome
        have hagrees := h.agrees id' st₀ hst₀
        exact ⟨st₀, hst₀, hagrees.work, hagrees.generatedTokens, hagrees.lastTokenId,
          hagrees.generationComplete, hagrees.length⟩
      · exact ⟨st, hsome, h.agrees id' st hsome⟩
    obtain ⟨-, -, hscheduled⟩ := hscheduled
    rw [cancel_scheduler, hstates]
    split
    · exact hagrees hscheduled
    · exact hscheduled
  · rw [cancel_scheduler, hstates]
    split <;> rfl
  · rw [cancel_scheduler] at hid' hopen
    rw [hrunning] at hid'
    refine ⟨hid', ?_, fun hend => hend⟩
    rw [hstates] at hopen
    split at hopen
    · simp [ScheduledState.open] at hopen
    · exact hopen

/-- The work that is left of a request that stays does not grow; it shrinks if the request moves,
or only waits for its end. -/
theorem Step.cost (hstep : Step svc text config r events s ended output r') (h : Going config r)
    (hgoing : Going config r') (hpresent : r'.scheduler.Present id) :
    (r'.scheduler.states id).cost ≤ (r.scheduler.states id).cost ∧
      (r'.requests.get? id = none ∨ MovesOn (r.scheduler.states id) (s.states id)
          (tokensOf (eventsOf id events)) →
        (r'.scheduler.states id).cost < (r.scheduler.states id).cost) := by
  have hsome := hstep.unfinished h.serving ((hstep.finished.present id).mp hpresent).1
  have hfinish := ((h.serving.live id).mp hsome).2
  obtain ⟨st, hst⟩ := Option.ne_none_iff_exists'.mp hsome
  cases hst' : r'.requests.get? id with
  | none =>
    -- it waits for its end
    have hfinish' : (r'.scheduler.states id).finishRequested = true := by
      by_contra hnot
      exact (hgoing.serving.live id).mpr ⟨hpresent, Bool.eq_false_iff.mpr hnot⟩ hst'
    have hlt : (r'.scheduler.states id).cost < (r.scheduler.states id).cost := by
      simp only [ScheduledState.cost, hfinish', hfinish, if_true, Bool.false_eq_true, if_false]
      omega
    exact ⟨hlt.le, fun _ => hlt⟩
  | some st' =>
    obtain ⟨tokens, hcounts, hgoes, htokens⟩ := hstep.counts h.serving hst hst'
    obtain ⟨-, hstates, -⟩ := hstep.goesOn h.serving hsome (hst' ▸ Option.some_ne_none st')
    have hagrees := hgoing.agrees id st' hst'
    have hin : (r'.scheduler.states id).promptCursor ≤ (r'.scheduler.states id).promptLength :=
      hgoing.paced.cursor id
    have hlength : (r'.scheduler.states id).promptLength =
        (r.scheduler.states id).promptLength := by
      rw [ScheduledState.promptLength, hgoes.work]
      rfl
    have hgenerated := hgoes.generatedTokens
    rw [List.length_map] at hgenerated
    have hcursor := hgoes.promptCursor
    have hfinish' := hgoes.finishRequested.trans hfinish
    -- a token that does not end the request is not its last one
    have hbound : tokens ≠ [] → (r'.scheduler.states id).generatedTokens <
        (max 1 (r.scheduler.states id).work.maxTokens).toNat := by
      intro hne
      have hlt := hcounts.length hne
      have hmax : (r.scheduler.states id).work.maxTokens = st.request.maxTokens := by
        rw [(h.agrees id st hst).work]
        rfl
      rw [hagrees.generatedTokens, hmax]
      omega
    simp only [ScheduledState.cost, hfinish', hfinish, Bool.false_eq_true, if_false, hgoes.work,
      hlength] at hbound ⊢
    refine ⟨by omega, fun hmoves => ?_⟩
    rcases hmoves with hnone | hlt | hne
    · cases hnone
    · rw [← hstates] at hlt
      omega
    · have htokens' : tokens ≠ [] := fun hnil => hne (by rw [htokens, hnil]; rfl)
      have hpos := List.length_pos_iff.mpr htokens'
      have hlt := hbound htokens'
      omega

/-- The runtime is idle when the scheduler has no request. -/
theorem Going.idle_iff (h : Going config r) :
    r.idle = true ↔ ∀ id, ¬ r.scheduler.Present id := by
  simp only [idle, NativeScheduler.idle, Bool.and_eq_true, List.isEmpty_iff,
    Option.isNone_iff_eq_none]
  constructor
  · rintro ⟨⟨hwaiting, hrunning⟩, -⟩ id hid
    rw [NativeScheduler.Present, hwaiting, hrunning] at hid
    exact hid.elim List.not_mem_nil List.not_mem_nil
  · intro hnone
    refine ⟨⟨List.eq_nil_iff_forall_not_mem.mpr fun id hid => hnone id (.inl hid),
      List.eq_nil_iff_forall_not_mem.mpr fun id hid => hnone id (.inr hid)⟩, ?_⟩
    by_contra hne
    obtain ⟨step, hstep⟩ := Option.ne_none_iff_exists'.mp hne
    obtain ⟨r', hr'⟩ := List.exists_mem_of_ne_nil _ (h.paced.flies step hstep).1
    exact hnone _ (.inr ((h.serving.wf.inFlight step hstep).running r' hr'))

/-- Something of the work is done, or is in flight now. -/
theorem Step.progress (hstep : Step svc text config r events s ended output r')
    (h : Going config r) (hworked : NativeScheduler.Worked config r.scheduler events s)
    (hbusy : ∃ id, r.scheduler.Present id) :
    (r.scheduler.inFlight = none ∧ r'.scheduler.inFlight ≠ none) ∨
      ∃ id, r.scheduler.Present id ∧ (r'.scheduler.Present id → (r'.requests.get? id = none ∨
        MovesOn (r.scheduler.states id) (s.states id) (tokensOf (eventsOf id events)))) := by
  cases hflight : r.scheduler.inFlight with
  | some step =>
    -- what was in flight has landed
    obtain ⟨hne, hsuits⟩ := h.paced.flies step hflight
    obtain ⟨request, hrequest⟩ := List.exists_mem_of_ne_nil _ hne
    refine .inr ⟨request.requestId,
      .inr ((h.serving.wf.inFlight step hflight).running request hrequest), fun hpresent => ?_⟩
    by_cases hsome' : r'.requests.get? request.requestId = none
    · exact .inl hsome'
    · have hsome := hstep.unfinished h.serving ((hstep.finished.present _).mp hpresent).1
      obtain ⟨-, -, -, hmoves⟩ := hstep.goesOn h.serving hsome hsome'
      refine .inr (hmoves (NativeScheduler.mem_inFlightIds hflight hrequest) fun step' hstep' => ?_)
      obtain rfl := Option.some.inj (hflight.symm.trans hstep')
      exact NativeScheduler.planned_of_suits hsuits h.paced.cursor
  | none =>
    obtain ⟨id, hid⟩ := hbusy
    have hlive : ∀ id, r.scheduler.Present id →
        (r.scheduler.states id).finishRequested = false := by
      intro id hid
      refine Bool.eq_false_iff.mpr fun htrue => ?_
      have hin := h.serving.closing id hid htrue
      simp [NativeScheduler.inFlightIds, hflight] at hin
    have hgone : ∀ id, r.scheduler.Present id → HasEnd (eventsOf id events) →
        r'.requests.get? id = none := by
      intro id hid hend
      obtain ⟨st, hsome⟩ := Option.ne_none_iff_exists'.mp
        ((h.serving.live id).mpr ⟨hid, hlive id hid⟩)
      obtain ⟨inputs, hinputs, -, hremains, -⟩ := hstep.heard.present id st hsome
      exact hremains.trans (NativeRuntimeState.remains_of_hasEnd hinputs hend)
    cases hcancel : (r.scheduler.states id).cancelRequested with
    | true =>
      obtain ⟨first, rest, rfl, -, hend⟩ := hstep.ticked.cancelled id hid hcancel (hlive id hid)
      refine .inr ⟨id, hid, fun _ => .inl (hgone id hid ?_)⟩
      rw [eventsOf_append, hasEnd_append]
      exact .inl hend
    | false =>
      have hopen : (r.scheduler.states id).open = true := by
        rw [ScheduledState.open, hcancel, hlive id hid]
        rfl
      obtain ⟨st, hsome⟩ := Option.ne_none_iff_exists'.mp
        ((h.serving.live id).mpr ⟨hid, hlive id hid⟩)
      have hwork : id ∈ r.scheduler.running → (r.scheduler.states id).Selectable := by
        intro hr
        refine h.selectable hsome ((h.paced.ready id hr hopen ?_).resolve_left not_false)
        simp [NativeScheduler.inFlightIds, hflight]
      rcases hworked.works hflight id hid hopen hwork with hnow | ⟨id', hid', -, hdone⟩
      · exact .inl ⟨rfl, hstep.finished.inFlight ▸ hnow⟩
      · exact .inr ⟨id', hid', fun _ => hdone.imp_left (hgone id' hid')⟩

/-- **A tick does some of the work** that is left. -/
theorem Step.backlog_lt (hstep : Step svc text config r events s ended output r')
    (h : Going config r) (hgoing : Going config r')
    (hworked : NativeScheduler.Worked config r.scheduler events s)
    (hbusy : ∃ id, r.scheduler.Present id) : r'.scheduler.backlog < r.scheduler.backlog := by
  have hsub : r'.scheduler.ids ⊆ r.scheduler.ids := fun id hid =>
    NativeScheduler.mem_ids.mpr (hstep.ticked.present id
      ((hstep.finished.present id).mp (NativeScheduler.mem_ids.mp hid)).1)
  have hle : ∀ id ∈ r'.scheduler.ids,
      (r'.scheduler.states id).cost ≤ (r.scheduler.states id).cost := fun id hid =>
    (hstep.cost h hgoing (NativeScheduler.mem_ids.mp hid)).1
  have hpos : ∀ st : ScheduledState ρ, 0 < st.cost := by
    intro st
    rw [ScheduledState.cost]
    split <;> omega
  simp only [backlog]
  rcases hstep.progress h hworked hbusy with ⟨hnone, hsome⟩ | ⟨id, hid, hdone⟩
  · have hsum := Finset.sum_le_sum_of_subset (f := fun id => (r.scheduler.states id).cost) hsub
    have hsum' := Finset.sum_le_sum hle
    have hflies : r'.scheduler.inFlight.isNone = false :=
      Bool.eq_false_iff.mpr fun htrue => hsome (Option.isNone_iff_eq_none.mp htrue)
    rw [hflies, hnone]
    simp only [Option.isNone_none, if_true, Bool.false_eq_true, if_false]
    omega
  · have hsum := sum_lt_of_subset hsub hle ⟨id, NativeScheduler.mem_ids.mpr hid, fun hin =>
      (hstep.cost h hgoing (NativeScheduler.mem_ids.mp hin)).2
        (hdone (NativeScheduler.mem_ids.mp hin)), fun _ => hpos _⟩
    split <;> split <;> omega

/-! ## Draining -/

/-- A runtime with nothing left to do is idle. -/
theorem Going.idle_of_backlog (h : Going config r) (hzero : r.scheduler.backlog = 0) :
    r.idle = true := by
  refine h.idle_iff.mpr fun id hid => ?_
  have hsum : (r.scheduler.ids.sum fun id => (r.scheduler.states id).cost) = 0 := by
    simp only [backlog] at hzero
    omega
  have hcost := Finset.sum_eq_zero_iff.mp hsum id (NativeScheduler.mem_ids.mpr hid)
  rw [ScheduledState.cost] at hcost
  split at hcost <;> omega

/-- What a tick does to a runtime, busy or idle. -/
theorem Going.tick (h : Going config r) (hreuse : svc.ReusesPrompt)
    (heos : ∀ token ∈ config.terminalTokenIds, token ∈ text.eosTokenIds)
    (heq : r.tick svc text config = .ok (output, r')) :
    Going config r' ∧ (r.idle = true → r'.idle = true) ∧
      (r.idle = false → r'.scheduler.backlog < r.scheduler.backlog) := by
  obtain ⟨events, s, ended, hstep⟩ := h.serving.step_of_tick heq
  have hworked := h.serving.wf.tick_worked h.serving.serial hreuse h.paced hstep.tick
  have hgoing := hstep.going h heos hworked.paced
  refine ⟨hgoing, fun hidle => ?_, fun hbusy => hstep.backlog_lt h hgoing hworked ?_⟩
  · refine hgoing.idle_iff.mpr fun id hid => ?_
    exact h.idle_iff.mp hidle id (hstep.ticked.present id ((hstep.finished.present id).mp hid).1)
  · by_contra hnone
    rw [h.idle_iff.mpr (not_exists.mp hnone)] at hbusy
    cases hbusy

/-- Cancelling leaves the work as it is. -/
theorem backlog_cancel (id : ρ) (prefillTimeMs : ℕ) (r : NativeRuntime ρ σ φ δ) :
    (r.cancel id prefillTimeMs).2.scheduler.backlog = r.scheduler.backlog ∧
      (r.cancel id prefillTimeMs).2.idle = r.idle := by
  rw [idle, idle, cancel_scheduler, NativeScheduler.cancel]
  split
  · refine ⟨?_, rfl⟩
    simp only [backlog]
    refine congrArg (fun n => 2 * n + _) (Finset.sum_congr rfl fun id' _ => ?_)
    by_cases heq : id' = id
    · subst heq
      simp [ScheduledState.cost, ScheduledState.promptLength]
    · simp [heq]
  · exact ⟨rfl, rfl⟩

/-- Ticks and cancellations: the work gets less with every tick until the runtime is idle. -/
theorem Going.exec (h : Going config r) (hreuse : svc.ReusesPrompt)
    (heos : ∀ token ∈ config.terminalTokenIds, token ∈ text.eosTokenIds)
    {ops : List (NativeRuntimeOp ρ F)} (hops : ∀ op ∈ ops, op.isSubmit = false)
    (hexec : Run.exec (step svc config model text) (some r) ops = some r') :
    Going config r' ∧ (r.idle = true → r'.idle = true) ∧
      (r'.idle = true ∨ r'.scheduler.backlog + ops.countP NativeRuntimeOp.isTick ≤
        r.scheduler.backlog) := by
  induction ops generalizing r with
  | nil =>
      obtain rfl := Option.some.inj hexec
      exact ⟨h, fun hidle => hidle, .inr le_rfl⟩
  | cons op ops ih =>
      have hrest := fun op' hop' => hops op' (List.mem_cons_of_mem _ hop')
      cases op with
      | submit => cases hops _ List.mem_cons_self
      | cancel id prefillTimeMs =>
        obtain ⟨hgoing, hstays, hless⟩ := ih (h.cancel id prefillTimeMs) hrest hexec
        rw [(backlog_cancel id prefillTimeMs r).1] at hless
        rw [(backlog_cancel id prefillTimeMs r).2] at hstays
        exact ⟨hgoing, hstays, hless⟩
      | tick =>
        rw [Run.exec_cons] at hexec
        cases htick : r.tick svc text config with
        | error e =>
          simp only [step, htick, exec_none] at hexec
          cases hexec
        | ok ticked =>
          obtain ⟨output, r₁⟩ := ticked
          simp only [step, htick] at hexec
          obtain ⟨hgoing, hstays, hless⟩ := h.tick hreuse heos htick
          obtain ⟨hgoing', hstays', hless'⟩ := ih hgoing hrest hexec
          refine ⟨hgoing', fun hidle => hstays' (hstays hidle), ?_⟩
          cases hidle : r.idle with
          | true => exact .inl (hstays' (hstays hidle))
          | false =>
            refine hless'.imp_right fun hle => ?_
            have hlt := hless hidle
            rw [List.countP_cons_of_pos rfl]
            omega

/-- The loop that ticks until the runtime is idle ends. -/
theorem Going.drain (h : Going config r) (hreuse : svc.ReusesPrompt)
    (heos : ∀ token ∈ config.terminalTokenIds, token ∈ text.eosTokenIds) {fuel : ℕ}
    (hfuel : r.scheduler.backlog ≤ fuel) :
    ∃ said result, r.drain svc config text fuel = some (said, result) ∧
      ∀ r', result = .ok r' → r'.idle = true := by
  induction fuel generalizing r with
  | zero =>
      have hidle := h.idle_of_backlog (Nat.le_zero.mp hfuel)
      rw [NativeRuntime.drain, if_pos hidle]
      exact ⟨_, _, rfl, fun r' hr' => Except.ok.inj hr' ▸ hidle⟩
  | succ fuel ih =>
      rw [NativeRuntime.drain]
      cases hidle : r.idle with
      | true =>
        rw [if_pos rfl]
        exact ⟨_, _, rfl, fun r' hr' => Except.ok.inj hr' ▸ hidle⟩
      | false =>
        rw [if_neg Bool.false_ne_true]
        cases htick : r.tick svc text config with
        | error e => exact ⟨_, _, rfl, fun r' hr' => (by cases hr')⟩
        | ok ticked =>
          obtain ⟨output, r₁⟩ := ticked
          obtain ⟨hgoing, -, hless⟩ := h.tick hreuse heos htick
          have hfuel' : r₁.scheduler.backlog ≤ fuel := by
            have hlt := hless hidle
            omega
          obtain ⟨said, result, hdrain, hresult⟩ := ih hgoing hfuel'
          refine ⟨output ++ said, result, ?_, hresult⟩
          simp only [hdrain, Option.map_some]

/-- Every step of a run keeps the invariant. -/
theorem going_step (hreuse : svc.ReusesPrompt)
    (heos : ∀ token ∈ config.terminalTokenIds, token ∈ text.eosTokenIds)
    (w : Option (NativeRuntime ρ σ φ δ)) (op : NativeRuntimeOp ρ F)
    (h : ∀ r, w = some r → Going config r) (henters : Enters model text w op) :
    ∀ r, (step svc config model text w op).2 = some r → Going config r := by
  intro r' hr'
  cases w with
  | none => cases op <;> cases hr'
  | some r =>
    have hgoing := h r rfl
    cases op with
    | submit request profiled =>
      rcases submitRequest_of_enters hgoing.serving henters with
        ⟨e, hsubmit⟩ | ⟨prompt, s, -, -, hs, hsubmit⟩
      · simp only [step, hsubmit] at hr'
        exact Option.some.inj hr' ▸ hgoing
      · simp only [step, hsubmit] at hr'
        exact Option.some.inj hr' ▸ hgoing.submit hs
    | cancel id prefillTimeMs =>
      exact Option.some.inj hr' ▸ hgoing.cancel id prefillTimeMs
    | tick =>
      cases htick : r.tick svc text config with
      | error e =>
        simp only [step, htick] at hr'
        cases hr'
      | ok ticked =>
        simp only [step, htick] at hr'
        exact Option.some.inj hr' ▸ (hgoing.tick hreuse heos htick).1

/-- Every reachable runtime is going. -/
theorem going_after (hreuse : svc.ReusesPrompt)
    (heos : ∀ token ∈ config.terminalTokenIds, token ∈ text.eosTokenIds) {world : σ}
    {ops : List (NativeRuntimeOp ρ F)} (hops : AllEnter svc config model text world ops)
    (hr : after svc config model text world ops = some r) : Going config r := by
  have hinit : ∀ r, some ({ scheduler := .new world } : NativeRuntime ρ σ φ δ) = some r →
      Going config r := fun r hr => Option.some.inj hr ▸ going_new config world
  have hstep : ∀ (w : Option (NativeRuntime ρ σ φ δ)) (op : NativeRuntimeOp ρ F),
      (∀ r, w = some r → Going config r) → Enters model text w op →
        ∀ r, (step svc config model text w op).2 = some r → Going config r :=
    going_step hreuse heos
  exact Run.exec_invariant hstep hinit hops r hr

/-! ## The results -/

theorem reusesPrompt_scripted : SchedulerCaller.scripted.ReusesPrompt := by
  intro id prompt probe world admission world' h
  obtain ⟨hok, -⟩ := Prod.mk.inj h
  obtain rfl := Except.ok.inj hok
  exact Nat.zero_le _

theorem defaultBatchSize_pos : 0 < 4 := by decide

theorem defaultStepSize_pos : 0 < 256 := by decide

/-- A request that decodes while it is cancelled. -/
def decodingRun : List (NativeRuntimeOp ℕ Unit) := [.submit longRequest (.ok ()), .tick, .tick]

theorem allEnter_decodingRun : AllEnter SchedulerCaller.scripted { overlap := true }
    countingModel letterTokenizer [] decodingRun :=
  ⟨fun r prompt hr _ => .inl ⟨rfl, by cases hr; decide⟩, trivial, trivial, trivial⟩

/-- The runtime, with the step of the request in flight. -/
def decodingRuntime : NativeRuntime ℕ (List Bool) (ExecutionBatch ℕ) Unit :=
  (after SchedulerCaller.scripted
    { overlap := true
      prefillBatchSize_pos := defaultBatchSize_pos
      prefillStepSize_pos := defaultStepSize_pos }
    countingModel letterTokenizer [] decodingRun).get rfl

/-- The request is ticked until it has its response. -/
def finishedRun : List (NativeRuntimeOp ℕ Unit) :=
  [.submit longRequest (.ok ()), .tick, .tick, .tick, .tick, .tick, .tick]

theorem allEnter_finishedRun : AllEnter SchedulerCaller.scripted { overlap := true }
    countingModel letterTokenizer [] finishedRun :=
  ⟨fun r prompt hr _ => .inl ⟨rfl, by cases hr; decide⟩, trivial, trivial, trivial, trivial,
    trivial, trivial, trivial⟩

/-- The response to the request, with four letters. -/
def finishedResponse : TextResponse ℕ where
  requestId := 1
  text := ['a', 'a', 'a', 'a']
  finishReason := .length
  promptTokens := 1
  completionTokens := 4
  promptCacheHit := false
  cachedTokens := none
  promptBatchSize := some 1
  decodeBatchSize := some 1
  schedulerStage := "completed"
  cancellationStage := none
  counters := {}

end NativeRuntime

end MlxRuntime
