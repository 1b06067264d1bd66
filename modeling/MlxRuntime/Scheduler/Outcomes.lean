import MlxRuntime.Scheduler.Caller

/-!
# What a tick does to one request

A tick ends a request, and says so, or the request goes on with the tokens that the events of the
tick name.  This is so in both modes, whatever raises, and in whatever order an overlapping tick
says its events.

## Main definitions

* `tokensOf`, `HasEnd`, `EndsFirst` — the tokens and the ends among events.
* `FinishedAll` — requests that were finished.
* `GoesOn` — a request that goes on, with its new tokens.
* `MovesOn` — a chunk of the prompt was run, or a token was generated.
* `Fits`, `Planned` — selected work that still fits the states it was selected for.
* `Outcome` — a request was ended, or goes on.
* `Ticked`, `Wf.tick_outcome` — the outcome of a tick for each request.
-/

namespace MlxRuntime

variable {ρ σ π φ : Type}

/-- The tokens that events say. -/
def tokensOf (events : List (SchedulerEvent ρ)) : List (Option Token) :=
  events.filterMap fun
    | .token _ token _ _ _ => some token
    | _ => none

/-- One of the events is an end. -/
def HasEnd (events : List (SchedulerEvent ρ)) : Prop := ∃ e ∈ events, e.isTerminal = true

@[simp] theorem tokensOf_append (events events' : List (SchedulerEvent ρ)) :
    tokensOf (events ++ events') = tokensOf events ++ tokensOf events' :=
  List.filterMap_append

theorem tokensOf_eq_nil {events : List (SchedulerEvent ρ)}
    (h : ∀ e ∈ events, e.isToken = false) : tokensOf events = [] := by
  refine List.filterMap_eq_nil_iff.mpr fun e he => ?_
  have hnot := h e he
  cases e <;> first | rfl | cases hnot

theorem tokensOf_eventsOf_eq_nil [DecidableEq ρ] {events : List (SchedulerEvent ρ)}
    (h : ∀ e ∈ events, e.isToken = false) (id : ρ) : tokensOf (eventsOf id events) = [] :=
  tokensOf_eq_nil fun e he => h e (List.mem_of_mem_filter he)

theorem hasEnd_append {events events' : List (SchedulerEvent ρ)} :
    HasEnd (events ++ events') ↔ HasEnd events ∨ HasEnd events' := by
  simp only [HasEnd, List.mem_append, or_and_right, exists_or]

/-- A request ends before any token is said. -/
def EndsFirst [DecidableEq ρ] (id : ρ) (events : List (SchedulerEvent ρ)) : Prop :=
  ∃ first rest, events = first ++ rest ∧ (∀ e ∈ first, e.isToken = false) ∧
    HasEnd (eventsOf id first)

/-- A request that goes on, with these tokens. -/
structure GoesOn (config : SchedulerConfig) (st st' : ScheduledState ρ)
    (tokens : List (Option Token)) : Prop where
  work : st'.work = st.work
  cancelRequested : st'.cancelRequested = st.cancelRequested
  finishRequested : st'.finishRequested = st.finishRequested
  promptCursor : st.promptCursor ≤ st'.promptCursor
  generatedTokens : st'.generatedTokens = st.generatedTokens + tokens.length
  lastTokenId : st'.lastTokenId = tokens.getLast?.getD st.lastTokenId
  generationComplete : st'.generationComplete =
    match tokens.getLast? with
    | none => st.generationComplete
    | some token =>
        if config.overlap then
          st.work.maxTokens ≤ st'.generatedTokens ||
            token.any fun token => token ∈ config.terminalTokenIds
        else st.generationComplete

namespace GoesOn

variable {config : SchedulerConfig} {st st' st'' : ScheduledState ρ}
  {tokens tokens' : List (Option Token)}

theorem refl (config : SchedulerConfig) (st : ScheduledState ρ) : GoesOn config st st [] :=
  ⟨rfl, rfl, rfl, le_rfl, rfl, rfl, rfl⟩

theorem trans (h : GoesOn config st st' tokens) (h' : GoesOn config st' st'' tokens') :
    GoesOn config st st'' (tokens ++ tokens') where
  work := h'.work.trans h.work
  cancelRequested := h'.cancelRequested.trans h.cancelRequested
  finishRequested := h'.finishRequested.trans h.finishRequested
  promptCursor := h.promptCursor.trans h'.promptCursor
  generatedTokens := by
    rw [h'.generatedTokens, h.generatedTokens, List.length_append, Nat.add_assoc]
  lastTokenId := by
    rw [h'.lastTokenId, h.lastTokenId, List.getLast?_append]
    cases tokens'.getLast? <;> rfl
  generationComplete := by
    have hsecond := h'.generationComplete
    rw [List.getLast?_append]
    cases hlast : tokens'.getLast? with
    | none =>
      obtain rfl := List.getLast?_eq_none_iff.mp hlast
      have hsame : st''.generatedTokens = st'.generatedTokens := h'.generatedTokens
      rw [hlast] at hsecond
      rw [Option.none_or, hsame]
      exact hsecond.trans h.generationComplete
    | some token =>
      rw [hlast] at hsecond
      rw [Option.some_or, hsecond, h.work]
      dsimp only
      split
      · rfl
      · rename_i hserial
        rw [h.generationComplete]
        split <;> simp [hserial]

/-- Nothing of it has moved. -/
theorem of_eq (config : SchedulerConfig) (hwork : st'.work = st.work)
    (hcancel : st'.cancelRequested = st.cancelRequested)
    (hfinish : st'.finishRequested = st.finishRequested)
    (hcursor : st.promptCursor ≤ st'.promptCursor)
    (hgenerated : st'.generatedTokens = st.generatedTokens)
    (hlast : st'.lastTokenId = st.lastTokenId)
    (hcomplete : st'.generationComplete = st.generationComplete) : GoesOn config st st' [] :=
  ⟨hwork, hcancel, hfinish, hcursor, hgenerated, hlast, hcomplete⟩

end GoesOn

/-- A chunk of the prompt was run, or a token was generated. -/
def MovesOn (st st' : ScheduledState ρ) (tokens : List (Option Token)) : Prop :=
  st.promptCursor < st'.promptCursor ∨ tokens ≠ []

namespace NativeScheduler

variable [DecidableEq ρ] {svc : SchedulerServices ρ σ π φ} {config : SchedulerConfig}
  {s s' : NativeScheduler ρ σ φ} {id : ρ} {protectedIds : List ρ}

/-! ## Requests that come and leave -/

/-- What `submit` does to a request. -/
theorem submit_eq_ok {request : SchedulableRequest ρ} (h : s.submit request = .ok s') :
    ¬ s.Present request.requestId ∧ s'.inFlight = s.inFlight ∧ s'.world = s.world ∧
      (∀ id, s'.Present id ↔ id = request.requestId ∨ s.Present id) ∧
      ∀ id, s'.states id = if id = request.requestId then
        { work := request, arrivalOrder := s.arrivalCounter + 1 } else s.states id := by
  rw [submit] at h
  split at h
  · cases h
  rename_i habsent
  obtain rfl := Except.ok.inj h
  refine ⟨habsent, rfl, rfl, fun id => ?_, fun id => ?_⟩
  · simp only [Present, List.mem_append, List.mem_singleton]
    exact or_right_comm.trans or_comm
  · exact Function.update_apply _ _ _ _

/-- What `cancel` does to a request. -/
theorem cancel_eq (id : ρ) (s : NativeScheduler ρ σ φ) :
    (s.cancel id).2.inFlight = s.inFlight ∧ (s.cancel id).2.world = s.world ∧
      (∀ x, (s.cancel id).2.Present x ↔ s.Present x) ∧
      ∀ x, (s.cancel id).2.states x = if x = id ∧ s.Present id then
        { s.states x with cancelRequested := true } else s.states x := by
  rw [cancel]
  split
  · rename_i hpresent
    refine ⟨rfl, rfl, fun _ => Iff.rfl, fun x => ?_⟩
    by_cases hx : x = id
    · subst hx
      simp [hpresent]
    · simp [hx]
  · rename_i habsent
    exact ⟨rfl, rfl, fun _ => Iff.rfl, fun x => (if_neg fun h => habsent h.2).symm⟩

theorem present_leave {ids : List ρ} (h : s.leave svc ids = .ok s') :
    s'.Present id ↔ s.Present id ∧ id ∉ ids := by
  obtain ⟨world, rfl⟩ := leave_eq_ok h
  simp only [Present, List.mem_filter, decide_eq_true_eq]
  exact or_and_right.symm

/-- Who is finished and not protected leaves. -/
theorem Wf.reapFinished (h : s.Wf) (hprotected : ∀ id ∈ s.inFlightIds, id ∈ protectedIds)
    (heq : NativeScheduler.reapFinished svc protectedIds s = .ok s') :
    s'.Wf ∧ Reaped s s' ∧ ∀ id, s'.Present id ↔
      s.Present id ∧ ((s.states id).finishRequested = true → id ∈ protectedIds) := by
  obtain ⟨hwaiting, hrunning, -⟩ := List.nodup_append.mp h.nodup
  rw [NativeScheduler.reapFinished, reapFinishedFrom_eq _ hwaiting hrunning] at heq
  refine ⟨h.leave (fun id hid hflight => ?_) heq, reaped_of_leave heq, fun id => ?_⟩
  · have hnot := (List.mem_filter.mp hid).2
    simp [hprotected id hflight] at hnot
  · rw [present_leave heq, List.mem_filter, List.mem_append, ← Present, Bool.and_eq_true,
      decide_eq_true_eq]
    tauto

/-- Who is cancelled and not protected leaves, and this is said. -/
theorem Wf.reapCancelled {events : List (SchedulerEvent ρ)} (h : s.Wf)
    (hprotected : ∀ id ∈ s.inFlightIds, id ∈ protectedIds)
    (heq : NativeScheduler.reapCancelled svc protectedIds s = .ok (events, s')) :
    s'.Wf ∧ Reaped s s' ∧
      (∀ id, s'.Present id ↔
        s.Present id ∧ ((s.states id).cancelRequested = true → id ∈ protectedIds)) ∧
      (∀ e ∈ events, e.isToken = false) ∧
      ∀ id, s.Present id → (s.states id).cancelRequested = true → id ∉ protectedIds →
        HasEnd (eventsOf id events) := by
  obtain ⟨hwaiting, hrunning, -⟩ := List.nodup_append.mp h.nodup
  rw [NativeScheduler.reapCancelled, reapCancelledFrom_eq _ h.nodup hwaiting hrunning] at heq
  generalize hids : ((s.waiting ++ s.running).filter fun id =>
    (s.states id).cancelRequested && id ∉ protectedIds) = ids at heq
  have hmem : ∀ id, id ∈ ids ↔ s.Present id ∧ (s.states id).cancelRequested = true ∧
      id ∉ protectedIds := by
    intro id
    rw [← hids, List.mem_filter, List.mem_append, Bool.and_eq_true, decide_eq_true_eq]
    rfl
  cases hleave : s.leave svc ids with
  | error e =>
    rw [hleave] at heq
    cases heq
  | ok s₁ =>
    rw [hleave] at heq
    obtain ⟨rfl, rfl⟩ := Prod.mk.inj (Except.ok.inj heq)
    refine ⟨h.leave (fun id hid hflight => ((hmem id).mp hid).2.2 (hprotected id hflight)) hleave,
      reaped_of_leave hleave, fun id => ?_, fun e he => ?_, fun id hpresent hcancel hnot => ?_⟩
    · rw [present_leave hleave, hmem]
      tauto
    · obtain ⟨x, -, rfl⟩ := List.mem_map.mp he
      rfl
    · refine ⟨.cancelled id (s.cancellationStage id), List.mem_filter.mpr ⟨?_, ?_⟩, rfl⟩
      · exact List.mem_map_of_mem ((hmem id).mpr ⟨hpresent, hcancel, hnot⟩)
      · exact decide_eq_true rfl

/-- Requests were finished: those in flight wait for the end of their step, the others left. -/
structure FinishedAll (ids : List ρ) (s s' : NativeScheduler ρ σ φ) : Prop where
  wf : s'.Wf
  inFlight : s'.inFlight = s.inFlight
  running : ∀ id ∈ s'.running, id ∈ s.running
  present : ∀ id, s'.Present id ↔ s.Present id ∧ (id ∈ ids → id ∈ s.inFlightIds)
  states : ∀ id, s'.states id =
    if id ∈ ids ∧ id ∈ s.inFlightIds then { s.states id with finishRequested := true }
    else s.states id

omit [DecidableEq ρ] in
theorem Wf.present_of_inFlight (h : s.Wf) (hid : id ∈ s.inFlightIds) : s.Present id := by
  rw [inFlightIds] at hid
  split at hid
  · rename_i step hstep
    obtain ⟨r, hr, rfl⟩ := List.mem_map.mp hid
    exact .inr ((h.inFlight step hstep).running r hr)
  · cases hid

theorem Wf.finish (h : s.Wf) (heq : s.finish svc id = .ok s') : FinishedAll [id] s s' := by
  rw [h.finish_eq] at heq
  split at heq
  · rename_i hflight
    rw [if_pos (h.present_of_inFlight hflight)] at heq
    obtain rfl := Except.ok.inj heq
    refine ⟨h.modify (f := fun st => { st with finishRequested := true }) id fun _ =>
      ⟨rfl, rfl, rfl, rfl, rfl⟩, rfl, fun _ hx => hx, fun x => ?_, fun x => ?_⟩
    · exact (and_iff_left fun hx => List.mem_singleton.mp hx ▸ hflight).symm
    · by_cases hx : x = id
      · subst hx
        simp [hflight]
      · simp [hx]
  · rename_i hflight
    have hnot : ∀ x, ¬ (x ∈ [id] ∧ x ∈ s.inFlightIds) := fun x hx =>
      hflight (List.mem_singleton.mp hx.1 ▸ hx.2)
    split at heq
    · refine ⟨h.leave (fun x hx => List.mem_singleton.mp hx ▸ hflight) heq,
        (reaped_of_leave heq).inFlight, (reaped_of_leave heq).running, fun x => ?_, fun x => ?_⟩
      · rw [present_leave heq]
        exact and_congr_right fun _ => ⟨fun hx hmem => absurd hmem hx, fun hx hmem =>
          hnot x ⟨hmem, hx hmem⟩⟩
      · rw [if_neg (hnot x), (reaped_of_leave heq).states]
    · rename_i habsent
      obtain rfl := Except.ok.inj heq
      refine ⟨h, rfl, fun _ hx => hx, fun x => ⟨fun hx => ⟨hx, fun hmem => ?_⟩, And.left⟩,
        fun x => ?_⟩
      · exact absurd (List.mem_singleton.mp hmem ▸ hx) habsent
      · rw [if_neg (hnot x)]

theorem Wf.finishAll {ids : List ρ} (h : s.Wf)
    (heq : NativeScheduler.finishAll svc ids s = .ok s') : FinishedAll ids s s' := by
  induction ids generalizing s with
  | nil =>
      obtain rfl := Except.ok.inj heq
      exact ⟨h, rfl, fun _ hid => hid, fun id => (and_iff_left fun hid => absurd hid List.not_mem_nil).symm,
        fun id => (if_neg fun hid => List.not_mem_nil hid.1).symm⟩
  | cons id ids ih =>
      obtain ⟨s₁, hfinish, heq⟩ := bind_eq_ok heq
      have hfirst := h.finish hfinish
      have hrest := ih hfirst.wf heq
      have hids : s₁.inFlightIds = s.inFlightIds := by
        simp only [inFlightIds, hfirst.inFlight]
      refine ⟨hrest.wf, hrest.inFlight.trans hfirst.inFlight,
        fun x hx => hfirst.running x (hrest.running x hx), fun x => ?_, fun x => ?_⟩
      · rw [hrest.present, hfirst.present, hids, List.mem_singleton, List.mem_cons, and_assoc,
          or_imp]
      · rw [hrest.states, hfirst.states, hids]
        by_cases hx : x ∈ s.inFlightIds
        · by_cases hid : x = id
          · subst hid
            simp only [List.mem_cons, true_or, hx, and_self, if_true]
            split <;> rfl
          · have hnot : x ∉ [id] := fun hmem => hid (List.mem_singleton.mp hmem)
            simp only [List.mem_cons, hid, hx, hnot, and_true, false_or, if_false]
        · simp only [hx, and_false, if_false]

/-! ## Results -/

omit [DecidableEq ρ] in
theorem not_terminal_resultEvents {result : StepResult ρ} {request : ExecutionRequest ρ}
    {item : StepRequestResult ρ} {st : ScheduledState ρ} :
    ∀ e ∈ resultEvents result request item st, e.isTerminal = false := by
  intro e he
  simp only [resultEvents] at he
  split at he
  · split at he
    · rcases List.mem_cons.mp he with rfl | he
      · rfl
      · exact List.mem_singleton.mp he ▸ rfl
    · exact List.mem_singleton.mp he ▸ rfl
  · exact List.mem_singleton.mp he ▸ rfl

omit [DecidableEq ρ] in
/-- A result that counts moves the request on, by the tokens of its events. -/
theorem goesOn_applyResult (result : StepResult ρ) (request : ExecutionRequest ρ)
    (item : StepRequestResult ρ) (st : ScheduledState ρ) :
    GoesOn config st (applyResult config request item st)
      (tokensOf (resultEvents result request item (applyResult config request item st))) := by
  cases hphase : request.phase with
  | decode =>
    simp only [applyResult, resultEvents, hphase]
    exact ⟨rfl, rfl, rfl, le_rfl, rfl, rfl, rfl⟩
  | prefill =>
    simp only [applyResult, resultEvents, hphase, ScheduledState.promptLength]
    by_cases hend : st.promptCursor + request.tokenIds.length = st.work.promptTokenIds.length
    · simp only [hend, if_true, markGenerated, decide_true]
      refine ⟨rfl, rfl, rfl, ?_, rfl, rfl, rfl⟩
      exact hend ▸ Nat.le_add_right _ _
    · simp only [hend, if_false, decide_false]
      exact ⟨rfl, rfl, rfl, Nat.le_add_right _ _, rfl, rfl, rfl⟩

/-- The request for the next token. -/
def decodeRequest (token : Token) (st : ScheduledState ρ) : ExecutionRequest ρ where
  requestId := st.work.requestId
  phase := .decode
  tokenIds := [token]
  positions := [st.cacheLength]
  cacheHandle := st.cacheHandle

/-- The request is the work that its state has next. -/
def Fits (config : SchedulerConfig) (request : ExecutionRequest ρ) (st : ScheduledState ρ) : Prop :=
  request = prefillWork config st ∨
    ∃ token, st.lastTokenId = some token ∧ request = decodeRequest token st

omit [DecidableEq ρ] in
theorem length_prefillWork (config : SchedulerConfig) (st : ScheduledState ρ) :
    (prefillWork config st).tokenIds.length =
      min st.promptLength (st.promptCursor + config.prefillStepSize) - st.promptCursor := by
  simp only [prefillWork, List.length_drop, List.length_take, ScheduledState.promptLength]
  omega

omit [DecidableEq ρ] in
/-- The next work of a request moves it. -/
theorem movesOn_applyResult (result : StepResult ρ) {request : ExecutionRequest ρ}
    (item : StepRequestResult ρ) {st : ScheduledState ρ} (hfits : Fits config request st)
    (hcursor : st.promptCursor ≤ st.promptLength) :
    MovesOn st (applyResult config request item st)
      (tokensOf (resultEvents result request item (applyResult config request item st))) := by
  rcases hfits with rfl | ⟨token, -, rfl⟩
  · have hstep := config.prefillStepSize_pos
    have hlength := length_prefillWork config st
    have hphase : (prefillWork config st).phase = .prefill := rfl
    simp only [applyResult, resultEvents, hphase]
    generalize (prefillWork config st).tokenIds.length = n at hlength ⊢
    rw [ScheduledState.promptLength] at hcursor hlength
    by_cases hend : st.promptCursor + n = st.work.promptTokenIds.length
    · simp only [ScheduledState.promptLength, hend, if_true, markGenerated, decide_true]
      exact .inr (List.cons_ne_nil _ _)
    · simp only [ScheduledState.promptLength, hend, if_false]
      refine .inl (Nat.lt_add_of_pos_right ?_)
      omega
  · exact .inr (List.cons_ne_nil _ _)

/-- The result of a request ends it or moves it on. -/
theorem goesOn_advanced (result : StepResult ρ) (request : ExecutionRequest ρ)
    (st : ScheduledState ρ) :
    HasEnd (outcomeEvents config result request st) ∨
      GoesOn config st (advanced config result request st)
        (tokensOf (outcomeEvents config result request st)) ∧
      (st.open = true → Fits config request st → st.promptCursor ≤ st.promptLength →
        MovesOn st (advanced config result request st)
          (tokensOf (outcomeEvents config result request st))) := by
  simp only [outcomeEvents, advanced]
  by_cases hopen : st.open = true
  · simp only [hopen, if_true]
    cases judge result request with
    | error failure => exact .inl ⟨_, List.mem_singleton_self _, rfl⟩
    | ok item =>
      exact .inr ⟨goesOn_applyResult result request item st, fun _ =>
        movesOn_applyResult result item⟩
  · simp only [if_neg hopen]
    exact .inr ⟨.refl config st, fun htrue => absurd htrue hopen⟩

/-- Selected work that fits the states of its requests, none of which is behind its prompt. -/
structure Planned (config : SchedulerConfig) (states : ρ → ScheduledState ρ)
    (selected : List (ExecutionRequest ρ)) : Prop where
  fits : ∀ r ∈ selected, Fits config r (states r.requestId)
  cursor : ∀ r ∈ selected, (states r.requestId).promptCursor ≤ (states r.requestId).promptLength

variable (config) in
/-- A result ends each request, or moves it on. -/
theorem goesOn_advancedStates {selected : List (ExecutionRequest ρ)}
    (hnodup : (selected.map ExecutionRequest.requestId).Nodup) (result : StepResult ρ)
    (states : ρ → ScheduledState ρ) (id : ρ) :
    HasEnd (eventsOf id (selected.flatMap fun r =>
        outcomeEvents config result r (states r.requestId))) ∨
      GoesOn config (states id) (advancedStates config result selected states id)
        (tokensOf (eventsOf id (selected.flatMap fun r =>
          outcomeEvents config result r (states r.requestId)))) ∧
      ((states id).open = true → Planned config states selected →
        id ∈ selected.map ExecutionRequest.requestId →
        MovesOn (states id) (advancedStates config result selected states id)
          (tokensOf (eventsOf id (selected.flatMap fun r =>
            outcomeEvents config result r (states r.requestId))))) := by
  by_cases hid : id ∈ selected.map ExecutionRequest.requestId
  · obtain ⟨r, hr, rfl⟩ := List.mem_map.mp hid
    rw [eventsOf_flatMap_of_mem hnodup (fun r _ => requestId_outcomeEvents) hr,
      advancedStates_of_mem hnodup hr]
    refine (goesOn_advanced result r (states r.requestId)).imp_right fun hgoes =>
      ⟨hgoes.1, fun hopen hplanned _ => hgoes.2 hopen (hplanned.fits r hr) (hplanned.cursor r hr)⟩
  · rw [eventsOf_flatMap_of_notMem (fun r _ => requestId_outcomeEvents) hid,
      advancedStates_of_notMem hid]
    exact .inr ⟨.refl config (states id), fun _ _ hmem => absurd hmem hid⟩

/-! ## Selection -/

variable (config) in
/-- A request moves only by being given a cache. -/
theorem Wf.goesOn_selectWork (h : s.Wf) {selected : List (ExecutionRequest ρ)}
    (heq : s.selectWork svc config = .ok (selected, s')) :
    (∀ id, GoesOn config (s.states id) (s'.states id) []) ∧
      ∀ id, s'.Present id ↔ s.Present id := by
  have hframe := h.selectFrame heq
  obtain ⟨probes, ids, admissions, world, -, hmem, rfl, -⟩ := selectWork_eq_ok h.nodup
    (fun id hid => (h.waiting id hid).cacheHandle) h.running heq
  refine ⟨fun id => ?_, fun id => ⟨hframe.present id, fun hid => ?_⟩⟩
  · have hkept := hframe.kept id
    refine .of_eq config hkept.work hkept.cancelRequested hkept.finishRequested ?_
      hkept.generatedTokens hkept.lastTokenId hkept.generationComplete
    by_cases hw : id ∈ s.waiting
    · rw [(h.waiting id hw).promptCursor]
      exact Nat.zero_le _
    · exact (hframe.prompt id hw).1.ge
  · rcases hid with hw | hr
    · by_cases hin : id ∈ ids
      · refine .inr (List.mem_append_right _ (List.mem_filter.mpr ⟨hin, ?_⟩))
        exact decide_eq_true hw
      · exact .inl (List.mem_filter.mpr ⟨hw, decide_eq_true hin⟩)
    · exact .inr (List.mem_append_left _ hr)

/-! ## What happens to a request over the parts of a tick -/

/-- So far, a request was ended, or it is there and goes on, and has moved if it had to. -/
def Outcome (config : SchedulerConfig) (st : ScheduledState ρ) (s : NativeScheduler ρ σ φ)
    (id : ρ) (tokens : List (Option Token)) (ended moved : Prop) : Prop :=
  ended ∨ s.Present id ∧ GoesOn config st (s.states id) tokens ∧
    (moved → MovesOn st (s.states id) tokens)

variable {st : ScheduledState ρ} {tokens tokens' : List (Option Token)}
  {ended ended' moved moved' : Prop}

omit [DecidableEq ρ] in
theorem Outcome.imp (h : Outcome config st s id tokens ended moved) (hended : ended → ended')
    (hmoved : moved' → moved) : Outcome config st s id tokens ended' moved' :=
  Or.imp hended (fun hgoes => ⟨hgoes.1, hgoes.2.1, fun hmove => hgoes.2.2 (hmoved hmove)⟩) h

omit [DecidableEq ρ] in
/-- The next part of the tick. -/
theorem Outcome.next (h : Outcome config st s id tokens ended moved)
    (hnext : s.Present id → (s.states id).finishRequested = st.finishRequested →
      Outcome config (s.states id) s' id tokens' ended' moved') :
    Outcome config st s' id (tokens ++ tokens') (ended ∨ ended') (moved ∨ moved') := by
  rcases h with hended | ⟨hpresent, hgoes, hmoves⟩
  · exact .inl (.inl hended)
  rcases hnext hpresent hgoes.finishRequested with hended | ⟨hpresent', hgoes', hmoves'⟩
  · exact .inl (.inr hended)
  refine .inr ⟨hpresent', hgoes.trans hgoes', fun hmove => ?_⟩
  rcases hmove with hmove | hmove
  · rcases hmoves hmove with hlt | hne
    · exact .inl (hlt.trans_le hgoes'.promptCursor)
    · exact .inr (List.append_ne_nil_of_left_ne_nil hne _)
  · rcases hmoves' hmove with hlt | hne
    · exact .inl (hgoes.promptCursor.trans_lt hlt)
    · exact .inr (List.append_ne_nil_of_right_ne_nil _ hne)

omit [DecidableEq ρ] in
theorem Outcome.of_goesOn (hpresent : s.Present id)
    (hgoes : GoesOn config st (s.states id) tokens) :
    Outcome config st s id tokens ended False :=
  .inr ⟨hpresent, hgoes, False.elim⟩

omit [DecidableEq ρ] in
variable (config) in
/-- A request that does not leave, in states that do not change. -/
theorem Outcome.of_reaped (hreaped : Reaped s s') (hpresent : s'.Present id) :
    Outcome config (s.states id) s' id [] ended False :=
  .of_goesOn hpresent (hreaped.states ▸ .refl config _)

variable (config) in
theorem Wf.outcome_reapFinished (h : s.Wf)
    (hprotected : ∀ id ∈ s.inFlightIds, id ∈ protectedIds)
    (heq : NativeScheduler.reapFinished svc protectedIds s = .ok s') (hid : s.Present id)
    (hfinish : (s.states id).finishRequested = false) :
    Outcome config (s.states id) s' id [] False False := by
  obtain ⟨-, hreaped, hpresent⟩ := h.reapFinished hprotected heq
  refine .of_reaped config hreaped ((hpresent id).mpr ⟨hid, fun htrue => ?_⟩)
  exact absurd (htrue.symm.trans hfinish) Bool.false_ne_true.symm

variable (config) in
theorem Wf.outcome_reapCancelled {events : List (SchedulerEvent ρ)} (h : s.Wf)
    (hprotected : ∀ id ∈ s.inFlightIds, id ∈ protectedIds)
    (heq : NativeScheduler.reapCancelled svc protectedIds s = .ok (events, s'))
    (hid : s.Present id) :
    Outcome config (s.states id) s' id [] (HasEnd (eventsOf id events)) False := by
  obtain ⟨-, hreaped, hpresent, -, hends⟩ := h.reapCancelled hprotected heq
  by_cases hleaves : (s.states id).cancelRequested = true ∧ id ∉ protectedIds
  · exact .inl (hends id hid hleaves.1 hleaves.2)
  · refine .of_reaped config hreaped ((hpresent id).mpr ⟨hid, fun htrue => ?_⟩)
    by_contra hnot
    exact hleaves ⟨htrue, hnot⟩

/-! ## An overlapping tick -/

omit [DecidableEq ρ] in
theorem Wf.landed (h : s.Wf) (world : σ) :
    Wf ({ s with world := world, inFlight := none } : NativeScheduler ρ σ φ) :=
  ⟨h.nodup, h.key, h.waiting, h.running, h.staged, fun _ hstep => (by cases hstep)⟩

theorem Wf.markFinished (h : s.Wf) (selected : List (ExecutionRequest ρ)) :
    (s.markFinished selected).Wf := by
  rw [markFinished_eq]
  refine h.of_states fun id => ?_
  split <;> exact ⟨rfl, rfl, rfl, rfl, rfl⟩

omit [DecidableEq ρ] in
theorem not_token_emitFailures {selected : List (ExecutionRequest ρ)} {e : PyError} :
    ∀ event ∈ emitFailures selected e, event.isToken = false := by
  intro event hevent
  obtain ⟨r, -, rfl⟩ := List.mem_map.mp hevent
  rfl

variable (config) in
/-- A batch that raises ends its requests; nothing else has changed. -/
theorem outcome_markFinished {selected : List (ExecutionRequest ρ)} {e : PyError}
    (hnodup : (selected.map ExecutionRequest.requestId).Nodup) (hid : s.Present id) :
    Outcome config (s.states id) (s.markFinished selected) id []
      (HasEnd (eventsOf id (emitFailures selected e)))
      (id ∈ selected.map ExecutionRequest.requestId) := by
  rcases eventsOf_emitFailures hnodup e id with ⟨hnot, -⟩ | ⟨-, event, hterminal, hevents⟩
  · refine .inr ⟨?_, ?_, fun hmem => absurd hmem hnot⟩
    · rw [markFinished_eq]
      exact hid
    · simp only [markFinished_eq, if_neg hnot]
      exact .refl config _
  · rw [hevents]
    exact .inl ⟨event, List.mem_singleton_self _, hterminal⟩

theorem not_terminal_acceptedEvents {result : StepResult ρ} {request : ExecutionRequest ρ}
    {st st' : ScheduledState ρ} :
    ∀ e ∈ acceptedEvents result request st st', e.isTerminal = false := by
  intro e he
  simp only [acceptedEvents] at he
  split at he
  · exact not_terminal_resultEvents e he
  · cases he

theorem not_token_failureEvents {result : StepResult ρ} {request : ExecutionRequest ρ}
    {st : ScheduledState ρ} : ∀ e ∈ failureEvents result request st, e.isToken = false := by
  intro e he
  simp only [failureEvents] at he
  split at he
  · split at he
    · exact List.mem_singleton.mp he ▸ rfl
    · cases he
  · cases he

omit [DecidableEq ρ] in
theorem not_token_flatMap {selected : List (ExecutionRequest ρ)}
    {f : ExecutionRequest ρ → List (SchedulerEvent ρ)} {p : SchedulerEvent ρ → Bool}
    (h : ∀ r, ∀ e ∈ f r, p e = false) : ∀ e ∈ selected.flatMap f, p e = false := by
  intro e he
  obtain ⟨r, -, he⟩ := List.mem_flatMap.mp he
  exact h r e he

theorem finishRequested_advancedStates {result : StepResult ρ}
    {selected : List (ExecutionRequest ρ)} {states : ρ → ScheduledState ρ}
    (h : (states id).finishRequested = true) :
    (advancedStates config result selected states id).finishRequested = true := by
  have hopen : ¬ (states id).open = true := by simp [ScheduledState.open, h]
  simp only [advancedStates]
  split
  · rw [advanced, if_neg hopen]
    exact h
  · exact h

theorem finishRequested_markFinished (selected : List (ExecutionRequest ρ))
    (h : (s.states id).finishRequested = true) :
    ((s.markFinished selected).states id).finishRequested = true := by
  rw [markFinished_eq]
  dsimp only
  split
  · rfl
  · exact h

/-- The result of the step in flight, with what is owed. -/
theorem Wf.outcome_resolveStep {step : SchedulerInFlight ρ φ} {events : List (SchedulerEvent ρ)}
    {resolved : Option (ResolvedStep ρ)} (h : s.Wf) (hflight : s.inFlight = some step)
    (heq : resolveStep svc config step s = (events, resolved, s')) :
    s'.Wf ∧ s'.inFlight = none ∧ s'.waiting = s.waiting ∧ s'.running = s.running ∧
      (∀ step, resolved = some step → ∀ r ∈ step.selected, r.requestId ∉ s.waiting) ∧
      (∀ e ∈ events, e.isToken = false) ∧
      (∀ id, (s.states id).finishRequested = true → (s'.states id).finishRequested = true) ∧
      ∃ owed, Owed resolved s'.states owed ∧ ∀ id, s.Present id →
        Outcome config (s.states id) s' id (tokensOf (owed id)) (HasEnd (eventsOf id events))
          ((s.states id).open = true ∧ Planned config s.states step.selected ∧
            id ∈ step.selected.map ExecutionRequest.requestId) := by
  have hbatch := h.inFlight step hflight
  rw [resolveStep] at heq
  split at heq
  · rename_i e world hresult
    obtain ⟨rfl, hrest⟩ := Prod.mk.inj heq
    obtain ⟨rfl, rfl⟩ := Prod.mk.inj hrest
    refine ⟨(h.landed world).markFinished _, by rw [markFinished_eq], by rw [markFinished_eq],
      by rw [markFinished_eq], fun _ hstep => (by cases hstep), not_token_emitFailures,
      fun _ => finishRequested_markFinished (s := { s with world := world, inFlight := none }) _,
      fun _ => [], ⟨fun _ _ => rfl, fun _ hstep => (by cases hstep)⟩, fun id hid => ?_⟩
    exact (outcome_markFinished config hbatch.nodup
      (s := { s with world := world, inFlight := none }) hid).imp (fun hended => hended)
        fun hmoved => hmoved.2.2
  · rename_i result world hresult
    rw [advanceStepState_eq hbatch.nodup] at heq
    obtain ⟨rfl, hrest⟩ := Prod.mk.inj heq
    obtain ⟨rfl, rfl⟩ := Prod.mk.inj hrest
    refine ⟨(h.landed world).advanced rfl hbatch, rfl, rfl, rfl, ?_,
      not_token_flatMap fun _ => not_token_failureEvents,
      fun _ => finishRequested_advancedStates, fun id =>
        eventsOf id (step.selected.flatMap fun r => acceptedEvents result r (s.states r.requestId)
          (advancedStates config result step.selected s.states r.requestId)), ?_, fun id hid => ?_⟩
    · intro _ hstep r hr hw
      obtain rfl := Option.some.inj hstep
      exact h.not_running hw (hbatch.running r hr)
    · refine ⟨fun hnone => (by cases hnone), fun _ hstep => ?_⟩
      obtain rfl := Option.some.inj hstep
      exact ⟨s.states, hbatch.nodup, rfl, fun _ => rfl⟩
    · have hsplit := @eventsOf_outcome ρ _ config step.selected result hbatch.nodup s.states
        (advancedStates config result step.selected s.states)
        (fun r hr => by rw [advancedStates_of_mem hbatch.nodup hr]) id
      have hfailures : tokensOf (eventsOf id (step.selected.flatMap fun r =>
          failureEvents result r (s.states r.requestId))) = [] :=
        tokensOf_eq_nil fun e he =>
          not_token_flatMap (fun _ => not_token_failureEvents) e (List.mem_of_mem_filter he)
      have haccepted : ¬ HasEnd (eventsOf id (step.selected.flatMap fun r =>
          acceptedEvents result r (s.states r.requestId)
            (advancedStates config result step.selected s.states r.requestId))) := by
        rintro ⟨e, he, hterminal⟩
        refine absurd (hterminal.symm.trans ?_) Bool.false_ne_true.symm
        exact not_token_flatMap (fun _ => not_terminal_acceptedEvents) e (List.mem_of_mem_filter he)
      have hadvance := goesOn_advancedStates config hbatch.nodup result s.states id
      rw [hsplit, hasEnd_append, tokensOf_append, hfailures, List.nil_append] at hadvance
      exact hadvance.imp (Or.resolve_right · haccepted) fun hgoes =>
        ⟨hid, hgoes.1, fun hmoved => hgoes.2 hmoved.1 hmoved.2.1 hmoved.2.2⟩

/-- **The step in flight is resolved**: requests end, or go on with what is owed. -/
theorem Wf.outcome_resolveInFlight {events : List (SchedulerEvent ρ)}
    {resolved : Option (ResolvedStep ρ)} (h : s.Wf)
    (heq : resolveInFlight svc config s = .ok (events, resolved, s')) :
    s'.Wf ∧ s'.inFlight = none ∧ (∀ id, s'.Present id → s.Present id) ∧
      (s.inFlight ≠ none → ∀ id, s'.Present id →
        (s'.states id).open = true ∧ (s.states id).finishRequested = false) ∧
      (s.inFlight = none → s' = s ∧ events = []) ∧
      (∀ step, resolved = some step → ∀ r ∈ step.selected, r.requestId ∉ s'.waiting) ∧
      (∀ e ∈ events, e.isToken = false) ∧
      ∃ owed, Owed resolved s'.states owed ∧ ∀ id, s.Present id →
        (s.states id).finishRequested = false →
        Outcome config (s.states id) s' id (tokensOf (owed id)) (HasEnd (eventsOf id events))
          (id ∈ s.inFlightIds ∧
            ∀ step, s.inFlight = some step → Planned config s.states step.selected) := by
  rw [resolveInFlight] at heq
  split at heq
  · rename_i hflight
    obtain ⟨rfl, hrest⟩ := Prod.mk.inj (Except.ok.inj heq)
    obtain ⟨rfl, rfl⟩ := Prod.mk.inj hrest
    refine ⟨h, hflight, fun _ hid => hid, fun hne => absurd hflight hne,
      fun _ => ⟨rfl, rfl⟩, fun _ hstep => (by cases hstep),
      fun e he => absurd he List.not_mem_nil, fun _ => [],
      ⟨fun _ _ => rfl, fun _ hstep => (by cases hstep)⟩,
      fun id hid _ => .inr ⟨hid, .refl config _, fun hmoved => ?_⟩⟩
    simp [inFlightIds, hflight] at hmoved
  · rename_i step hflight
    dsimp only at heq
    generalize hstep : resolveStep svc config step s = stepped at heq
    obtain ⟨stepEvents, resolved', s₁⟩ := stepped
    obtain ⟨⟨reaped, s₂⟩, hreap, heq⟩ := bind_eq_ok heq
    obtain ⟨s₃, hfinish, heq⟩ := bind_eq_ok heq
    obtain ⟨rfl, hrest⟩ := Prod.mk.inj (Except.ok.inj heq)
    obtain ⟨rfl, rfl⟩ := Prod.mk.inj hrest
    obtain ⟨hwf, hnone, hwaiting, hrunning, hnot, hsilent, hclosed, owed, howed, houtcome⟩ :=
      h.outcome_resolveStep hflight hstep
    have hids : ∀ id ∈ s₁.inFlightIds, id ∈ ([] : List ρ) := by simp [inFlightIds, hnone]
    obtain ⟨hwf₂, hreaped, hpresent, hsilent', -⟩ := hwf.reapCancelled hids hreap
    have hids₂ : ∀ id ∈ s₂.inFlightIds, id ∈ ([] : List ρ) := hreaped.inFlightIds ▸ hids
    obtain ⟨hwf₃, hreaped', hpresent'⟩ := hwf₂.reapFinished hids₂ hfinish
    have hleft := hreaped.trans hreaped'
    have hopen : ∀ id, s₃.Present id → (s₃.states id).open = true := by
      intro id hid
      obtain ⟨hid₂, hfin⟩ := (hpresent' id).mp hid
      have hcancel := ((hpresent id).mp hid₂).2
      rw [hreaped.states] at hfin
      rw [hleft.states, ScheduledState.open,
        Bool.eq_false_iff.mpr fun htrue => List.not_mem_nil (hcancel htrue),
        Bool.eq_false_iff.mpr fun htrue => List.not_mem_nil (hfin htrue)]
      rfl
    refine ⟨hwf₃, hleft.inFlight.trans hnone, fun id hid => ?_, fun _ id hid => ?_,
      fun hno => absurd hno (hflight ▸ Option.some_ne_none _),
      fun step' hstep' r hr hw => hnot step' hstep' r hr (hwaiting ▸ hleft.waiting _ hw),
      fun e he => (List.mem_append.mp he).elim (hsilent e) (hsilent' e), owed,
      hleft.states ▸ howed, fun id hid hfinished => ?_⟩
    · simpa only [Present, hwaiting, hrunning] using hleft.present hid
    · refine ⟨hopen id hid, Bool.eq_false_iff.mpr fun htrue => ?_⟩
      have hopen := hopen id hid
      rw [hleft.states, ScheduledState.open, hclosed id htrue] at hopen
      simp at hopen
    · rw [eventsOf_append, hasEnd_append]
      have hstepped := (houtcome id hid).next fun hid₁ _ =>
        hwf.outcome_reapCancelled config hids hreap hid₁
      have hlast := hstepped.next fun hid₂ hfin =>
        hwf₂.outcome_reapFinished config hids₂ hfinish hid₂ (hfin.trans hfinished)
      rw [List.append_nil, List.append_nil] at hlast
      rcases hlast with hended | ⟨hthere, hgoes, hmoves⟩
      · exact .inl (hended.resolve_right not_false)
      refine .inr ⟨hthere, hgoes, fun hmoved =>
        hmoves (.inl (.inl ⟨?_, hmoved.2 step hflight, ?_⟩))⟩
      · have hopen := hopen id hthere
        simp only [ScheduledState.open, hgoes.cancelRequested, hgoes.finishRequested] at hopen ⊢
        exact hopen
      · simpa only [inFlightIds, hflight] using hmoved.1

/-- **The selected work is launched**: it raises, it is in flight, or its result is there. -/
theorem Wf.outcome_launch {selected : List (ExecutionRequest ρ)}
    {events : List (SchedulerEvent ρ)} {immediate : Option (StepResult ρ)} (h : s.Wf)
    (hnone : s.inFlight = none) (hbatch : Batch s.running s.states selected)
    (heq : launch svc selected s = (events, immediate, s')) :
    s'.Wf ∧ LaunchFrame s s' ∧ (∀ e ∈ events, e.isToken = false) ∧
      (immediate ≠ none → s'.inFlight = none ∧ s'.states = s.states) ∧
      (∀ step, s'.inFlight = some step → step.selected = selected ∧ s'.states = s.states) ∧
      (∀ id, s.Present id →
        Outcome config (s.states id) s' id [] (HasEnd (eventsOf id events)) False) ∧
      (selected ≠ [] → immediate = none → s'.inFlight = none →
        ∀ r ∈ selected, HasEnd (eventsOf r.requestId events)) := by
  have hstay : ∀ {s₁ : NativeScheduler ρ σ φ}, s₁.waiting = s.waiting → s₁.running = s.running →
      s₁.states = s.states → ∀ id, s.Present id →
        Outcome config (s.states id) s₁ id [] (HasEnd (eventsOf id [])) False := by
    intro s₁ hwaiting hrunning hstates id hid
    refine .of_goesOn ?_ (hstates ▸ .refl config _)
    simpa only [Present, hwaiting, hrunning] using hid
  rw [launch] at heq
  split at heq
  · rename_i hempty
    obtain ⟨rfl, hrest⟩ := Prod.mk.inj heq
    obtain ⟨rfl, rfl⟩ := Prod.mk.inj hrest
    exact ⟨h, ⟨rfl, rfl, fun _ => ⟨rfl, rfl, rfl⟩⟩, fun e he => absurd he List.not_mem_nil,
      fun hne => absurd rfl hne, fun _ hstep => (by cases hnone.symm.trans hstep),
      hstay rfl rfl rfl, fun hne => absurd (List.isEmpty_iff.mp hempty) hne⟩
  split at heq
  · rename_i e s₁ hstart
    obtain ⟨hs₁, hflight⟩ := startBatch_frame hstart
    have hnone₁ : s₁.inFlight = none := by
      rcases hflight with ⟨hflight, -⟩ | ⟨hok, -⟩
      · exact hflight.trans hnone
      · cases hok
    obtain ⟨rfl, hrest⟩ := Prod.mk.inj heq
    obtain ⟨rfl, rfl⟩ := Prod.mk.inj hrest
    rw [hnone₁] at hs₁
    have hends : ∀ r ∈ selected, HasEnd (eventsOf r.requestId (emitFailures selected e)) := by
      intro r hr
      rcases eventsOf_emitFailures hbatch.nodup e r.requestId with
        ⟨hnot, -⟩ | ⟨-, event, hterminal, hevents⟩
      · exact absurd (List.mem_map_of_mem hr) hnot
      · rw [hevents]
        exact ⟨event, List.mem_singleton_self _, hterminal⟩
    refine ⟨?_, ?_, not_token_emitFailures, fun hne => absurd rfl hne, fun _ hstep => ?_,
      fun id hid => ?_, fun _ _ _ => hends⟩
    · rw [hs₁]
      exact (h.landed s₁.world).markFinished selected
    · rw [markFinished_eq, hs₁]
      refine ⟨rfl, rfl, fun id => ?_⟩
      by_cases hmem : id ∈ selected.map ExecutionRequest.requestId
      · simp only [hmem, if_true, and_self]
      · simp only [hmem, if_false, and_self]
    · rw [markFinished_eq] at hstep
      cases hnone₁.symm.trans hstep
    · rw [hs₁]
      exact (outcome_markFinished config hbatch.nodup
        (s := { s with world := s₁.world, inFlight := none }) hid).imp (fun hended => hended)
          False.elim
  · rename_i result s₁ hstart
    obtain ⟨hs₁, hflight⟩ := startBatch_frame hstart
    obtain ⟨rfl, hrest⟩ := Prod.mk.inj heq
    obtain ⟨rfl, rfl⟩ := Prod.mk.inj hrest
    have hwaiting : s₁.waiting = s.waiting := by rw [hs₁]
    have hrunning : s₁.running = s.running := by rw [hs₁]
    have hstates : s₁.states = s.states := by rw [hs₁]
    have hframe : LaunchFrame s s₁ :=
      ⟨hwaiting, hrunning, fun _ => hstates ▸ ⟨rfl, rfl, rfl⟩⟩
    rcases hflight with ⟨hflight, hnotNone⟩ | ⟨hok, step, hflight⟩
    · have hnone₁ := hflight.trans hnone
      rw [hnone₁] at hs₁
      refine ⟨hs₁ ▸ h.landed s₁.world, hframe, fun e he => absurd he List.not_mem_nil,
        fun _ => ⟨hnone₁, hstates⟩, fun _ hstep => (by cases hnone₁.symm.trans hstep),
        hstay hwaiting hrunning hstates, fun _ himmediate => ?_⟩
      exact absurd (congrArg Except.ok himmediate) hnotNone
    · refine ⟨?_, hframe, fun e he => absurd he List.not_mem_nil,
        fun hne => absurd (Except.ok.inj hok) hne, fun _ hstep => ?_,
        hstay hwaiting hrunning hstates, fun _ _ hnone₁ => (by cases hflight.symm.trans hnone₁)⟩
      · rw [hs₁, hflight]
        refine ⟨h.nodup, h.key, h.waiting, h.running, h.staged, fun _ hstep => ?_⟩
        obtain rfl := Option.some.inj hstep
        exact hbatch
      · obtain rfl := Option.some.inj (hflight.symm.trans hstep)
        exact ⟨rfl, hstates⟩

/-- A result that is there: each request ends, or goes on. -/
theorem Wf.outcome_applyStep? {selected : List (ExecutionRequest ρ)}
    {events : List (SchedulerEvent ρ)} {immediate : Option (StepResult ρ)} (h : s.Wf)
    (hbatch : immediate ≠ none → s.inFlight = none ∧ Batch s.running s.states selected)
    (heq : applyStep? svc config selected immediate s = .ok (events, s')) :
    s'.Wf ∧ s'.waiting = s.waiting ∧ s'.running = s.running ∧ s'.inFlight = s.inFlight ∧
      (immediate = none → s'.states = s.states) ∧
      ∀ id, s.Present id → Outcome config (s.states id) s' id (tokensOf (eventsOf id events))
        (HasEnd (eventsOf id events)) (immediate ≠ none ∧ (s.states id).open = true ∧
          Planned config s.states selected ∧ id ∈ selected.map ExecutionRequest.requestId) := by
  cases immediate with
  | none =>
    obtain ⟨rfl, rfl⟩ := Prod.mk.inj (Except.ok.inj heq)
    exact ⟨h, rfl, rfl, rfl, fun _ => rfl, fun id hid =>
      .inr ⟨hid, .refl config _, fun hmoved => absurd rfl hmoved.1⟩⟩
  | some result =>
    obtain ⟨hnone, hbatch⟩ := hbatch (Option.some_ne_none _)
    obtain ⟨hs', hevents⟩ := applyStepResult_eq_ok hbatch.nodup heq
    rw [hs']
    refine ⟨(h.advanced hnone hbatch).of_world _, rfl, rfl, rfl, fun hno => (by cases hno),
      fun id hid => ?_⟩
    rw [hevents]
    exact (goesOn_advancedStates config hbatch.nodup result s.states id).imp_right fun hgoes =>
      ⟨hid, hgoes.1, fun hmoved => hgoes.2 hmoved.2.1 hmoved.2.2.1 hmoved.2.2.2⟩

/-- **The last part of the tick**: what is owed is said, then the result that is there. -/
theorem Wf.outcome_emitResolved {selected : List (ExecutionRequest ρ)}
    {events : List (SchedulerEvent ρ)} {immediate : Option (StepResult ρ)}
    {resolved : Option (ResolvedStep ρ)} {owed : ρ → List (SchedulerEvent ρ)} (h : s.Wf)
    (howed : Owed resolved s.states owed)
    (hbatch : immediate ≠ none → s.inFlight = none ∧ Batch s.running s.states selected)
    (heq : emitResolved svc config resolved selected immediate s = .ok (events, s')) :
    s'.Wf ∧ s'.waiting = s.waiting ∧ s'.running = s.running ∧ s'.inFlight = s.inFlight ∧
      (immediate = none → s'.states = s.states) ∧
      ∀ id, s.Present id → ∃ more, eventsOf id events = owed id ++ more ∧
        Outcome config (s.states id) s' id (tokensOf more) (HasEnd (eventsOf id events))
          (immediate ≠ none ∧ (s.states id).open = true ∧ Planned config s.states selected ∧
            id ∈ selected.map ExecutionRequest.requestId) := by
  rw [emitResolved] at heq
  obtain ⟨⟨said, s₁⟩, hemit, heq⟩ := bind_eq_ok heq
  obtain ⟨⟨more, s₂⟩, happly, heq⟩ := bind_eq_ok heq
  obtain ⟨rfl, rfl⟩ := Prod.mk.inj (Except.ok.inj heq)
  obtain ⟨hs₁, hsaid⟩ := howed.emit hemit
  rw [hs₁] at happly
  obtain ⟨hwf, hwaiting, hrunning, hflight, hstates, houtcome⟩ :=
    (h.of_world s₁.world).outcome_applyStep? hbatch happly
  refine ⟨hwf, hwaiting, hrunning, hflight, hstates, fun id hid => ⟨eventsOf id more, ?_, ?_⟩⟩
  · rw [eventsOf_append, hsaid]
  · refine (houtcome id hid).imp (fun hended => ?_) fun hmoved => hmoved
    rw [eventsOf_append, hasEnd_append]
    exact .inr hended

/-! ## A tick -/

/-- What each part of an overlapping tick does, and what is owed when its step is resolved. -/
structure OverlapTick.Parts (t : OverlapTick svc config s)
    (owed : ρ → List (SchedulerEvent ρ)) : Prop where
  leaves : Reaped s t.afterFinished
  left : t.afterFinished.Wf
  waits : ∀ id, t.afterFinished.Present id →
    (s.states id).finishRequested = true → id ∈ s.inFlightIds
  reaps : ∀ id, s.Present id → (s.states id).finishRequested = false →
    Outcome config (s.states id) t.afterFinished id [] (HasEnd (eventsOf id t.reaped)) False
  cancels : ∀ id, s.Present id → (s.states id).cancelRequested = true → id ∉ s.inFlightIds →
    HasEnd (eventsOf id t.reaped)
  stays : ∀ id, s.Present id → (s.states id).open = true → t.afterFinished.Present id
  reapsSilently : ∀ e ∈ t.reaped, e.isToken = false
  resolves : ∀ id, t.afterFinished.Present id →
    (t.afterFinished.states id).finishRequested = false →
    Outcome config (t.afterFinished.states id) t.afterResolve id (tokensOf (owed id))
      (HasEnd (eventsOf id t.resolveEvents)) (id ∈ t.afterFinished.inFlightIds ∧
        ∀ step, t.afterFinished.inFlight = some step →
          Planned config t.afterFinished.states step.selected)
  resolvesOpen : t.afterFinished.inFlight ≠ none → ∀ id, t.afterResolve.Present id →
    (t.afterResolve.states id).open = true ∧ (t.afterFinished.states id).finishRequested = false
  resolvesNothing : t.afterFinished.inFlight = none → t.afterResolve = t.afterFinished
  resolvesPresent : ∀ id, t.afterResolve.Present id → t.afterFinished.Present id
  resolvesSilently : ∀ e ∈ t.resolveEvents, e.isToken = false
  resolved : t.afterResolve.Wf
  selects : ∀ id, t.afterResolve.Present id →
    Outcome config (t.afterResolve.states id) t.afterSelect id [] False False
  selectsOpen : ∀ r ∈ t.selected, (t.afterSelect.states r.requestId).open = true
  launches : ∀ id, t.afterSelect.Present id → Outcome config (t.afterSelect.states id) t.afterLaunch
    id [] (HasEnd (eventsOf id t.launchEvents)) False
  launchesSilently : ∀ e ∈ t.launchEvents, e.isToken = false
  launchesNow : t.immediate ≠ none →
    t.afterLaunch.inFlight = none ∧ t.afterLaunch.states = t.afterSelect.states
  raises : t.immediate = none → t.afterLaunch.inFlight = none →
    ∀ r ∈ t.selected, HasEnd (eventsOf r.requestId t.launchEvents)
  emits : ∀ id, t.afterLaunch.Present id → ∃ more, eventsOf id t.events = owed id ++ more ∧
    Outcome config (t.afterLaunch.states id) t.afterEmit id (tokensOf more)
      (HasEnd (eventsOf id t.events)) (t.immediate ≠ none ∧
        (t.afterLaunch.states id).open = true ∧ Planned config t.afterLaunch.states t.selected ∧
          id ∈ t.selected.map ExecutionRequest.requestId)
  emitsPresent : ∀ id, t.afterEmit.Present id → t.afterResolve.Present id
  emitsFlight : t.afterEmit.inFlight = t.afterLaunch.inFlight
  flies : ∀ step, t.afterEmit.inFlight = some step →
    step.selected = t.selected ∧ t.afterEmit.states = t.afterSelect.states
  emitted : t.afterEmit.Wf

theorem Wf.overlapParts (h : s.Wf) (t : OverlapTick svc config s) : ∃ owed, t.Parts owed := by
  have hround : Wf { s with schedulerRound := s.schedulerRound + 1 } :=
    ⟨h.nodup, h.key, h.waiting, h.running, h.staged, h.inFlight⟩
  -- what was cancelled or finished before, but for the step in flight
  obtain ⟨hwf₁, hreaped₁, hpresent₁, hsilent₁, hends₁⟩ :=
    hround.reapCancelled (fun _ hid => hid) t.reapCancelled
  have hids₁ : ∀ id ∈ t.afterCancelled.inFlightIds, id ∈ s.inFlightIds := fun _ hid =>
    hreaped₁.inFlightIds ▸ hid
  obtain ⟨hwf₂, hreaped₂, hpresent₂⟩ := hwf₁.reapFinished hids₁ t.reapFinished
  have hleft := hreaped₁.trans hreaped₂
  -- the step in flight
  obtain ⟨hwf₃, hnone₃, hpresent₃, hopen₃, hnothing₃, hnot₃, hsilent₃, owed, howed, houtcome₃⟩ :=
    hwf₂.outcome_resolveInFlight t.resolve
  -- the next step
  obtain ⟨hwf₄, hbatch, hopen₄⟩ := hwf₃.selectWork t.select
  have hframe := hwf₃.selectFrame t.select
  obtain ⟨hgoes₄, hpresent₄⟩ := hwf₃.goesOn_selectWork config t.select
  obtain ⟨hwf₅, hlaunch, hsilent₅, himmediate, hflight₅, houtcome₅, hraised⟩ :=
    hwf₄.outcome_launch (hframe.inFlight.trans hnone₃) hbatch t.launch
  have howed' : Owed t.resolved t.afterLaunch.states owed := by
    refine howed.of_states fun step hstep r hr => ?_
    obtain ⟨hwork, hcursor, hreused⟩ := hlaunch.prompt r.requestId
    obtain ⟨hcursor', hreused'⟩ := hframe.prompt _ (hnot₃ step hstep r hr)
    exact ⟨hwork.trans (hframe.kept _).work, hcursor.trans hcursor', hreused.trans hreused'⟩
  have hbatch' : t.immediate ≠ none → t.afterLaunch.inFlight = none ∧
      Batch t.afterLaunch.running t.afterLaunch.states t.selected := by
    intro hne
    obtain ⟨hflight, hstates⟩ := himmediate hne
    exact ⟨hflight, hlaunch.running ▸ hstates ▸ hbatch⟩
  obtain ⟨hwf₆, hwaiting₆, hrunning₆, hflight₆, hstates₆, houtcome₆⟩ :=
    hwf₅.outcome_emitResolved howed' hbatch' t.emit
  refine ⟨owed, ⟨hleft.states, hleft.inFlight, hleft.waiting, hleft.running⟩, hwf₂,
    fun id hid => ?_,
    fun id hid hfinish => ?_, hends₁, fun id hid hopen => ?_, hsilent₁, houtcome₃, hopen₃,
    fun hno => (hnothing₃ hno).1,
    hpresent₃, hsilent₃, hwf₃, fun id hid => ?_, hopen₄, houtcome₅, hsilent₅, himmediate,
    fun hnone hflight r hr => hraised (List.ne_nil_of_mem hr) hnone hflight r hr, houtcome₆,
    fun id hid => ?_, hflight₆, fun step hstep => ?_, hwf₆⟩
  · exact fun hfinish => ((hpresent₂ id).mp hid).2 (by rwa [hreaped₁.states])
  · have hfirst := (hround.outcome_reapCancelled config (fun _ hid => hid) t.reapCancelled
      hid).next fun hid₁ hfin₁ => hwf₁.outcome_reapFinished config hids₁ t.reapFinished hid₁
        (hfin₁.trans hfinish)
    exact hfirst.imp (fun hended => hended.resolve_right not_false) False.elim
  · simp only [ScheduledState.open, Bool.and_eq_true, Bool.not_eq_true'] at hopen
    refine (hpresent₂ id).mpr ⟨(hpresent₁ id).mpr ⟨hid, fun htrue => ?_⟩, fun htrue => ?_⟩
    · exact absurd (htrue.symm.trans hopen.1) Bool.false_ne_true.symm
    · rw [hreaped₁.states] at htrue
      exact absurd (htrue.symm.trans hopen.2) Bool.false_ne_true.symm
  · exact .of_goesOn ((hpresent₄ id).mpr hid) (hgoes₄ id)
  · rw [Present, hwaiting₆, hrunning₆, hlaunch.waiting, hlaunch.running] at hid
    exact (hpresent₄ id).mp hid
  · rw [hflight₆] at hstep
    obtain ⟨hselected, hstates⟩ := hflight₅ step hstep
    refine ⟨hselected, (hstates₆ (by_contra fun hne => ?_)).trans hstates⟩
    exact Option.some_ne_none _ (hstep.symm.trans (himmediate hne).1)

section Parts

variable {t : OverlapTick svc config s} {owed : ρ → List (SchedulerEvent ρ)}

theorem OverlapTick.hasEnd_allEvents (t : OverlapTick svc config s) (id : ρ) :
    HasEnd (eventsOf id t.allEvents) ↔ HasEnd (eventsOf id t.reaped) ∨
      HasEnd (eventsOf id t.resolveEvents) ∨ HasEnd (eventsOf id t.launchEvents) ∨
        HasEnd (eventsOf id t.events) := by
  rw [OverlapTick.allEvents]
  simp only [eventsOf_append, hasEnd_append, or_assoc]

/-- A request that does not wait for its end is ended by the tick, or goes on. -/
theorem OverlapTick.Parts.outcome (h : t.Parts owed) (hid : s.Present id)
    (hfinish : (s.states id).finishRequested = false) :
    Outcome config (s.states id) t.final id (tokensOf (eventsOf id t.allEvents))
      (HasEnd (eventsOf id t.allEvents))
      ((id ∈ s.inFlightIds ∧
          ∀ step, s.inFlight = some step → Planned config s.states step.selected) ∨
        t.immediate ≠ none ∧ Planned config t.afterSelect.states t.selected ∧
          id ∈ t.selected.map ExecutionRequest.requestId) := by
  have hall := t.hasEnd_allEvents id
  have hlaunched := ((((h.reaps id hid hfinish).next fun hid₂ hfin₂ =>
    h.resolves id hid₂ (hfin₂.trans hfinish)).next fun hid₃ _ => h.selects id hid₃).next
      fun hid₄ _ => h.launches id hid₄)
  rcases hlaunched with (((hended | hended) | hended) | hended) | ⟨hid₅, hgoes₅, hmoves₅⟩
  · exact .inl (hall.mpr (.inl hended))
  · exact .inl (hall.mpr (.inr (.inl hended)))
  · exact hended.elim
  · exact .inl (hall.mpr (.inr (.inr (.inl hended))))
  obtain ⟨more, hmore, houtcome⟩ := h.emits id hid₅
  have hlaunched : Outcome config (s.states id) t.afterLaunch id _ False _ :=
    .inr ⟨hid₅, hgoes₅, hmoves₅⟩
  have hlast := (hlaunched.next fun _ _ => houtcome).next fun hid₆ hfin₆ =>
    h.emitted.outcome_reapFinished config (fun _ hid => hid) t.reapAgain hid₆
      (hfin₆.trans hfinish)
  have htokens : tokensOf (eventsOf id t.allEvents) = tokensOf (owed id) ++ tokensOf more := by
    simp only [OverlapTick.allEvents, eventsOf_append, tokensOf_append, hmore,
      tokensOf_eventsOf_eq_nil h.reapsSilently, tokensOf_eventsOf_eq_nil h.resolvesSilently,
      tokensOf_eventsOf_eq_nil h.launchesSilently, List.nil_append]
  simp only [List.nil_append, List.append_nil] at hlast
  rw [htokens]
  refine hlast.imp (fun hended => ?_) fun hmoved => ?_
  · exact hall.mpr (.inr (.inr (.inr ((hended.resolve_right not_false).resolve_left not_false))))
  · rcases hmoved with ⟨hflight, hplanned⟩ | ⟨himmediate, hplanned, hmem⟩
    · refine .inl (.inl (.inl (.inl (.inr ⟨h.leaves.inFlightIds ▸ hflight, ?_⟩))))
      rw [h.leaves.inFlight, h.leaves.states]
      exact hplanned
    · obtain ⟨r, hr, rfl⟩ := List.mem_map.mp hmem
      have hopen := h.selectsOpen r hr
      rw [← (h.launchesNow himmediate).2] at hplanned hopen
      exact .inl (.inr ⟨himmediate, hopen, hplanned, hmem⟩)

/-- Whoever is there after the tick was there, and has not waited for its end. -/
theorem OverlapTick.Parts.final_present (h : t.Parts owed) (hid : t.final.Present id) :
    s.Present id ∧ (s.states id).finishRequested = false ∧
      (t.final.states id).finishRequested = false := by
  obtain ⟨-, hreaped, hpresent⟩ := h.emitted.reapFinished (fun _ hid => hid) t.reapAgain
  obtain ⟨hid₆, hfin⟩ := (hpresent id).mp hid
  have hid₃ := h.emitsPresent id hid₆
  have hid₂ := h.resolvesPresent id hid₃
  refine ⟨h.leaves.present hid₂, ?_, ?_⟩
  · by_cases hno : t.afterFinished.inFlight = none
    · have hids : s.inFlightIds = [] := by
        rw [← h.leaves.inFlightIds]
        simp only [inFlightIds, hno]
      have hwaits := h.waits id hid₂
      rw [hids] at hwaits
      exact Bool.eq_false_iff.mpr fun htrue => List.not_mem_nil (hwaits htrue)
    · rw [← h.leaves.states]
      exact (h.resolvesOpen hno id hid₃).2
  · rw [hreaped.states]
    refine Bool.eq_false_iff.mpr fun htrue => ?_
    have hmem := hfin htrue
    cases hstep : t.afterEmit.inFlight with
    | none => simp [inFlightIds, hstep] at hmem
    | some step =>
      obtain ⟨hselected, hstates⟩ := h.flies step hstep
      simp only [inFlightIds, hstep, hselected] at hmem
      obtain ⟨r, hr, rfl⟩ := List.mem_map.mp hmem
      have hopen := h.selectsOpen r hr
      rw [ScheduledState.open, ← hstates, htrue] at hopen
      simp at hopen

/-- A request that was cancelled ends before the next step is said. -/
theorem OverlapTick.Parts.endsFirst (h : t.Parts owed) (hid : s.Present id)
    (hcancel : (s.states id).cancelRequested = true)
    (hfinish : (s.states id).finishRequested = false) : EndsFirst id t.allEvents := by
  refine ⟨t.reaped ++ t.resolveEvents, t.launchEvents ++ t.events, ?_, fun e he => ?_, ?_⟩
  · simp only [OverlapTick.allEvents, List.append_assoc]
  · exact (List.mem_append.mp he).elim (h.reapsSilently e) (h.resolvesSilently e)
  rw [eventsOf_append, hasEnd_append]
  by_cases hflight : id ∈ s.inFlightIds
  · have hsome : t.afterFinished.inFlight ≠ none := by
      rw [h.leaves.inFlight]
      intro hnone
      simp [inFlightIds, hnone] at hflight
    have hreached := (h.reaps id hid hfinish).next fun hid₂ hfin₂ =>
      h.resolves id hid₂ (hfin₂.trans hfinish)
    refine hreached.resolve_right fun hgoes => ?_
    have hopen := (h.resolvesOpen hsome id hgoes.1).1
    rw [ScheduledState.open, hgoes.2.1.cancelRequested, hcancel] at hopen
    cases hopen
  · exact .inl (h.cancels id hid hcancel hflight)

/-- When nothing was in flight, who is open waits for the selection as it was. -/
theorem OverlapTick.Parts.select_present (h : t.Parts owed) (hno : s.inFlight = none)
    (hid : s.Present id) (hopen : (s.states id).open = true) :
    t.afterResolve.Present id ∧ t.afterResolve.states id = s.states id := by
  rw [h.resolvesNothing (h.leaves.inFlight.trans hno), h.leaves.states]
  exact ⟨h.stays id hid hopen, rfl⟩

end Parts

/-! ## A serial tick -/

/-- A step that runs: its requests end, or go on. -/
theorem Wf.outcome_runStep {selected : List (ExecutionRequest ρ)}
    {events : List (SchedulerEvent ρ)} (h : s.Wf) (hflight : s.inFlight = none)
    (hbatch : Batch s.running s.states selected)
    (heq : runStep svc config selected s = .ok (events, s')) :
    s'.Wf ∧ s'.inFlight = none ∧ s'.waiting = s.waiting ∧ s'.running = s.running ∧
      (∀ id, (s'.states id).cancelRequested = (s.states id).cancelRequested) ∧
      ∀ id, s.Present id → Outcome config (s.states id) s' id (tokensOf (eventsOf id events))
        (HasEnd (eventsOf id events)) ((s.states id).open = true ∧
          Planned config s.states selected ∧ id ∈ selected.map ExecutionRequest.requestId) := by
  rw [runStep] at heq
  split at heq
  · obtain ⟨rfl, rfl⟩ := Prod.mk.inj (Except.ok.inj heq)
    rename_i e world _
    refine ⟨h.of_world world, hflight, rfl, rfl, fun _ => rfl, fun id hid => ?_⟩
    rw [tokensOf_eventsOf_eq_nil not_token_emitFailures]
    rcases eventsOf_emitFailures hbatch.nodup e id with ⟨hnot, -⟩ | ⟨-, event, hterminal, hevents⟩
    · exact .inr ⟨hid, .refl config _, fun hmoved => absurd hmoved.2.2 hnot⟩
    · rw [hevents]
      exact .inl ⟨event, List.mem_singleton_self _, hterminal⟩
  · rename_i result world _
    obtain ⟨hs', hevents⟩ := applyStepResult_eq_ok hbatch.nodup heq
    rw [hs']
    refine ⟨((h.of_world world).advanced hflight hbatch).of_world _, hflight, rfl, rfl,
      fun id => (advancedStates_kept config result selected s.states id).2.2, fun id hid => ?_⟩
    rw [hevents]
    exact (goesOn_advancedStates config hbatch.nodup result s.states id).imp_right fun hgoes =>
      ⟨hid, hgoes.1, fun hmoved => hgoes.2 hmoved.1 hmoved.2.1 hmoved.2.2⟩

/-- What a serial tick does, with the work that it selects. -/
structure SerialParts (svc : SchedulerServices ρ σ π φ) (config : SchedulerConfig)
    (s : NativeScheduler ρ σ φ) (events : List (SchedulerEvent ρ)) (s' s₁ : NativeScheduler ρ σ φ)
    (selected : List (ExecutionRequest ρ)) (s₂ : NativeScheduler ρ σ φ) : Prop where
  cancels : ∀ id, s.Present id → (s.states id).cancelRequested = true → EndsFirst id events
  stays : ∀ id, s.Present id → (s.states id).cancelRequested = false → s₁.Present id
  leaves : Reaped s s₁
  resolved : s₁.Wf
  ran : selected = [] ∧ s' = s₂ ∨ selected ≠ [] ∧ ∃ stepEvents s₃,
    runStep svc config selected s₂ = .ok (stepEvents, s₃) ∧ Reaped s₃ s' ∧
      ∀ id, HasEnd (eventsOf id stepEvents) → HasEnd (eventsOf id events)
  final : s'.Wf
  inFlight : s'.inFlight = none
  present : ∀ id, s'.Present id → s.Present id
  outcome : ∀ id, s.Present id → Outcome config (s.states id) s' id
    (tokensOf (eventsOf id events)) (HasEnd (eventsOf id events))
      (Planned config s₂.states selected ∧ id ∈ selected.map ExecutionRequest.requestId)

theorem Wf.serialParts {events : List (SchedulerEvent ρ)} (h : s.Wf) (hflight : s.inFlight = none)
    (t : SerialTick svc config s events s') :
    ∃ s₁ selected s₂, NativeScheduler.selectWork svc config s₁ = .ok (selected, s₂) ∧
      SerialParts svc config s events s' s₁ selected s₂ := by
  have hround : Wf { s with schedulerRound := s.schedulerRound + 1 } :=
    ⟨h.nodup, h.key, h.waiting, h.running, h.staged, h.inFlight⟩
  have hids : ∀ id ∈ ({ s with schedulerRound := s.schedulerRound + 1 } :
      NativeScheduler ρ σ φ).inFlightIds, id ∈ ([] : List ρ) := by
    simp [inFlightIds, hflight]
  cases t with
  | @nothing _ s₁ _ hreap hselect =>
    obtain ⟨hwf₁, hreaped₁, hpresent₁, hsilent₁, hends₁⟩ := hround.reapCancelled hids hreap
    obtain ⟨hwf₂, -, -⟩ := hwf₁.selectWork hselect
    obtain ⟨hgoes₂, hpresent₂⟩ := hwf₁.goesOn_selectWork config hselect
    refine ⟨s₁, [], s', hselect, fun id hid hcancel => ⟨events, [], (List.append_nil _).symm,
        hsilent₁, hends₁ id hid hcancel List.not_mem_nil⟩,
      fun id hid hcancel => (hpresent₁ id).mpr ⟨hid, fun htrue => ?_⟩,
      ⟨hreaped₁.states, hreaped₁.inFlight, hreaped₁.waiting, hreaped₁.running⟩, hwf₁,
      .inl ⟨rfl, rfl⟩, hwf₂,
      (hwf₁.selectFrame hselect).inFlight.trans (hreaped₁.inFlight.trans hflight),
      fun id hid => hreaped₁.present ((hpresent₂ id).mp hid), fun id hid => ?_⟩
    · exact absurd (htrue.symm.trans hcancel) Bool.false_ne_true.symm
    · have hlast := (hround.outcome_reapCancelled config hids hreap hid).next fun hid₁ _ =>
        (show Outcome config _ s' id [] False False from
          .of_goesOn ((hpresent₂ id).mpr hid₁) (hgoes₂ id))
      rw [tokensOf_eventsOf_eq_nil hsilent₁]
      exact hlast.imp (fun hended => hended.resolve_right not_false)
        fun hmoved => absurd hmoved.2 List.not_mem_nil
  | @ran reaped s₁ selected s₂ stepEvents s₃ reaped' _ hreap hselect hne hrun hagain =>
    obtain ⟨hwf₁, hreaped₁, hpresent₁, hsilent₁, hends₁⟩ := hround.reapCancelled hids hreap
    obtain ⟨hwf₂, hbatch, hopen⟩ := hwf₁.selectWork hselect
    obtain ⟨hgoes₂, hpresent₂⟩ := hwf₁.goesOn_selectWork config hselect
    have hnone₂ : s₂.inFlight = none :=
      (hwf₁.selectFrame hselect).inFlight.trans (hreaped₁.inFlight.trans hflight)
    obtain ⟨hwf₃, hnone₃, hwaiting₃, hrunning₃, -, houtcome₃⟩ :=
      hwf₂.outcome_runStep hnone₂ hbatch hrun
    have hids₃ : ∀ id ∈ s₃.inFlightIds, id ∈ ([] : List ρ) := by simp [inFlightIds, hnone₃]
    obtain ⟨hwf₄, hreaped₄, -, hsilent₄, -⟩ := hwf₃.reapCancelled hids₃ hagain
    have hall : ∀ id, HasEnd (eventsOf id (reaped ++ stepEvents ++ reaped')) ↔
        (HasEnd (eventsOf id reaped) ∨ HasEnd (eventsOf id stepEvents)) ∨
          HasEnd (eventsOf id reaped') := by
      intro id
      simp only [eventsOf_append, hasEnd_append]
    refine ⟨s₁, selected, s₂, hselect, fun id hid hcancel => ⟨reaped, stepEvents ++ reaped',
        List.append_assoc _ _ _, hsilent₁, hends₁ id hid hcancel List.not_mem_nil⟩,
      fun id hid hcancel => (hpresent₁ id).mpr ⟨hid, fun htrue => ?_⟩,
      ⟨hreaped₁.states, hreaped₁.inFlight, hreaped₁.waiting, hreaped₁.running⟩, hwf₁,
      .inr ⟨hne, stepEvents, s₃, hrun, hreaped₄, fun id hend => (hall id).mpr (.inl (.inr hend))⟩,
      hwf₄,
      hreaped₄.inFlight.trans hnone₃, fun id hid => ?_, fun id hid => ?_⟩
    · exact absurd (htrue.symm.trans hcancel) Bool.false_ne_true.symm
    · have hid₃ := hreaped₄.present hid
      rw [Present, hwaiting₃, hrunning₃] at hid₃
      exact hreaped₁.present ((hpresent₂ id).mp hid₃)
    · have hlast := (((hround.outcome_reapCancelled config hids hreap hid).next fun hid₁ _ =>
        (show Outcome config _ s₂ id [] False False from
          .of_goesOn ((hpresent₂ id).mpr hid₁) (hgoes₂ id))).next fun hid₂ _ =>
            houtcome₃ id hid₂).next fun hid₃ _ =>
              hwf₃.outcome_reapCancelled config hids₃ hagain hid₃
      simp only [eventsOf_append, tokensOf_append, tokensOf_eventsOf_eq_nil hsilent₁,
        tokensOf_eventsOf_eq_nil hsilent₄]
      refine hlast.imp (fun hended => ?_) fun hmoved => ?_
      · rw [hasEnd_append, hasEnd_append]
        exact hended.imp_left fun hended => hended.imp_left fun hended =>
          hended.resolve_right not_false
      · obtain ⟨r, hr, rfl⟩ := List.mem_map.mp hmoved.2
        exact .inl (.inr ⟨hopen r hr, hmoved.1, hmoved.2⟩)

/-! ## A tick in either mode -/

/-- What a tick does to the requests. -/
structure Ticked (config : SchedulerConfig) (s : NativeScheduler ρ σ φ)
    (events : List (SchedulerEvent ρ)) (s' : NativeScheduler ρ σ φ) : Prop where
  wf : s'.Wf
  serial : config.overlap = false → s'.inFlight = none
  present : ∀ id, s'.Present id → s.Present id
  /-- A request that does not wait for its end is ended, or goes on. -/
  outcome : ∀ id, s.Present id → (s.states id).finishRequested = false →
    Outcome config (s.states id) s' id (tokensOf (eventsOf id events))
      (HasEnd (eventsOf id events)) (id ∈ s.inFlightIds ∧
        ∀ step, s.inFlight = some step → Planned config s.states step.selected)
  /-- A request that was cancelled ends at once. -/
  cancelled : ∀ id, s.Present id → (s.states id).cancelRequested = true →
    (s.states id).finishRequested = false → EndsFirst id events
  /-- A request that waited for its end while it was in flight leaves. -/
  closed : config.overlap = true → ∀ id, s'.Present id →
    (s.states id).finishRequested = false ∧ (s'.states id).finishRequested = false

/-- **A tick** ends a request, and says so, or lets it go on. -/
theorem Wf.tick_outcome {events : List (SchedulerEvent ρ)} (h : s.Wf)
    (hserial : config.overlap = false → s.inFlight = none)
    (heq : s.tick svc config = .ok (events, s')) : Ticked config s events s' := by
  rw [tick] at heq
  split at heq
  · rename_i hoverlap
    obtain ⟨t, rfl, rfl⟩ := tickOverlap_eq_ok heq
    obtain ⟨owed, hparts⟩ := h.overlapParts t
    refine ⟨(hparts.emitted.reapFinished (fun _ hid => hid) t.reapAgain).1, fun hno => ?_,
      fun id hid => (hparts.final_present hid).1, fun id hid hfinish => ?_,
      fun id hid => hparts.endsFirst hid, fun _ id hid => (hparts.final_present hid).2⟩
    · exact absurd (hoverlap.symm.trans hno) Bool.false_ne_true.symm
    · exact (hparts.outcome hid hfinish).imp (fun hended => hended) .inl
  · rename_i hnot
    have hflight := hserial (Bool.eq_false_iff.mpr hnot)
    obtain ⟨s₁, selected, s₂, -, hparts⟩ := h.serialParts hflight (tickSerial_eq_ok heq)
    refine ⟨hparts.final, fun _ => hparts.inFlight, hparts.present, fun id hid _ => ?_,
      fun id hid hcancel _ => hparts.cancels id hid hcancel, fun hoverlap => absurd hoverlap hnot⟩
    refine (hparts.outcome id hid).imp (fun hended => hended) fun hmoved => ?_
    simp [inFlightIds, hflight] at hmoved

end NativeScheduler
end MlxRuntime
