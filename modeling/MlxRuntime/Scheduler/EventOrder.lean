import MlxRuntime.Scheduler.Invariant

/-!
# The order of the scheduler's events

The events of a request are progress of its prompt, then tokens, then at most one end: it was
cancelled or it failed.  What is tracked is this order, with the events that a resolved step
still owes: in an overlapping tick these come after those of the next step's launch.

## Main definitions

* `EventLog.Open`, `EventLog.InOrder` — the order.
* `NativeScheduler.Tracked` — the events so far, and the states they belong to.
-/

namespace MlxRuntime

variable {ρ σ π φ : Type}

namespace SchedulerEvent

/-- Progress of the prompt. -/
def isProgress : SchedulerEvent ρ → Bool
  | .prefillProgress _ _ _ _ _ _ => true
  | _ => false

def isToken : SchedulerEvent ρ → Bool
  | .token _ _ _ _ _ => true
  | _ => false

/-- The end of a request. -/
def isTerminal : SchedulerEvent ρ → Bool
  | .cancelled _ _ | .executionError _ _ _ => true
  | _ => false

end SchedulerEvent

/-- The events of a request. -/
def eventsOf [DecidableEq ρ] (id : ρ) (events : List (SchedulerEvent ρ)) :
    List (SchedulerEvent ρ) :=
  events.filter fun e => e.requestId? = some id

/-- The number of tokens. -/
def tokenCount (events : List (SchedulerEvent ρ)) : ℕ := events.countP SchedulerEvent.isToken

namespace EventLog

/-- Progress, then tokens. -/
def Open (log : List (SchedulerEvent ρ)) : Prop :=
  ∃ progress tokens, log = progress ++ tokens ∧ (∀ e ∈ progress, e.isProgress) ∧
    ∀ e ∈ tokens, e.isToken

/-- Progress, then tokens, then at most one end. -/
def InOrder (log : List (SchedulerEvent ρ)) : Prop :=
  ∃ progress tokens ends, log = progress ++ tokens ++ ends ∧ (∀ e ∈ progress, e.isProgress) ∧
    (∀ e ∈ tokens, e.isToken) ∧ ends.length ≤ 1 ∧ ∀ e ∈ ends, e.isTerminal

variable {log : List (SchedulerEvent ρ)} {e : SchedulerEvent ρ}

theorem open_nil : Open ([] : List (SchedulerEvent ρ)) := ⟨[], [], rfl, nofun, nofun⟩

theorem Open.inOrder (h : Open log) : InOrder log := by
  obtain ⟨progress, tokens, rfl, hprogress, htokens⟩ := h
  exact ⟨progress, tokens, [], by simp, hprogress, htokens, by simp, nofun⟩

theorem Open.token (h : Open log) (he : e.isToken) : Open (log ++ [e]) := by
  obtain ⟨progress, tokens, rfl, hprogress, htokens⟩ := h
  refine ⟨progress, tokens ++ [e], List.append_assoc _ _ _, hprogress, fun x hx => ?_⟩
  rcases List.mem_append.mp hx with hx | hx
  · exact htokens x hx
  · exact List.mem_singleton.mp hx ▸ he

theorem Open.progress (h : Open log) (hzero : tokenCount log = 0) (he : e.isProgress) :
    Open (log ++ [e]) := by
  obtain ⟨progress, tokens, rfl, hprogress, htokens⟩ := h
  have hnil : tokens = [] := by
    rw [tokenCount, List.countP_append, List.countP_eq_length.mpr htokens] at hzero
    exact List.length_eq_zero_iff.mp (by omega)
  subst hnil
  refine ⟨progress ++ [e], [], by simp, fun x hx => ?_, nofun⟩
  rcases List.mem_append.mp hx with hx | hx
  · exact hprogress x hx
  · exact List.mem_singleton.mp hx ▸ he

theorem Open.terminal (h : Open log) (he : e.isTerminal) : InOrder (log ++ [e]) := by
  obtain ⟨progress, tokens, rfl, hprogress, htokens⟩ := h
  exact ⟨progress, tokens, [e], rfl, hprogress, htokens, le_rfl, fun x hx =>
    List.mem_singleton.mp hx ▸ he⟩

theorem tokenCount_append (log log' : List (SchedulerEvent ρ)) :
    tokenCount (log ++ log') = tokenCount log + tokenCount log' := List.countP_append

theorem tokenCount_terminal (he : e.isTerminal) : tokenCount [e] = 0 := by
  cases e <;> simp_all [tokenCount, SchedulerEvent.isTerminal, SchedulerEvent.isToken]

end EventLog

/-! ## The events of a request among those of a batch -/

section EventsOf

variable [DecidableEq ρ] {id : ρ}

theorem eventsOf_append (id : ρ) (events events' : List (SchedulerEvent ρ)) :
    eventsOf id (events ++ events') = eventsOf id events ++ eventsOf id events' :=
  List.filter_append _ _

theorem eventsOf_eq_self {events : List (SchedulerEvent ρ)}
    (h : ∀ e ∈ events, e.requestId? = some id) : eventsOf id events = events :=
  List.filter_eq_self.mpr fun e he => decide_eq_true (h e he)

theorem eventsOf_eq_nil {events : List (SchedulerEvent ρ)}
    (h : ∀ e ∈ events, e.requestId? ≠ some id) : eventsOf id events = [] :=
  List.filter_eq_nil_iff.mpr fun e he => by simpa using h e he

variable {α : Type} {key : α → ρ} {xs : List α} {f : α → List (SchedulerEvent ρ)}

/-- Each of some works has events of its own: a request that is not among them has none. -/
theorem eventsOf_flatMap_of_notMem (hf : ∀ x ∈ xs, ∀ e ∈ f x, e.requestId? = some (key x))
    (h : id ∉ xs.map key) : eventsOf id (xs.flatMap f) = [] := by
  refine eventsOf_eq_nil fun e he heq => h ?_
  obtain ⟨x, hx, he⟩ := List.mem_flatMap.mp he
  rw [hf x hx e he] at heq
  exact List.mem_map.mpr ⟨x, hx, Option.some.inj heq⟩

/-- A request that is among them has its own. -/
theorem eventsOf_flatMap_of_mem (hnodup : (xs.map key).Nodup)
    (hf : ∀ x ∈ xs, ∀ e ∈ f x, e.requestId? = some (key x)) {x : α} (h : x ∈ xs) :
    eventsOf (key x) (xs.flatMap f) = f x := by
  induction xs with
  | nil => cases h
  | cons y ys ih =>
      obtain ⟨hnot, hys⟩ := List.nodup_cons.mp hnodup
      have hfys : ∀ x ∈ ys, ∀ e ∈ f x, e.requestId? = some (key x) := fun x hx =>
        hf x (List.mem_cons_of_mem _ hx)
      rw [List.flatMap_cons, eventsOf_append]
      rcases List.mem_cons.mp h with rfl | h
      · rw [eventsOf_flatMap_of_notMem hfys hnot, List.append_nil]
        exact eventsOf_eq_self (hf x List.mem_cons_self)
      · have hne : key y ≠ key x := fun heq => hnot (heq ▸ List.mem_map_of_mem h)
        rw [ih hys hfys h, eventsOf_eq_nil, List.nil_append]
        intro e he heq
        rw [hf y List.mem_cons_self e he] at heq
        exact hne (Option.some.inj heq)

end EventsOf

namespace NativeScheduler

open EventLog (Open InOrder)

variable [DecidableEq ρ] {svc : SchedulerServices ρ σ π φ} {config : SchedulerConfig}
  {s s' : NativeScheduler ρ σ φ} {log : ρ → List (SchedulerEvent ρ)} {due : ρ → Prop} {id : ρ}

/-- The events so far of each request, those that are still owed included.  A request that runs
and waits for results has had no end, but for those that the caller is `due` to finish. -/
structure Tracked (s : NativeScheduler ρ σ φ) (log : ρ → List (SchedulerEvent ρ))
    (due : ρ → Prop) : Prop where
  wf : s.Wf
  fresh : ∀ id ∈ s.waiting, log id = []
  running : ∀ id ∈ s.running, ¬ due id →
    ((s.states id).finishRequested = true → (s.states id).cancelRequested = true) → Open (log id)
  inFlight : ∀ step, s.inFlight = some step → ∀ r ∈ step.selected, Open (log r.requestId)
  inOrder : ∀ id, InOrder (log id)
  tokens : ∀ id, tokenCount (log id) = (s.states id).generatedTokens

omit [DecidableEq ρ] in
theorem Tracked.open_of_open (h : Tracked s log due) (hid : id ∈ s.running) (hdue : ¬ due id)
    (hopen : (s.states id).open = true) : Open (log id) := by
  refine h.running id hid hdue fun hfinish => ?_
  simp [ScheduledState.open, hfinish] at hopen

theorem leave_eq_ok {ids : List ρ} (h : s.leave svc ids = .ok s') : ∃ world, s' = { s with
    world := world
    waiting := s.waiting.filter (· ∉ ids)
    running := s.running.filter (· ∉ ids) } := by
  simp only [leave] at h
  cases hrelease : releaseAll svc (ids.map fun id => (s.states id).cacheHandle) s.world with
  | error e =>
      rw [hrelease] at h
      cases h
  | ok world =>
      rw [hrelease] at h
      exact ⟨world, (Except.ok.inj h).symm⟩

theorem Tracked.leave {ids : List ρ} (h : Tracked s log due)
    (hids : ∀ id ∈ ids, id ∉ s.inFlightIds) (heq : s.leave svc ids = .ok s') :
    Tracked s' log due := by
  have hwf := h.wf.leave hids heq
  obtain ⟨world, rfl⟩ := leave_eq_ok heq
  exact ⟨hwf, fun id hid => h.fresh id (List.mem_of_mem_filter hid),
    fun id hid => h.running id (List.mem_of_mem_filter hid), h.inFlight, h.inOrder, h.tokens⟩

omit [DecidableEq ρ] in
/-- The end of requests that have left. -/
theorem Tracked.ended {E : ρ → List (SchedulerEvent ρ)} (h : Tracked s log due)
    (hE : ∀ id, E id = [] ∨ ¬ s.Present id ∧ Open (log id) ∧ ∃ e, E id = [e] ∧ e.isTerminal) :
    Tracked s (fun id => log id ++ E id) due := by
  have hnil : ∀ id, s.Present id → E id = [] := fun id hid =>
    (hE id).resolve_right fun hended => hended.1 hid
  refine ⟨h.wf, fun id hid => ?_, fun id hid hdue hflags => ?_, fun step hstep r hr => ?_,
    fun id => ?_, fun id => ?_⟩
  · rw [hnil id (.inl hid), List.append_nil]
    exact h.fresh id hid
  · rw [hnil id (.inr hid), List.append_nil]
    exact h.running id hid hdue hflags
  · rw [hnil _ (.inr ((h.wf.inFlight step hstep).running r hr)), List.append_nil]
    exact h.inFlight step hstep r hr
  · rcases hE id with hempty | ⟨-, hopen, e, he, hterminal⟩
    · rw [hempty, List.append_nil]
      exact h.inOrder id
    · rw [he]
      exact hopen.terminal hterminal
  · rw [EventLog.tokenCount_append, h.tokens]
    rcases hE id with hempty | ⟨-, -, e, he, hterminal⟩
    · rw [hempty]
      rfl
    · rw [he, EventLog.tokenCount_terminal hterminal, Nat.add_zero]

/-- What requests that leave do not change. -/
structure Reaped (s s' : NativeScheduler ρ σ φ) : Prop where
  states : s'.states = s.states
  inFlight : s'.inFlight = s.inFlight
  waiting : ∀ id ∈ s'.waiting, id ∈ s.waiting
  running : ∀ id ∈ s'.running, id ∈ s.running

omit [DecidableEq ρ] in
theorem Reaped.present (h : Reaped s s') (hid : s'.Present id) : s.Present id :=
  hid.imp (h.waiting id) (h.running id)

omit [DecidableEq ρ] in
theorem Reaped.inFlightIds (h : Reaped s s') : s'.inFlightIds = s.inFlightIds := by
  simp only [NativeScheduler.inFlightIds, h.inFlight]

omit [DecidableEq ρ] in
theorem Reaped.trans {s'' : NativeScheduler ρ σ φ} (h : Reaped s s') (h' : Reaped s' s'') :
    Reaped s s'' where
  states := h'.states.trans h.states
  inFlight := h'.inFlight.trans h.inFlight
  waiting id hid := h.waiting id (h'.waiting id hid)
  running id hid := h.running id (h'.running id hid)

theorem reaped_of_leave {ids : List ρ} (h : s.leave svc ids = .ok s') : Reaped s s' := by
  obtain ⟨world, rfl⟩ := leave_eq_ok h
  exact ⟨rfl, rfl, fun id hid => List.mem_of_mem_filter hid,
    fun id hid => List.mem_of_mem_filter hid⟩

/-- Finished requests leave, without an event. -/
theorem Tracked.reapFinished {protectedIds : List ρ} (h : Tracked s log due)
    (hprotected : ∀ id ∈ s.inFlightIds, id ∈ protectedIds)
    (heq : reapFinished svc protectedIds s = .ok s') :
    Tracked s' log due ∧ Reaped s s' ∧
      ∀ id, s'.Present id → (s.states id).finishRequested = true → id ∈ protectedIds := by
  obtain ⟨hwaiting, hrunning, -⟩ := List.nodup_append.mp h.wf.nodup
  rw [NativeScheduler.reapFinished, reapFinishedFrom_eq _ hwaiting hrunning] at heq
  have hnot : ∀ id ∈ (s.waiting ++ s.running).filter fun id =>
      (s.states id).finishRequested && id ∉ protectedIds, id ∉ s.inFlightIds := by
    intro id hid hmem
    have := (List.mem_filter.mp hid).2
    simp [hprotected id hmem] at this
  refine ⟨h.leave hnot heq, reaped_of_leave heq, fun id hid hfinish => ?_⟩
  obtain ⟨world, rfl⟩ := leave_eq_ok heq
  by_contra hp
  simp only [Present, List.mem_filter, List.mem_append, decide_eq_true_eq, hfinish, hp] at hid
  simp at hid
  tauto

/-- Cancelled requests leave, each with an event. -/
theorem Tracked.reapCancelled {protectedIds : List ρ} {events : List (SchedulerEvent ρ)}
    (h : Tracked s log due) (hprotected : ∀ id ∈ s.inFlightIds, id ∈ protectedIds)
    (hdue : ∀ id ∈ s.running, (s.states id).cancelRequested = true → ¬ due id)
    (heq : reapCancelled svc protectedIds s = .ok (events, s')) :
    Tracked s' (fun id => log id ++ eventsOf id events) due ∧
      Reaped s s' ∧
      (∀ id, s'.Present id → (s.states id).cancelRequested = true → id ∈ protectedIds) ∧
      ∀ id, (s.states id).cancelRequested = false → eventsOf id events = [] := by
  obtain ⟨hwaiting, hrunning, -⟩ := List.nodup_append.mp h.wf.nodup
  rw [NativeScheduler.reapCancelled, reapCancelledFrom_eq _ h.wf.nodup hwaiting hrunning] at heq
  generalize hids : ((s.waiting ++ s.running).filter fun id =>
    (s.states id).cancelRequested && id ∉ protectedIds) = ids at heq
  have hmem : ∀ id, id ∈ ids ↔ s.Present id ∧ (s.states id).cancelRequested = true ∧
      id ∉ protectedIds := by
    intro id
    rw [← hids, List.mem_filter, List.mem_append, Bool.and_eq_true, decide_eq_true_eq]
    rfl
  cases hleave : s.leave svc ids with
  | error e =>
      rw [hleave] at heq
      cases heq
  | ok s₁ =>
      rw [hleave] at heq
      obtain ⟨rfl, rfl⟩ := Prod.mk.inj (Except.ok.inj heq)
      have htracked := h.leave (fun id hid hflight =>
        ((hmem id).mp hid).2.2 (hprotected id hflight)) hleave
      obtain ⟨world, hs₁⟩ := leave_eq_ok hleave
      have hpresent : ∀ id, s₁.Present id ↔ s.Present id ∧ id ∉ ids := by
        intro id
        simp only [hs₁, Present, List.mem_filter, decide_eq_true_eq]
        tauto
      have hnodup : ids.Nodup := hids ▸ h.wf.nodup.filter _
      have hkeys : (ids.map fun id : ρ => id).Nodup := (List.map_id ids).symm ▸ hnodup
      have hevents : ∀ id ∈ ids, eventsOf id (ids.map fun id =>
          SchedulerEvent.cancelled id (s.cancellationStage id)) =
            [.cancelled id (s.cancellationStage id)] := by
        intro id hid
        rw [List.map_eq_flatMap]
        refine eventsOf_flatMap_of_mem hkeys (fun x _ e he => ?_) hid
        exact List.mem_singleton.mp he ▸ rfl
      have hnone : ∀ id ∉ ids, eventsOf id (ids.map fun id =>
          SchedulerEvent.cancelled id (s.cancellationStage id)) = [] := by
        intro id hid
        refine eventsOf_eq_nil fun e he heq => hid ?_
        obtain ⟨x, hx, rfl⟩ := List.mem_map.mp he
        exact Option.some.inj heq ▸ hx
      refine ⟨htracked.ended fun id => ?_, reaped_of_leave hleave, fun id hid hcancel => ?_,
        fun id hid => ?_⟩
      · by_cases hid : id ∈ ids
        · refine .inr ⟨fun hp => ((hpresent id).mp hp).2 hid, ?_, _, hevents id hid, rfl⟩
          obtain ⟨hp, hcancel, -⟩ := (hmem id).mp hid
          rcases hp with hw | hr
          · rw [h.fresh id hw]
            exact EventLog.open_nil
          · exact h.running id hr (hdue id hr hcancel) fun _ => hcancel
        · exact .inl (hnone id hid)
      · obtain ⟨hp, hnot⟩ := (hpresent id).mp hid
        by_contra hprot
        exact hnot ((hmem id).mpr ⟨hp, hcancel, hprot⟩)
      · refine hnone id fun hmemid => ?_
        rw [((hmem id).mp hmemid).2.1] at hid
        cases hid

/-- Selection admits waiting requests, which have had no events. -/
theorem Tracked.selectWork {selected : List (ExecutionRequest ρ)} (h : Tracked s log due)
    (heq : s.selectWork svc config = .ok (selected, s')) : Tracked s' log due := by
  obtain ⟨hwf, -, -⟩ := h.wf.selectWork heq
  obtain ⟨probes, ids, admissions, world, -, -, rfl, -⟩ := selectWork_eq_ok h.wf.nodup
    (fun id hid => (h.wf.waiting id hid).cacheHandle) h.wf.running heq
  have hkept := kept_admittedAll probes ids admissions world s
  refine ⟨hwf, fun id hid => h.fresh id (List.mem_of_mem_filter hid), fun id hid hdue hflags => ?_,
    h.inFlight, h.inOrder, fun id => (h.tokens id).trans (hkept id).generatedTokens.symm⟩
  rcases List.mem_append.mp hid with hid | hid
  · rw [(hkept id).finishRequested, (hkept id).cancelRequested] at hflags
    exact h.running id hid hdue hflags
  · have hw : id ∈ s.waiting := of_decide_eq_true (List.mem_filter.mp hid).2
    rw [h.fresh id hw]
    exact EventLog.open_nil

/-! ## Results -/

/-- The events of the result of a request: its failure, or what counts. -/
def outcomeEvents (config : SchedulerConfig) (result : StepResult ρ)
    (request : ExecutionRequest ρ) (st : ScheduledState ρ) : List (SchedulerEvent ρ) :=
  if st.open then
    match judge result request with
    | .error (code, message) => [.executionError request.requestId code message]
    | .ok item => resultEvents result request item (applyResult config request item st)
  else []

omit [DecidableEq ρ] in
theorem requestId_resultEvents {result : StepResult ρ} {request : ExecutionRequest ρ}
    {item : StepRequestResult ρ} {st : ScheduledState ρ} :
    ∀ e ∈ resultEvents result request item st, e.requestId? = some request.requestId := by
  intro e he
  simp only [resultEvents] at he
  split at he
  · split at he
    · rcases List.mem_cons.mp he with rfl | he
      · rfl
      · exact List.mem_singleton.mp he ▸ rfl
    · exact List.mem_singleton.mp he ▸ rfl
  · exact List.mem_singleton.mp he ▸ rfl

theorem requestId_outcomeEvents {result : StepResult ρ} {request : ExecutionRequest ρ}
    {st : ScheduledState ρ} :
    ∀ e ∈ outcomeEvents config result request st, e.requestId? = some request.requestId := by
  intro e he
  simp only [outcomeEvents] at he
  split at he
  · split at he
    · exact List.mem_singleton.mp he ▸ rfl
    · exact requestId_resultEvents e he
  · cases he

omit [DecidableEq ρ] in
/-- The events of a result that counts go on in order, with the token that is counted. -/
theorem open_resultEvents {result : StepResult ρ} {request : ExecutionRequest ρ}
    (item : StepRequestResult ρ) {st : ScheduledState ρ} {events : List (SchedulerEvent ρ)}
    (hopen : Open events) (htokens : tokenCount events = st.generatedTokens)
    (hprefill : request.phase = .prefill → st.generatedTokens = 0) :
    Open (events ++ resultEvents result request item (applyResult config request item st)) ∧
      tokenCount (events ++ resultEvents result request item
        (applyResult config request item st)) =
        (applyResult config request item st).generatedTokens := by
  rw [EventLog.tokenCount_append, htokens]
  cases hphase : request.phase with
  | decode =>
      simp only [resultEvents, applyResult, hphase]
      exact ⟨hopen.token rfl, rfl⟩
  | prefill =>
      have hzero := htokens.trans (hprefill hphase)
      simp only [resultEvents, applyResult, hphase, ScheduledState.promptLength]
      by_cases hend : st.promptCursor + request.tokenIds.length = st.work.promptTokenIds.length
      · simp only [hend, if_true, markGenerated, decide_true]
        refine ⟨?_, rfl⟩
        rw [List.append_cons]
        exact (hopen.progress hzero rfl).token rfl
      · simp only [hend, if_false, decide_false]
        exact ⟨hopen.progress hzero rfl, rfl⟩

omit [DecidableEq ρ] in
theorem Tracked.of_world (h : Tracked s log due) (world : σ) :
    Tracked { s with world := world } log due :=
  ⟨h.wf.of_world world, h.fresh, h.running, h.inFlight, h.inOrder, h.tokens⟩

/-- The results of a step, with the events they owe. -/
theorem Tracked.advance (config : SchedulerConfig) (result : StepResult ρ) {selected : List (ExecutionRequest ρ)}
    (h : Tracked s log due) (hflight : s.inFlight = none)
    (hbatch : Batch s.running s.states selected)
    (hopen : ∀ r ∈ selected, (s.states r.requestId).open = true → Open (log r.requestId)) :
    Tracked { s with states := advancedStates config result selected s.states }
      (fun id => log id ++ eventsOf id (selected.flatMap fun r =>
        outcomeEvents config result r (s.states r.requestId))) due := by
  have hother : ∀ id, id ∉ selected.map ExecutionRequest.requestId →
      eventsOf id (selected.flatMap fun r =>
        outcomeEvents config result r (s.states r.requestId)) = [] ∧
      advancedStates config result selected s.states id = s.states id := fun id hid =>
    ⟨eventsOf_flatMap_of_notMem (fun r _ => requestId_outcomeEvents) hid,
      advancedStates_of_notMem hid s.states⟩
  have hselected : ∀ r ∈ selected, eventsOf r.requestId (selected.flatMap fun r =>
        outcomeEvents config result r (s.states r.requestId)) =
          outcomeEvents config result r (s.states r.requestId) ∧
      advancedStates config result selected s.states r.requestId =
        advanced config result r (s.states r.requestId) := fun r hr =>
    ⟨eventsOf_flatMap_of_mem hbatch.nodup (fun r _ => requestId_outcomeEvents) hr,
      advancedStates_of_mem hbatch.nodup hr s.states⟩
  have hcases : ∀ id, (log id ++ eventsOf id (selected.flatMap fun r =>
        outcomeEvents config result r (s.states r.requestId)) = log id ∧
        advancedStates config result selected s.states id = s.states id) ∨
      (Open (log id) ∧ (s.states id).open = true ∧ ∃ e, e.isTerminal = true ∧
        log id ++ eventsOf id (selected.flatMap fun r =>
          outcomeEvents config result r (s.states r.requestId)) = log id ++ [e] ∧
        advancedStates config result selected s.states id =
          { s.states id with finishRequested := true }) ∨
      (Open (log id ++ eventsOf id (selected.flatMap fun r =>
          outcomeEvents config result r (s.states r.requestId))) ∧
        tokenCount (log id ++ eventsOf id (selected.flatMap fun r =>
          outcomeEvents config result r (s.states r.requestId))) =
            (advancedStates config result selected s.states id).generatedTokens) := by
    intro id
    by_cases hid : id ∈ selected.map ExecutionRequest.requestId
    · obtain ⟨r, hr, rfl⟩ := List.mem_map.mp hid
      rw [(hselected r hr).1, (hselected r hr).2]
      by_cases hwaits : (s.states r.requestId).open = true
      · cases hjudge : judge result r with
        | error failure =>
            refine .inr (.inl ⟨hopen r hr hwaits, hwaits,
              .executionError r.requestId failure.1 failure.2, rfl, ?_, ?_⟩)
            · simp only [outcomeEvents, hwaits, hjudge, if_true]
            · simp only [advanced, hwaits, hjudge, if_true]
        | ok item =>
            have hevents : outcomeEvents config result r (s.states r.requestId) =
                resultEvents result r item (applyResult config r item (s.states r.requestId)) := by
              simp only [outcomeEvents, hwaits, hjudge, if_true]
            have hstate : advanced config result r (s.states r.requestId) =
                applyResult config r item (s.states r.requestId) := by
              simp only [advanced, hwaits, hjudge, if_true]
            rw [hevents, hstate]
            exact .inr (.inr (open_resultEvents item (hopen r hr hwaits) (h.tokens _)
              (hbatch.prefill r hr)))
      · refine .inl ⟨?_, if_neg hwaits⟩
        rw [outcomeEvents, if_neg hwaits, List.append_nil]
    · exact .inl ⟨by rw [(hother id hid).1, List.append_nil], (hother id hid).2⟩
  refine ⟨h.wf.advanced hflight hbatch, fun id hid => ?_, fun id hid hdue hflags => ?_,
    fun step hstep => (Option.some_ne_none _ (hstep.symm.trans hflight)).elim, fun id => ?_, fun id => ?_⟩
  · have hnot : id ∉ selected.map ExecutionRequest.requestId := by
      intro hmem
      obtain ⟨r, hr, rfl⟩ := List.mem_map.mp hmem
      exact h.wf.not_running hid (hbatch.running r hr)
    rw [(hother id hnot).1, List.append_nil]
    exact h.fresh id hid
  · rcases hcases id with ⟨hlog, hstate⟩ | ⟨-, hwaits, -, -, -, hstate⟩ | ⟨hopen', -⟩
    · rw [hlog]
      exact h.running id hid hdue fun hfinish => by
        simpa only [hstate] using hflags (by simpa only [hstate] using hfinish)
    · have hcancel : (s.states id).cancelRequested = true := by
        simpa only [hstate] using hflags (by simp only [hstate])
      simp [ScheduledState.open, hcancel] at hwaits
    · exact hopen'
  · rcases hcases id with ⟨hlog, -⟩ | ⟨hopen', -, e, he, hlog, -⟩ | ⟨hopen', -⟩
    · rw [hlog]
      exact h.inOrder id
    · rw [hlog]
      exact hopen'.terminal he
    · exact hopen'.inOrder
  · rcases hcases id with ⟨hlog, hstate⟩ | ⟨-, -, e, he, hlog, hstate⟩ | ⟨-, htokens⟩
    · rw [hlog]
      exact (h.tokens id).trans (congrArg _ hstate.symm)
    · rw [hlog, EventLog.tokenCount_append, EventLog.tokenCount_terminal he]
      refine (h.tokens id).trans ?_
      show _ = (advancedStates config result selected s.states id).generatedTokens
      rw [hstate]
    · exact htokens

/-! ## Batches that raise -/

theorem eventsOf_emitFailures {selected : List (ExecutionRequest ρ)}
    (hnodup : (selected.map ExecutionRequest.requestId).Nodup) (e : PyError) (id : ρ) :
    (id ∉ selected.map ExecutionRequest.requestId ∧ eventsOf id (emitFailures selected e) = []) ∨
      (∃ r ∈ selected, r.requestId = id) ∧
        ∃ event, event.isTerminal = true ∧ eventsOf id (emitFailures selected e) = [event] := by
  have hmap : emitFailures selected e = selected.flatMap fun r =>
      [.executionError r.requestId (batchErrorCode e) e.message] := List.map_eq_flatMap
  rw [hmap]
  by_cases hid : id ∈ selected.map ExecutionRequest.requestId
  · obtain ⟨r, hr, rfl⟩ := List.mem_map.mp hid
    refine .inr ⟨⟨r, hr, rfl⟩, .executionError r.requestId (batchErrorCode e) e.message, rfl,
      eventsOf_flatMap_of_mem hnodup (fun x _ event he => ?_) hr⟩
    exact List.mem_singleton.mp he ▸ rfl
  · refine .inl ⟨hid, eventsOf_flatMap_of_notMem
      (fun x _ event he => ?_) hid⟩
    exact List.mem_singleton.mp he ▸ rfl

/-- A batch raises: its requests have failed, and the caller finishes them, or they are marked
as finished. -/
theorem Tracked.failed {selected : List (ExecutionRequest ρ)} (h : Tracked s log due)
    (hflight : s.inFlight = none) (hbatch : Batch s.running s.states selected)
    (hopen : ∀ r ∈ selected, Open (log r.requestId)) (e : PyError) :
    Tracked s (fun id => log id ++ eventsOf id (emitFailures selected e))
      (fun id => due id ∨ id ∈ selected.map ExecutionRequest.requestId) := by
  have hcases := eventsOf_emitFailures hbatch.nodup e
  refine ⟨h.wf, fun id hid => ?_, fun id hid hdue hflags => ?_,
    fun step hstep => (Option.some_ne_none _ (hstep.symm.trans hflight)).elim, fun id => ?_, fun id => ?_⟩
  · rcases hcases id with ⟨-, hnil⟩ | ⟨⟨r, hr, rfl⟩, -⟩
    · rw [hnil, List.append_nil]
      exact h.fresh id hid
    · exact absurd (hbatch.running r hr) (h.wf.not_running hid)
  · rcases hcases id with ⟨-, hnil⟩ | ⟨⟨r, hr, rfl⟩, -⟩
    · rw [hnil, List.append_nil]
      exact h.running id hid (fun hd => hdue (.inl hd)) hflags
    · exact absurd (.inr (List.mem_map_of_mem hr)) hdue
  · rcases hcases id with ⟨-, hnil⟩ | ⟨⟨r, hr, rfl⟩, event, he, hevents⟩
    · rw [hnil, List.append_nil]
      exact h.inOrder id
    · rw [hevents]
      exact (hopen r hr).terminal he
  · rw [EventLog.tokenCount_append, h.tokens]
    rcases hcases id with ⟨-, hnil⟩ | ⟨-, event, he, hevents⟩
    · rw [hnil]
      rfl
    · rw [hevents, EventLog.tokenCount_terminal he, Nat.add_zero]

theorem Tracked.markFinished {selected : List (ExecutionRequest ρ)}
    (h : Tracked s log (fun id => due id ∨ id ∈ selected.map ExecutionRequest.requestId))
    (hcancel : ∀ r ∈ selected, (s.states r.requestId).cancelRequested = false) :
    Tracked (s.markFinished selected) log due := by
  rw [markFinished_eq]
  refine ⟨h.wf.of_states fun id => ?_, h.fresh, fun id hid hdue hflags => ?_, h.inFlight,
    h.inOrder, fun id => ?_⟩
  · split <;> exact ⟨rfl, rfl, rfl, rfl, rfl⟩
  · by_cases hmem : id ∈ selected.map ExecutionRequest.requestId
    · obtain ⟨r, hr, rfl⟩ := List.mem_map.mp hmem
      simp only [hmem, if_true, hcancel r hr] at hflags
      cases hflags trivial
    · simp only [hmem, if_false] at hflags
      exact h.running id hid (not_or.mpr ⟨hdue, hmem⟩) hflags
  · refine (h.tokens id).trans ?_
    by_cases hmem : id ∈ selected.map ExecutionRequest.requestId
    · simp only [hmem, if_true]
    · simp only [hmem, if_false]

/-! ## The events that are owed -/

/-- The events of a result that counts; `st'` is the state when they are said. -/
def acceptedEvents (result : StepResult ρ) (request : ExecutionRequest ρ)
    (st st' : ScheduledState ρ) : List (SchedulerEvent ρ) :=
  match accepted? result request st with
  | some (request, item) => resultEvents result request item st'
  | none => []

theorem accepted?_fst {result : StepResult ρ} {request : ExecutionRequest ρ}
    {st : ScheduledState ρ} {a : ExecutionRequest ρ × StepRequestResult ρ}
    (h : accepted? result request st = some a) : a.1 = request := by
  simp only [accepted?] at h
  split at h
  · split at h
    · cases h
    · exact (congrArg Prod.fst (Option.some.inj h)).symm
  · cases h

theorem requestId_acceptedEvents {result : StepResult ρ} {request : ExecutionRequest ρ}
    {st st' : ScheduledState ρ} :
    ∀ e ∈ acceptedEvents result request st st', e.requestId? = some request.requestId := by
  intro e he
  simp only [acceptedEvents] at he
  split at he
  · rename_i hsome
    exact accepted?_fst hsome ▸ requestId_resultEvents e he
  · cases he

theorem requestId_failureEvents {result : StepResult ρ} {request : ExecutionRequest ρ}
    {st : ScheduledState ρ} :
    ∀ e ∈ failureEvents result request st, e.requestId? = some request.requestId := by
  intro e he
  simp only [failureEvents] at he
  split at he
  · split at he
    · exact List.mem_singleton.mp he ▸ rfl
    · cases he
  · cases he

/-- A request fails, or its result counts. -/
theorem outcomeEvents_eq (result : StepResult ρ) (request : ExecutionRequest ρ)
    (st : ScheduledState ρ) : outcomeEvents config result request st =
      failureEvents result request st ++
        acceptedEvents result request st (advanced config result request st) := by
  simp only [outcomeEvents, failureEvents, acceptedEvents, accepted?, advanced]
  by_cases hopen : st.open = true
  · simp only [hopen, if_true]
    cases judge result request <;> simp
  · simp only [hopen, Bool.false_eq_true, if_false, List.append_nil]

/-- What counts has not failed and was not cancelled. -/
theorem acceptedEvents_ne_nil {result : StepResult ρ} {request : ExecutionRequest ρ}
    {st st' : ScheduledState ρ} (h : acceptedEvents result request st st' ≠ []) :
    (∃ item, accepted? result request st = some (request, item)) ∧ st.open = true ∧
      failureEvents result request st = [] := by
  simp only [acceptedEvents, accepted?, failureEvents] at h ⊢
  by_cases hopen : st.open = true
  · simp only [hopen, if_true] at h ⊢
    cases hjudge : judge result request with
    | error failure => simp [hjudge] at h
    | ok item => simp
  · simp [hopen] at h

omit [DecidableEq ρ] in
/-- The prompt of a request is what its events read. -/
theorem resultEvents_congr {result : StepResult ρ} {request : ExecutionRequest ρ}
    {item : StepRequestResult ρ} {st st' : ScheduledState ρ} (hwork : st'.work = st.work)
    (hcursor : st'.promptCursor = st.promptCursor)
    (hreused : st'.reusedPromptTokens = st.reusedPromptTokens) :
    resultEvents result request item st' = resultEvents result request item st := by
  unfold resultEvents ScheduledState.promptLength
  rw [hwork, hcursor, hreused]

theorem flatMap_accepted (result : StepResult ρ) (selected : List (ExecutionRequest ρ))
    (states states' : ρ → ScheduledState ρ) :
    ((selected.filterMap fun r => accepted? result r (states r.requestId)).flatMap fun a =>
      resultEvents result a.1 a.2 (states' a.1.requestId)) =
        selected.flatMap fun r =>
          acceptedEvents result r (states r.requestId) (states' r.requestId) := by
  induction selected with
  | nil => rfl
  | cons r rest ih =>
      rw [List.filterMap_cons, List.flatMap_cons, ← ih]
      cases hjudge : accepted? result r (states r.requestId) with
      | none => simp [acceptedEvents, hjudge]
      | some a =>
          obtain rfl := accepted?_fst hjudge
          simp only [List.flatMap_cons, acceptedEvents, hjudge]

omit [DecidableEq ρ] in
theorem requestId_phaseMetrics {selected : List (ExecutionRequest ρ)} {phase : ExecutionPhase} :
    ∀ e ∈ phaseMetrics selected s phase, e.requestId? = none := by
  intro e he
  simp only [phaseMetrics] at he
  split at he
  · cases he
  · exact List.mem_singleton.mp he ▸ rfl

/-- The events of each request in a step that is emitted. -/
theorem eventsOf_emitStepResult {selected : List (ExecutionRequest ρ)} {result : StepResult ρ}
    {states : ρ → ScheduledState ρ} {events : List (SchedulerEvent ρ)}
    (h : emitStepResult svc selected result
      (selected.filterMap fun r => accepted? result r (states r.requestId)) s =
        .ok (events, s')) :
    s' = { s with world := s'.world } ∧ ∀ id, eventsOf id events =
      eventsOf id (selected.flatMap fun r =>
        acceptedEvents result r (states r.requestId) (s.states r.requestId)) := by
  obtain ⟨hs', rfl⟩ := emitStepResult_eq_ok h
  refine ⟨hs', fun id => ?_⟩
  have hmetrics : ∀ phase, eventsOf id (phaseMetrics selected s' phase) = [] := fun phase =>
    eventsOf_eq_nil fun e he heq => nomatch (requestId_phaseMetrics e he).symm.trans heq
  rw [eventsOf_append, eventsOf_append, hmetrics, hmetrics, List.append_nil, List.append_nil,
    flatMap_accepted]

/-- The events of each request in a step: those of its outcome. -/
theorem eventsOf_outcome {selected : List (ExecutionRequest ρ)} {result : StepResult ρ}
    (hnodup : (selected.map ExecutionRequest.requestId).Nodup)
    (states states' : ρ → ScheduledState ρ)
    (hstates : ∀ r ∈ selected, acceptedEvents result r (states r.requestId)
      (states' r.requestId) = acceptedEvents result r (states r.requestId)
        (advanced config result r (states r.requestId))) (id : ρ) :
    eventsOf id (selected.flatMap fun r => outcomeEvents config result r (states r.requestId)) =
      eventsOf id (selected.flatMap fun r => failureEvents result r (states r.requestId)) ++
        eventsOf id (selected.flatMap fun r =>
          acceptedEvents result r (states r.requestId) (states' r.requestId)) := by
  by_cases hid : id ∈ selected.map ExecutionRequest.requestId
  · obtain ⟨r, hr, rfl⟩ := List.mem_map.mp hid
    rw [eventsOf_flatMap_of_mem hnodup (fun r _ => requestId_outcomeEvents) hr,
      eventsOf_flatMap_of_mem hnodup (fun r _ => requestId_failureEvents) hr,
      eventsOf_flatMap_of_mem hnodup (fun r _ => requestId_acceptedEvents) hr, hstates r hr,
      outcomeEvents_eq]
  · rw [eventsOf_flatMap_of_notMem (fun r _ => requestId_outcomeEvents) hid,
      eventsOf_flatMap_of_notMem (fun r _ => requestId_failureEvents) hid,
      eventsOf_flatMap_of_notMem (fun r _ => requestId_acceptedEvents) hid, List.append_nil]

/-- A step that is applied at once. -/
theorem applyStepResult_eq_ok {selected : List (ExecutionRequest ρ)} {result : StepResult ρ}
    (hnodup : (selected.map ExecutionRequest.requestId).Nodup) {events : List (SchedulerEvent ρ)}
    (h : applyStepResult svc config selected result s = .ok (events, s')) :
    s' = { s with
      states := advancedStates config result selected s.states, world := s'.world } ∧
      ∀ id, eventsOf id events = eventsOf id (selected.flatMap fun r =>
        outcomeEvents config result r (s.states r.requestId)) := by
  rw [applyStepResult, advanceStepState_eq hnodup] at h
  obtain ⟨⟨events', s₁⟩, hemit, h⟩ := bind_eq_ok h
  obtain ⟨rfl, rfl⟩ := Prod.mk.inj (Except.ok.inj h)
  obtain ⟨hs₁, hevents⟩ := eventsOf_emitStepResult hemit
  refine ⟨hs₁, fun id => ?_⟩
  rw [eventsOf_append, hevents, eventsOf_outcome hnodup s.states _ fun r hr => ?_]
  exact congrArg _ (advancedStates_of_mem hnodup hr s.states)

end NativeScheduler
end MlxRuntime
