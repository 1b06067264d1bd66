import MlxRuntime.Scheduler.EventOrder
import MlxRuntime.Lib.Run

/-!
# The scheduler's events over a run

The caller submits, cancels and finishes requests between ticks, and finishes the request of
each end that a tick reports.  A serial tick always keeps the order of the events.  An
overlapping tick does unless one of two batches raises: the one that is resolved, when one of
its requests was cancelled meanwhile, or the one that is launched, when it has a request of the
resolved step, whose events are still owed.

## Main definitions

* `NativeScheduler.Resting` — the events so far, between two ticks.
* `keepsOrder` — the condition on an overlapping tick.
* `SchedulerCaller`, `SchedulerOp` — runs.
-/

namespace MlxRuntime

variable {ρ σ π φ : Type}

namespace EventLog

variable {log : List (SchedulerEvent ρ)}

theorem Open.not_terminal (h : Open log) : ∀ e ∈ log, e.isTerminal = false := by
  obtain ⟨progress, tokens, rfl, hprogress, htokens⟩ := h
  intro e he
  rcases List.mem_append.mp he with he | he
  · have := hprogress e he
    cases e <;> simp_all [SchedulerEvent.isProgress, SchedulerEvent.isTerminal]
  · have := htokens e he
    cases e <;> simp_all [SchedulerEvent.isToken, SchedulerEvent.isTerminal]

/-- Only the last event is an end. -/
theorem InOrder.dropLast (h : InOrder log) : ∀ e ∈ log.dropLast, e.isTerminal = false := by
  obtain ⟨progress, tokens, ends, rfl, hprogress, htokens, hlength, -⟩ := h
  have hopen : Open (progress ++ tokens) := ⟨progress, tokens, rfl, hprogress, htokens⟩
  match ends, hlength with
  | [], _ =>
      rw [List.append_nil]
      exact fun e he => hopen.not_terminal e (List.dropLast_subset _ he)
  | [e], _ =>
      rw [List.dropLast_concat]
      exact hopen.not_terminal

theorem InOrder.open (h : InOrder log) (hnot : ∀ e ∈ log, e.isTerminal = false) : Open log := by
  obtain ⟨progress, tokens, ends, rfl, hprogress, htokens, -, hends⟩ := h
  cases ends with
  | nil => exact ⟨progress, tokens, List.append_nil _, hprogress, htokens⟩
  | cons e rest =>
      have hfalse := hnot e (List.mem_append_right _ List.mem_cons_self)
      rw [hends e List.mem_cons_self] at hfalse
      cases hfalse

end EventLog

namespace NativeScheduler

open EventLog (Open InOrder)

variable [DecidableEq ρ] {svc : SchedulerServices ρ σ π φ} {config : SchedulerConfig}
  {s s' : NativeScheduler ρ σ φ} {log : ρ → List (SchedulerEvent ρ)} {due : ρ → Prop} {id : ρ}

omit [DecidableEq ρ] in
theorem Tracked.congr {log' : ρ → List (SchedulerEvent ρ)} (h : Tracked s log due)
    (heq : ∀ id, log id = log' id) : Tracked s log' due := (funext heq : log = log') ▸ h

/-- Between two ticks: a request that runs has had no end. -/
structure Resting (s : NativeScheduler ρ σ φ) (log : ρ → List (SchedulerEvent ρ)) : Prop where
  wf : s.Wf
  fresh : ∀ id ∈ s.waiting, log id = []
  running : ∀ id ∈ s.running, Open (log id)
  inOrder : ∀ id, InOrder (log id)
  tokens : ∀ id, tokenCount (log id) = (s.states id).generatedTokens

omit [DecidableEq ρ] in
theorem Resting.tracked (h : Resting s log) (due : ρ → Prop) : Tracked s log due where
  wf := h.wf
  fresh := h.fresh
  running id hid _ _ := h.running id hid
  inFlight step hstep r hr := h.running _ ((h.wf.inFlight step hstep).running r hr)
  inOrder := h.inOrder
  tokens := h.tokens

omit [DecidableEq ρ] in
theorem Resting.open (h : Resting s log) (hid : s.Present id) : Open (log id) := by
  rcases hid with hid | hid
  · rw [h.fresh id hid]
    exact EventLog.open_nil
  · exact h.running id hid

/-! ## Selection -/

/-- What selection leaves as it is. -/
structure SelectFrame (s s' : NativeScheduler ρ σ φ) : Prop where
  inFlight : s'.inFlight = s.inFlight
  present : ∀ id, s'.Present id → s.Present id
  kept : ∀ id, Kept (s.states id) (s'.states id)
  prompt : ∀ id, id ∉ s.waiting → (s'.states id).promptCursor = (s.states id).promptCursor ∧
    (s'.states id).reusedPromptTokens = (s.states id).reusedPromptTokens

theorem Wf.selectFrame (h : s.Wf) {selected : List (ExecutionRequest ρ)}
    (heq : s.selectWork svc config = .ok (selected, s')) : SelectFrame s s' := by
  obtain ⟨probes, ids, admissions, world, -, -, rfl, -⟩ := selectWork_eq_ok h.nodup
    (fun id hid => (h.waiting id hid).cacheHandle) h.running heq
  refine ⟨rfl, fun id hid => ?_, kept_admittedAll probes ids admissions world s, fun id hid => ?_⟩
  · rcases hid with hid | hid
    · exact .inl (List.mem_of_mem_filter hid)
    · rcases List.mem_append.mp hid with hid | hid
      · exact .inr hid
      · exact .inl (of_decide_eq_true (List.mem_filter.mp hid).2)
  · rw [admittedAll_of_not fun hboth => hid hboth.2]
    exact ⟨rfl, rfl⟩

/-! ## A serial tick -/

/-- A step that runs: its events, with the requests that the caller finishes. -/
theorem Tracked.runStep {selected : List (ExecutionRequest ρ)} {events : List (SchedulerEvent ρ)}
    (h : Tracked s log due) (hflight : s.inFlight = none)
    (hbatch : Batch s.running s.states selected)
    (hopen : ∀ r ∈ selected, Open (log r.requestId))
    (heq : runStep svc config selected s = .ok (events, s')) :
    (∃ due, Tracked s' (fun id => log id ++ eventsOf id events) due) ∧ s'.inFlight = none ∧
      s'.waiting = s.waiting ∧ s'.running = s.running ∧
      ∀ id, (s'.states id).cancelRequested = (s.states id).cancelRequested := by
  rw [NativeScheduler.runStep] at heq
  split at heq
  · obtain ⟨rfl, rfl⟩ := Prod.mk.inj (Except.ok.inj heq)
    rename_i e world _
    exact ⟨⟨_, ((h.of_world world).failed hflight hbatch hopen e)⟩, hflight, rfl, rfl,
      fun _ => rfl⟩
  · rename_i result world _
    obtain ⟨hs', hevents⟩ := applyStepResult_eq_ok hbatch.nodup heq
    have hadvance := ((h.of_world world).advance config result hflight
      hbatch fun r hr _ => hopen r hr).of_world s'.world
    rw [hs']
    refine ⟨⟨due, ?_⟩, hflight, rfl, rfl, fun id => ?_⟩
    · exact hadvance.congr fun id => congrArg _ (hevents id).symm
    · exact (advancedStates_kept config result selected s.states id).2.2

omit [DecidableEq ρ] in
theorem Resting.of_round (h : Resting s log) (round : ℕ) :
    Resting { s with schedulerRound := round } log :=
  ⟨⟨h.wf.nodup, h.wf.key, h.wf.waiting, h.wf.running, h.wf.staged, h.wf.inFlight⟩, h.fresh,
    h.running, h.inOrder, h.tokens⟩

/-- The first part of a serial tick: what was cancelled is gone, and work is selected. -/
theorem Resting.reapSelect {reaped : List (SchedulerEvent ρ)} {s₁ s₂ : NativeScheduler ρ σ φ}
    {selected : List (ExecutionRequest ρ)} (h : Resting s log) (hflight : s.inFlight = none)
    (hreap : reapCancelled svc [] s = .ok (reaped, s₁))
    (hselect : selectWork svc config s₁ = .ok (selected, s₂)) :
    Tracked s₂ (fun id => log id ++ eventsOf id reaped) (fun _ => False) ∧ s₂.inFlight = none ∧
      (∀ id, s₂.Present id → s.Present id ∧ (s₂.states id).cancelRequested = false) ∧
      Batch s₂.running s₂.states selected ∧
      ∀ r ∈ selected, (s₂.states r.requestId).open = true := by
  have hids : s.inFlightIds = [] := by simp only [inFlightIds, hflight]
  obtain ⟨hreaped, hleft, hpresent, -⟩ :=
    (h.tracked fun _ => False).reapCancelled (by simp [hids]) (fun _ _ _ => not_false) hreap
  obtain ⟨-, hbatch, hopen⟩ := hreaped.wf.selectWork hselect
  have hframe := hreaped.wf.selectFrame hselect
  refine ⟨hreaped.selectWork hselect, ?_, fun id hid => ?_, hbatch, hopen⟩
  · rw [hframe.inFlight, hleft.inFlight, hflight]
  · have hid' := hframe.present id hid
    refine ⟨hleft.present hid', ?_⟩
    rw [(hframe.kept id).cancelRequested, hleft.states]
    exact Bool.eq_false_iff.mpr fun htrue => List.not_mem_nil (hpresent id hid' htrue)

/-- **A serial tick** keeps the order of the events. -/
theorem Resting.tickSerial {events : List (SchedulerEvent ρ)} (h : Resting s log)
    (hflight : s.inFlight = none) (t : SerialTick svc config s events s') :
    (∃ due, Tracked s' (fun id => log id ++ eventsOf id events) due) ∧ s'.inFlight = none ∧
      ∀ id, s'.Present id → s.Present id := by
  have hround := h.of_round (s.schedulerRound + 1)
  cases t with
  | nothing hreap hselect =>
      obtain ⟨htracked, hnone, hpresent, -⟩ := hround.reapSelect hflight hreap hselect
      exact ⟨⟨_, htracked⟩, hnone, fun id hid => (hpresent id hid).1⟩
  | @ran reaped _ selected s₂ stepEvents s₃ reaped' _ hreap hselect _ hrun hagain =>
      obtain ⟨htracked, hnone, hpresent, hbatch, hopen⟩ := hround.reapSelect hflight hreap hselect
      obtain ⟨⟨due, hran⟩, hnone₃, hwaiting, hrunning, hcancel⟩ :=
        htracked.runStep hnone hbatch (fun r hr =>
          htracked.open_of_open (hbatch.running r hr) not_false (hopen r hr)) hrun
      have hpresent₃ : ∀ id, s₃.Present id → s.Present id ∧
          (s₃.states id).cancelRequested = false := by
        intro id hid
        rw [hcancel]
        exact hpresent id (by simpa only [Present, hwaiting, hrunning] using hid)
      have hids : s₃.inFlightIds = [] := by simp only [inFlightIds, hnone₃]
      obtain ⟨hreaped, hleft, -⟩ :=
        hran.reapCancelled (by simp [hids]) (fun id hid htrue =>
          absurd (htrue.symm.trans (hpresent₃ id (.inr hid)).2) Bool.false_ne_true.symm) hagain
      refine ⟨⟨due, hreaped.congr fun id => ?_⟩, ?_, fun id hid => ?_⟩
      · rw [eventsOf_append, eventsOf_append, List.append_assoc, List.append_assoc,
          List.append_assoc]
      · rw [hleft.inFlight, hnone₃]
      · exact (hpresent₃ id (hleft.present hid)).1

/-! ## An overlapping tick -/

variable (svc) in
/-- When the step in flight raises, none of its requests was cancelled meanwhile. -/
def resolveKeepsOrder (s : NativeScheduler ρ σ φ) : Bool :=
  match s.inFlight with
  | none => true
  | some step =>
      match svc.resolveBatch step.executorStep s.world with
      | (.error _, _) => step.selected.all fun r => !(s.states r.requestId).cancelRequested
      | (.ok _, _) => true

variable (svc) in
/-- When the selected batch raises, none of its requests has a result that is not said yet. -/
def launchKeepsOrder (resolved : Option (ResolvedStep ρ)) (selected : List (ExecutionRequest ρ))
    (s : NativeScheduler ρ σ φ) : Bool :=
  match startBatch svc ⟨selected⟩ s with
  | (.error _, _) => selected.all fun r => resolved.all fun step =>
      r.requestId ∉ step.applied.map fun a => a.1.requestId
  | (.ok _, _) => true

variable (svc config) in
/-- The condition on an overlapping tick. -/
def keepsOrder (s : NativeScheduler ρ σ φ) : Bool :=
  let parts : Except PyError Bool := do
    let (_, s₁) ← reapCancelled svc s.inFlightIds { s with schedulerRound := s.schedulerRound + 1 }
    let s₂ ← reapFinished svc s.inFlightIds s₁
    let (_, resolved, s₃) ← resolveInFlight svc config s₂
    let (selected, s₄) ← selectWork svc config s₃
    return resolveKeepsOrder svc s₂ && launchKeepsOrder svc resolved selected s₄
  match parts with
  | .ok kept => kept
  | .error _ => true

theorem OverlapTick.keepsOrder (t : OverlapTick svc config s)
    (h : NativeScheduler.keepsOrder svc config s = true) :
    resolveKeepsOrder svc t.afterFinished = true ∧
      launchKeepsOrder svc t.resolved t.selected t.afterSelect = true := by
  simpa [NativeScheduler.keepsOrder, t.reapCancelled, t.reapFinished, t.resolve, t.select, bind,
    Except.bind, pure, Except.pure] using h

/-- The events that a resolved step owes, by the states when they are said. -/
structure Owed (resolved : Option (ResolvedStep ρ)) (states : ρ → ScheduledState ρ)
    (owed : ρ → List (SchedulerEvent ρ)) : Prop where
  nothing : resolved = none → ∀ id, owed id = []
  accepted : ∀ step, resolved = some step → ∃ before : ρ → ScheduledState ρ,
    (step.selected.map ExecutionRequest.requestId).Nodup ∧
    step.applied = step.selected.filterMap (fun r =>
      accepted? step.result r (before r.requestId)) ∧
    ∀ id, owed id = eventsOf id (step.selected.flatMap fun r =>
      acceptedEvents step.result r (before r.requestId) (states r.requestId))

/-- A request that is owed something has a result that counts. -/
theorem Owed.mem_applied {resolved : Option (ResolvedStep ρ)} {states : ρ → ScheduledState ρ}
    {owed : ρ → List (SchedulerEvent ρ)} (h : Owed resolved states owed) (hne : owed id ≠ []) :
    ∃ step, resolved = some step ∧ id ∈ step.applied.map fun a => a.1.requestId := by
  cases hresolved : resolved with
  | none => exact absurd (h.nothing hresolved id) hne
  | some step =>
      obtain ⟨before, hnodup, happlied, howed⟩ := h.accepted step hresolved
      refine ⟨step, rfl, ?_⟩
      rw [howed] at hne
      by_cases hid : id ∈ step.selected.map ExecutionRequest.requestId
      · obtain ⟨r, hr, rfl⟩ := List.mem_map.mp hid
        rw [eventsOf_flatMap_of_mem hnodup (fun r _ => requestId_acceptedEvents) hr] at hne
        obtain ⟨⟨item, hitem⟩, -⟩ := acceptedEvents_ne_nil hne
        rw [happlied]
        exact List.mem_map.mpr ⟨(r, item), List.mem_filterMap.mpr ⟨r, hr, hitem⟩, rfl⟩
      · exact absurd (eventsOf_flatMap_of_notMem (fun r _ => requestId_acceptedEvents) hid) hne

/-- The events are the same when other fields change. -/
theorem Owed.of_states {resolved : Option (ResolvedStep ρ)} {states states' : ρ → ScheduledState ρ}
    {owed : ρ → List (SchedulerEvent ρ)} (h : Owed resolved states owed)
    (hkeep : ∀ step, resolved = some step → ∀ r ∈ step.selected,
      (states' r.requestId).work = (states r.requestId).work ∧
      (states' r.requestId).promptCursor = (states r.requestId).promptCursor ∧
      (states' r.requestId).reusedPromptTokens = (states r.requestId).reusedPromptTokens) :
    Owed resolved states' owed := by
  refine ⟨h.nothing, fun step hstep => ?_⟩
  obtain ⟨before, hnodup, happlied, howed⟩ := h.accepted step hstep
  refine ⟨before, hnodup, happlied, fun id => (howed id).trans (congrArg _ ?_)⟩
  refine List.flatMap_congr fun r hr => ?_
  obtain ⟨hwork, hcursor, hreused⟩ := hkeep step hstep r hr
  simp only [acceptedEvents]
  split
  · rename_i request item hsome
    obtain rfl : request = r := accepted?_fst hsome
    exact (resultEvents_congr hwork hcursor hreused).symm
  · rfl

/-- What is owed is said. -/
theorem Owed.emit {resolved : Option (ResolvedStep ρ)} {owed : ρ → List (SchedulerEvent ρ)}
    {events : List (SchedulerEvent ρ)} (h : Owed resolved s.states owed)
    (heq : emitStep? svc resolved s = .ok (events, s')) :
    s' = { s with world := s'.world } ∧ ∀ id, eventsOf id events = owed id := by
  cases hresolved : resolved with
  | none =>
      rw [hresolved] at heq
      obtain ⟨rfl, rfl⟩ := Prod.mk.inj (Except.ok.inj heq)
      exact ⟨rfl, fun id => (h.nothing hresolved id).symm⟩
  | some step =>
      obtain ⟨before, -, happlied, howed⟩ := h.accepted step hresolved
      rw [hresolved] at heq
      simp only [emitStep?, happlied] at heq
      obtain ⟨hs', hevents⟩ := eventsOf_emitStepResult heq
      exact ⟨hs', fun id => (hevents id).trans (howed id).symm⟩

omit [DecidableEq ρ] in
/-- The step in flight has ended. -/
theorem Tracked.landed (h : Tracked s log due) (world : σ) :
    Tracked ({ s with world := world, inFlight := none } : NativeScheduler ρ σ φ) log due :=
  ⟨⟨h.wf.nodup, h.wf.key, h.wf.waiting, h.wf.running, h.wf.staged, fun _ hstep => (nomatch hstep)⟩,
    h.fresh, h.running, fun _ hstep => (nomatch hstep), h.inOrder, h.tokens⟩

/-- What was cancelled or finished leaves, when nothing is in flight. -/
theorem Tracked.reapBoth {reaped : List (SchedulerEvent ρ)} {s₁ : NativeScheduler ρ σ φ}
    (h : Tracked s log (fun _ => False)) (hflight : s.inFlight = none)
    (hreap : NativeScheduler.reapCancelled svc [] s = .ok (reaped, s₁))
    (hfinish : NativeScheduler.reapFinished svc [] s₁ = .ok s') :
    Tracked s' (fun id => log id ++ eventsOf id reaped) (fun _ => False) ∧ Reaped s s' ∧
      (∀ id, s'.Present id → (s'.states id).open = true) ∧
      ∀ id, (s.states id).cancelRequested = false → eventsOf id reaped = [] := by
  have hids : s.inFlightIds = [] := by simp only [inFlightIds, hflight]
  obtain ⟨hreaped, hleft, hcancel, hnone⟩ :=
    h.reapCancelled (by simp [hids]) (fun _ _ _ => not_false) hreap
  obtain ⟨hfinished, hleft', hfin⟩ :=
    hreaped.reapFinished (by simp [hleft.inFlightIds, hids]) hfinish
  refine ⟨hfinished, hleft.trans hleft', fun id hid => ?_, hnone⟩
  have hcancel' := hcancel id (hleft'.present hid)
  have hfin' := hfin id hid
  rw [hleft.states] at hfin'
  rw [(hleft.trans hleft').states, ScheduledState.open,
    Bool.eq_false_iff.mpr fun htrue => List.not_mem_nil (hcancel' htrue),
    Bool.eq_false_iff.mpr fun htrue => List.not_mem_nil (hfin' htrue)]
  rfl

/-- The result of the step in flight: failures are said at once, and what counts is owed. -/
theorem Tracked.resolveStep {step : SchedulerInFlight ρ φ} {events : List (SchedulerEvent ρ)}
    {resolved : Option (ResolvedStep ρ)} (h : Tracked s log (fun _ => False))
    (hflight : s.inFlight = some step) (hkeeps : resolveKeepsOrder svc s = true)
    (heq : NativeScheduler.resolveStep svc config step s = (events, resolved, s')) :
    s'.inFlight = none ∧ s'.waiting = s.waiting ∧ s'.running = s.running ∧
    (∀ step, resolved = some step → ∀ r ∈ step.selected, r.requestId ∉ s.waiting) ∧
    ∃ owed, Tracked s' (fun id => log id ++ (eventsOf id events ++ owed id)) (fun _ => False) ∧
      Owed resolved s'.states owed ∧
      ∀ id, owed id ≠ [] → (s'.states id).cancelRequested = false := by
  have hselected := h.inFlight step hflight
  have hbatch := h.wf.inFlight step hflight
  rw [NativeScheduler.resolveStep] at heq
  split at heq
  · rename_i e world hresult
    obtain ⟨rfl, hrest⟩ := Prod.mk.inj heq
    obtain ⟨rfl, rfl⟩ := Prod.mk.inj hrest
    have hcancel : ∀ r ∈ step.selected, (s.states r.requestId).cancelRequested = false := by
      simpa [resolveKeepsOrder, hflight, hresult] using hkeeps
    have hfailed := ((h.landed world).failed rfl hbatch hselected e).markFinished hcancel
    refine ⟨by rw [markFinished_eq], by rw [markFinished_eq], by rw [markFinished_eq],
      fun _ hstep => (nomatch hstep), fun _ => [], ?_, ⟨fun _ _ => rfl, fun _ hstep =>
        (nomatch hstep)⟩, fun _ hne => absurd rfl hne⟩
    exact hfailed.congr fun id => by rw [List.append_nil]
  · rename_i result world hresult
    rw [advanceStepState_eq hbatch.nodup] at heq
    obtain ⟨rfl, hrest⟩ := Prod.mk.inj heq
    obtain ⟨rfl, rfl⟩ := Prod.mk.inj hrest
    have hadvance := (h.landed world).advance config result rfl hbatch
      fun r hr _ => hselected r hr
    refine ⟨rfl, rfl, rfl, ?_, fun id => eventsOf id (step.selected.flatMap fun r =>
      acceptedEvents result r (s.states r.requestId)
        (advancedStates config result step.selected s.states r.requestId)), ?_, ?_, ?_⟩
    · intro _ hstep r hr hw
      obtain rfl := Option.some.inj hstep
      exact h.wf.not_running hw (hbatch.running r hr)
    · refine hadvance.congr fun id => congrArg _ ?_
      exact eventsOf_outcome hbatch.nodup s.states
        (advancedStates config result step.selected s.states)
        (fun r hr => by rw [advancedStates_of_mem hbatch.nodup hr]) id
    · refine ⟨fun hnone => (nomatch hnone), fun _ hstep => ?_⟩
      obtain rfl := Option.some.inj hstep
      exact ⟨s.states, hbatch.nodup, rfl, fun _ => rfl⟩
    · intro id hne
      dsimp only at hne ⊢
      rw [(advancedStates_kept config result step.selected s.states id).2.2]
      by_cases hid : id ∈ step.selected.map ExecutionRequest.requestId
      · obtain ⟨r, hr, rfl⟩ := List.mem_map.mp hid
        rw [eventsOf_flatMap_of_mem hbatch.nodup (fun r _ => requestId_acceptedEvents) hr] at hne
        have hopen := (acceptedEvents_ne_nil hne).2.1
        simp only [ScheduledState.open, Bool.and_eq_true, Bool.not_eq_true'] at hopen
        exact hopen.1
      · exact absurd (eventsOf_flatMap_of_notMem (fun r _ => requestId_acceptedEvents) hid) hne

/-- **The step in flight is resolved**, and what was cancelled or finished leaves. -/
theorem Tracked.resolveInFlight {events : List (SchedulerEvent ρ)}
    {resolved : Option (ResolvedStep ρ)} (h : Tracked s log (fun _ => False))
    (hkeeps : resolveKeepsOrder svc s = true)
    (hopen : s.inFlight = none → ∀ id, s.Present id → (s.states id).open = true)
    (heq : NativeScheduler.resolveInFlight svc config s = .ok (events, resolved, s')) :
    s'.inFlight = none ∧ (∀ id, s'.Present id → s.Present id ∧ (s'.states id).open = true) ∧
    (∀ step, resolved = some step → ∀ r ∈ step.selected, r.requestId ∉ s'.waiting) ∧
    ∃ owed, Tracked s' (fun id => log id ++ (eventsOf id events ++ owed id)) (fun _ => False) ∧
      Owed resolved s'.states owed := by
  rw [NativeScheduler.resolveInFlight] at heq
  split at heq
  · rename_i hflight
    obtain ⟨rfl, hrest⟩ := Prod.mk.inj (Except.ok.inj heq)
    obtain ⟨rfl, rfl⟩ := Prod.mk.inj hrest
    exact ⟨hflight, fun id hid => ⟨hid, hopen hflight id hid⟩, fun _ hstep => (nomatch hstep),
      fun _ => [], h.congr fun id => (List.append_nil _).symm,
      ⟨fun _ _ => rfl, fun _ hstep => (nomatch hstep)⟩⟩
  · rename_i step hflight
    dsimp only at heq
    generalize hstep : NativeScheduler.resolveStep svc config step s = stepped at heq
    obtain ⟨stepEvents, resolved', s₁⟩ := stepped
    obtain ⟨⟨reaped, s₂⟩, hreap, heq⟩ := bind_eq_ok heq
    obtain ⟨s₃, hfinish, heq⟩ := bind_eq_ok heq
    obtain ⟨rfl, hrest⟩ := Prod.mk.inj (Except.ok.inj heq)
    obtain ⟨rfl, rfl⟩ := Prod.mk.inj hrest
    obtain ⟨hnone, hwaiting, hrunning, hnot, owed, htracked, howed, hcancel⟩ :=
      h.resolveStep hflight hkeeps hstep
    obtain ⟨hreaped, hleft, hopen', hnoevent⟩ := htracked.reapBoth hnone hreap hfinish
    refine ⟨hleft.inFlight.trans hnone, fun id hid => ⟨?_, hopen' id hid⟩, fun step' hstep' r hr hw =>
      hnot step' hstep' r hr (hwaiting ▸ hleft.waiting _ hw), owed, hreaped.congr fun id => ?_,
      hleft.states ▸ howed⟩
    · simpa only [Present, hwaiting, hrunning] using hleft.present hid
    · rw [eventsOf_append, List.append_assoc, List.append_assoc, List.append_assoc]
      by_cases hne : owed id = []
      · rw [hne, List.nil_append, List.append_nil]
      · rw [hnoevent id (hcancel id hne), List.append_nil, List.nil_append]

omit [DecidableEq ρ] in
/-- A batch is in flight. -/
theorem Tracked.dispatched {selected : List (ExecutionRequest ρ)} (h : Tracked s log due)
    (hbatch : Batch s.running s.states selected) (hopen : ∀ r ∈ selected, Open (log r.requestId))
    (world : σ) (step : φ) :
    Tracked { s with world := world, inFlight := some ⟨selected, step⟩ } log due := by
  refine ⟨⟨h.wf.nodup, h.wf.key, h.wf.waiting, h.wf.running, h.wf.staged, fun _ hstep => ?_⟩,
    h.fresh, h.running, fun _ hstep => ?_, h.inOrder, h.tokens⟩
  · obtain rfl := Option.some.inj hstep
    exact hbatch
  · obtain rfl := Option.some.inj hstep
    exact hopen

/-- What a launch leaves as it is. -/
structure LaunchFrame (s s' : NativeScheduler ρ σ φ) : Prop where
  waiting : s'.waiting = s.waiting
  running : s'.running = s.running
  prompt : ∀ id, (s'.states id).work = (s.states id).work ∧
    (s'.states id).promptCursor = (s.states id).promptCursor ∧
    (s'.states id).reusedPromptTokens = (s.states id).reusedPromptTokens

/-- **The selected work is launched.** It fails, it is in flight, or its result is there. -/
theorem Tracked.launch {selected : List (ExecutionRequest ρ)} {events : List (SchedulerEvent ρ)}
    {immediate : Option (StepResult ρ)} (h : Tracked s log (fun _ => False))
    (hnone : s.inFlight = none) (hbatch : Batch s.running s.states selected)
    (hselected : ∀ r ∈ selected, (s.states r.requestId).open = true)
    (heq : NativeScheduler.launch svc selected s = (events, immediate, s')) :
    Tracked s' (fun id => log id ++ eventsOf id events) (fun _ => False) ∧ LaunchFrame s s' ∧
      (immediate ≠ none → s'.inFlight = none ∧ s'.states = s.states) := by
  have hopen : ∀ r ∈ selected, Open (log r.requestId) := fun r hr =>
    h.open_of_open (hbatch.running r hr) not_false (hselected r hr)
  have hsame : ∀ {s₁ : NativeScheduler ρ σ φ}, Tracked s₁ log (fun _ => False) →
      Tracked s₁ (fun id => log id ++ eventsOf id []) (fun _ => False) := fun h₁ =>
    h₁.congr fun id => (List.append_nil _).symm
  rw [NativeScheduler.launch] at heq
  split at heq
  · obtain ⟨rfl, hrest⟩ := Prod.mk.inj heq
    obtain ⟨rfl, rfl⟩ := Prod.mk.inj hrest
    exact ⟨hsame h, ⟨rfl, rfl, fun _ => ⟨rfl, rfl, rfl⟩⟩, fun hne => absurd rfl hne⟩
  split at heq
  · rename_i e s₁ hstart
    obtain ⟨hs₁, hflight⟩ := startBatch_frame hstart
    have hnone₁ : s₁.inFlight = none := by
      rcases hflight with ⟨hflight, -⟩ | ⟨hok, -⟩
      · exact hflight.trans hnone
      · cases hok
    obtain ⟨rfl, hrest⟩ := Prod.mk.inj heq
    obtain ⟨rfl, rfl⟩ := Prod.mk.inj hrest
    rw [hnone₁] at hs₁
    have htracked : Tracked s₁ log (fun _ => False) := hs₁ ▸ h.landed s₁.world
    have hstates : s₁.states = s.states := by rw [hs₁]
    have hrunning : s₁.running = s.running := by rw [hs₁]
    have hcancel : ∀ r ∈ selected, (s₁.states r.requestId).cancelRequested = false := by
      intro r hr
      have hselected' := hselected r hr
      simp only [ScheduledState.open, Bool.and_eq_true, Bool.not_eq_true'] at hselected'
      exact hstates ▸ hselected'.1
    refine ⟨(htracked.failed hnone₁ (hrunning ▸ hstates ▸ hbatch) hopen e).markFinished hcancel,
      ?_, fun hne => absurd rfl hne⟩
    rw [markFinished_eq, hs₁]
    refine ⟨rfl, rfl, fun id => ?_⟩
    by_cases hmem : id ∈ selected.map ExecutionRequest.requestId
    · simp only [hmem, if_true, and_self]
    · simp only [hmem, if_false, and_self]
  · rename_i result s₁ hstart
    obtain ⟨hs₁, hflight⟩ := startBatch_frame hstart
    obtain ⟨rfl, hrest⟩ := Prod.mk.inj heq
    obtain ⟨rfl, rfl⟩ := Prod.mk.inj hrest
    have hframe : LaunchFrame s s₁ := by
      rw [hs₁]
      exact ⟨rfl, rfl, fun _ => ⟨rfl, rfl, rfl⟩⟩
    rcases hflight with ⟨hflight, -⟩ | ⟨hok, step, hflight⟩
    · rw [hflight, hnone] at hs₁
      refine ⟨hsame (hs₁ ▸ h.landed s₁.world), hframe, fun _ => ⟨hflight.trans hnone, ?_⟩⟩
      rw [hs₁]
    · rw [hflight] at hs₁
      exact ⟨hsame (hs₁ ▸ h.dispatched hbatch hopen s₁.world step), hframe,
        fun hne => absurd (Except.ok.inj hok) hne⟩

/-- What is owed does not come after a failure of the launch. -/
theorem launch_order {selected : List (ExecutionRequest ρ)} {events : List (SchedulerEvent ρ)}
    {immediate : Option (StepResult ρ)} {resolved : Option (ResolvedStep ρ)}
    {states : ρ → ScheduledState ρ} {owed : ρ → List (SchedulerEvent ρ)}
    (hnodup : (selected.map ExecutionRequest.requestId).Nodup)
    (hkeeps : launchKeepsOrder svc resolved selected s = true)
    (howed : Owed resolved states owed)
    (heq : launch svc selected s = (events, immediate, s')) (id : ρ) :
    owed id = [] ∨ eventsOf id events = [] := by
  rw [launch] at heq
  split at heq
  · obtain rfl := (Prod.mk.inj heq).1
    exact .inr rfl
  split at heq
  · rename_i e s₁ hstart
    obtain rfl := (Prod.mk.inj heq).1
    simp only [launchKeepsOrder, hstart, List.all_eq_true] at hkeeps
    rcases eventsOf_emitFailures hnodup e id with ⟨-, hnil⟩ | ⟨⟨r, hr, rfl⟩, -⟩
    · exact .inr hnil
    · refine .inl (by_contra fun hne => ?_)
      obtain ⟨step, rfl, hmem⟩ := howed.mem_applied hne
      have hnot := hkeeps r hr
      simp only [Option.all_some, decide_eq_true_eq] at hnot
      exact hnot hmem
  · obtain rfl := (Prod.mk.inj heq).1
    exact .inr rfl

/-- The result that is there at once. -/
theorem Tracked.applyStep? {selected : List (ExecutionRequest ρ)}
    {events : List (SchedulerEvent ρ)} {immediate : Option (StepResult ρ)}
    (h : Tracked s log (fun _ => False)) (hbatch : immediate ≠ none → s.inFlight = none ∧
      Batch s.running s.states selected ∧ ∀ r ∈ selected, Open (log r.requestId))
    (heq : NativeScheduler.applyStep? svc config selected immediate s = .ok (events, s')) :
    Tracked s' (fun id => log id ++ eventsOf id events) (fun _ => False) ∧
      s'.waiting = s.waiting ∧ s'.running = s.running := by
  cases immediate with
  | none =>
      obtain ⟨rfl, rfl⟩ := Prod.mk.inj (Except.ok.inj heq)
      exact ⟨h.congr fun id => (List.append_nil _).symm, rfl, rfl⟩
  | some result =>
      obtain ⟨hnone, hbatch, hopen⟩ := hbatch (Option.some_ne_none _)
      obtain ⟨hs', hevents⟩ := applyStepResult_eq_ok hbatch.nodup heq
      have hadvance := (h.advance config result hnone hbatch fun r hr _ => hopen r hr).of_world
        s'.world
      rw [hs']
      exact ⟨hadvance.congr fun id => congrArg _ (hevents id).symm, rfl, rfl⟩

/-- **The last part of the tick**: what is owed is said, then the result that is there. -/
theorem Tracked.emitResolved {selected : List (ExecutionRequest ρ)}
    {events : List (SchedulerEvent ρ)} {immediate : Option (StepResult ρ)}
    {resolved : Option (ResolvedStep ρ)} {owed : ρ → List (SchedulerEvent ρ)}
    (h : Tracked s (fun id => log id ++ owed id) (fun _ => False))
    (howed : Owed resolved s.states owed) (hbatch : immediate ≠ none → s.inFlight = none ∧
      Batch s.running s.states selected ∧ ∀ r ∈ selected, (s.states r.requestId).open = true)
    (heq : NativeScheduler.emitResolved svc config resolved selected immediate s =
      .ok (events, s')) :
    Tracked s' (fun id => log id ++ eventsOf id events) (fun _ => False) ∧
      s'.waiting = s.waiting ∧ s'.running = s.running := by
  rw [NativeScheduler.emitResolved] at heq
  obtain ⟨⟨said, s₁⟩, hemit, heq⟩ := bind_eq_ok heq
  obtain ⟨⟨more, s₂⟩, happly, heq⟩ := bind_eq_ok heq
  obtain ⟨rfl, rfl⟩ := Prod.mk.inj (Except.ok.inj heq)
  obtain ⟨hs₁, hsaid⟩ := howed.emit hemit
  have htracked := h.of_world s₁.world
  rw [← hs₁] at htracked
  have hstates : s₁.states = s.states := by rw [hs₁]
  have hrunning₁ : s₁.running = s.running := by rw [hs₁]
  have hbatch₁ : immediate ≠ none → s₁.inFlight = none ∧ Batch s₁.running s₁.states selected ∧
      ∀ r ∈ selected, Open (log r.requestId ++ owed r.requestId) := by
    intro hne
    obtain ⟨hnone, hbatch, hopen⟩ := hbatch hne
    refine ⟨by rw [hs₁, hnone], hrunning₁ ▸ hstates ▸ hbatch, fun r hr => ?_⟩
    exact htracked.open_of_open (hrunning₁ ▸ hbatch.running r hr) not_false
      (hstates ▸ hopen r hr)
  obtain ⟨happlied, hwaiting, hrunning⟩ := htracked.applyStep? hbatch₁ happly
  refine ⟨happlied.congr fun id => ?_, hwaiting.trans ?_, hrunning.trans hrunning₁⟩
  · rw [eventsOf_append, hsaid, List.append_assoc]
  · rw [hs₁]

/-- **An overlapping tick** keeps the order of the events, under its condition. -/
theorem Resting.tickOverlap (h : Resting s log) (t : OverlapTick svc config s)
    (hkeeps : NativeScheduler.keepsOrder svc config s = true) :
    Tracked t.final (fun id => log id ++ eventsOf id t.allEvents) (fun _ => False) ∧
      ∀ id, t.final.Present id → s.Present id := by
  obtain ⟨hkeepsResolve, hkeepsLaunch⟩ := t.keepsOrder hkeeps
  -- what was cancelled or finished before, but for the step in flight
  obtain ⟨hreaped, hleft, hcancel, -⟩ := ((h.of_round (s.schedulerRound + 1)).tracked
    fun _ => False).reapCancelled (fun id (hid : id ∈ s.inFlightIds) => hid)
    (fun _ _ _ => not_false) t.reapCancelled
  obtain ⟨hfinished, hleft', hfin⟩ := hreaped.reapFinished
    (fun _ hid => hleft.inFlightIds ▸ hid) t.reapFinished
  have hopenBefore : t.afterFinished.inFlight = none → ∀ id, t.afterFinished.Present id →
      (t.afterFinished.states id).open = true := by
    intro hflight id hid
    have hids : s.inFlightIds = [] := by
      have hsame : t.afterFinished.inFlightIds = s.inFlightIds :=
        hleft'.inFlightIds.trans hleft.inFlightIds
      rw [← hsame, inFlightIds, hflight]
    rw [hids] at hcancel hfin
    rw [(hleft.trans hleft').states, ScheduledState.open,
      Bool.eq_false_iff.mpr fun htrue => List.not_mem_nil (hcancel id (hleft'.present hid) htrue),
      Bool.eq_false_iff.mpr fun htrue =>
        List.not_mem_nil (hfin id hid (hleft.states ▸ htrue))]
    rfl
  -- the step in flight
  obtain ⟨hnone, hpresent, hnot, owed, hresolved, howed⟩ := hfinished.resolveInFlight
    hkeepsResolve hopenBefore t.resolve
  -- the next step
  obtain ⟨-, hbatch, hopen⟩ := hresolved.wf.selectWork t.select
  have hframe := hresolved.wf.selectFrame t.select
  obtain ⟨hlaunched, hlaunch, himmediate⟩ := (hresolved.selectWork t.select).launch
    (hframe.inFlight.trans hnone) hbatch hopen t.launch
  have howed' : Owed t.resolved t.afterLaunch.states owed := by
    refine howed.of_states fun step hstep r hr => ?_
    obtain ⟨hwork, hcursor, hreused⟩ := hlaunch.prompt r.requestId
    obtain ⟨hcursor', hreused'⟩ := hframe.prompt _ (hnot step hstep r hr)
    exact ⟨hwork.trans (hframe.kept _).work, hcursor.trans hcursor', hreused.trans hreused'⟩
  have hordered : Tracked t.afterLaunch (fun id => (log id ++ eventsOf id t.reaped ++
      eventsOf id t.resolveEvents ++ eventsOf id t.launchEvents) ++ owed id)
      (fun _ => False) := by
    refine hlaunched.congr fun id => ?_
    rcases launch_order hbatch.nodup hkeepsLaunch howed t.launch id with hnil | hnil <;>
      simp only [hnil, List.append_nil, List.append_assoc]
  have hbatch' : t.immediate ≠ none → t.afterLaunch.inFlight = none ∧
      Batch t.afterLaunch.running t.afterLaunch.states t.selected ∧
      ∀ r ∈ t.selected, (t.afterLaunch.states r.requestId).open = true := by
    intro hne
    obtain ⟨hflight, hstates⟩ := himmediate hne
    exact ⟨hflight, hlaunch.running ▸ hstates ▸ hbatch, hstates ▸ hopen⟩
  obtain ⟨hemitted, hwaiting, hrunning⟩ := hordered.emitResolved howed' hbatch' t.emit
  obtain ⟨hfinal, hleft'', -⟩ := hemitted.reapFinished (fun _ hid => hid) t.reapAgain
  refine ⟨hfinal.congr fun id => ?_, fun id hid => ?_⟩
  · simp only [OverlapTick.allEvents, eventsOf_append, List.append_assoc]
  · have hid' := hleft''.present hid
    rw [Present, hwaiting, hrunning, hlaunch.waiting, hlaunch.running] at hid'
    exact hleft.present (hleft'.present (hpresent id (hframe.present id hid')).1)

end NativeScheduler
end MlxRuntime
