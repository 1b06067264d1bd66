import MlxRuntime.Scheduler.EventProtocol

/-!
# The scheduler and its caller

The caller submits, cancels and finishes requests, and ticks; it finishes the request of each
end that a tick reports, as the runtime does.  An exception of a tick or of a `finish` ends the
run.

## Main definitions

* `SchedulerCaller`, `SchedulerOp`, `SchedulerCaller.step` — runs.
* `SchedulerCaller.Orderly` — the condition on a step.
-/

namespace MlxRuntime

variable {ρ σ π φ : Type}

namespace NativeScheduler

open EventLog (Open InOrder)

variable [DecidableEq ρ] {svc : SchedulerServices ρ σ π φ} {config : SchedulerConfig}
  {s s' : NativeScheduler ρ σ φ} {log : ρ → List (SchedulerEvent ρ)} {due : ρ → Prop} {id : ρ}

/-- The ids of the ends among events. -/
def endedIds (events : List (SchedulerEvent ρ)) : List ρ :=
  (events.filter SchedulerEvent.isTerminal).filterMap SchedulerEvent.requestId?

/-- Requests are finished, one after the other. -/
def finishAll (svc : SchedulerServices ρ σ π φ) : List ρ → NativeScheduler ρ σ φ →
    Except PyError (NativeScheduler ρ σ φ)
  | [], s => .ok s
  | id :: ids, s => do finishAll svc ids (← s.finish svc id)

/-! ## Between two ticks -/

omit [DecidableEq ρ] in
theorem resting_new (world : σ) : Resting (new world : NativeScheduler ρ σ φ) fun _ => [] where
  wf := wf_new world
  fresh _ _ := rfl
  running := nofun
  inOrder _ := EventLog.open_nil.inOrder
  tokens _ := rfl

theorem Resting.submit (h : Resting s log) {request : SchedulableRequest ρ}
    (heq : s.submit request = .ok s') :
    Resting s' (Function.update log request.requestId []) := by
  have hwf := h.wf.submit heq
  rw [NativeScheduler.submit] at heq
  split at heq
  · cases heq
  rename_i hnot
  obtain rfl := Except.ok.inj heq
  refine ⟨hwf, fun id hid => ?_, fun id hid => ?_, fun id => ?_, fun id => ?_⟩
  · by_cases heq : id = request.requestId
    · rw [heq, Function.update_self]
    · rw [Function.update_of_ne heq]
      rcases List.mem_append.mp hid with hid | hid
      · exact h.fresh id hid
      · exact absurd (List.mem_singleton.mp hid) heq
  · have hne : id ≠ request.requestId := fun heq => hnot (heq ▸ .inr hid)
    rw [Function.update_of_ne hne]
    exact h.running id hid
  · by_cases heq : id = request.requestId
    · rw [heq, Function.update_self]
      exact EventLog.open_nil.inOrder
    · rw [Function.update_of_ne heq]
      exact h.inOrder id
  · by_cases heq : id = request.requestId
    · subst heq
      simp [tokenCount]
    · simpa [heq] using h.tokens id

theorem Resting.cancel (h : Resting s log) (id : ρ) : Resting (s.cancel id).2 log := by
  have hwf := h.wf.cancel id
  rw [NativeScheduler.cancel] at hwf ⊢
  split
  · rename_i hpresent
    rw [if_pos hpresent] at hwf
    refine ⟨hwf, h.fresh, h.running, h.inOrder, fun x => (h.tokens x).trans ?_⟩
    by_cases hx : x = id
    · subst hx
      simp
    · simp [hx]
  · exact h

/-! ## Requests that are finished -/

/-- `finish` marks what is in flight, and lets the others leave. -/
theorem Wf.finish_eq (h : s.Wf) (id : ρ) : s.finish svc id =
    if id ∈ s.inFlightIds then
      .ok (if s.Present id then s.modify id fun st => { st with finishRequested := true } else s)
    else if s.Present id then s.leave svc [id] else .ok s := by
  obtain ⟨hwaiting, hrunning, hdisjoint⟩ := List.nodup_append.mp h.nodup
  have hleave : s.leave svc [id] = s.discard svc id := by
    rw [leave_cons hwaiting hrunning]
    cases s.discard svc id with
    | error e => rfl
    | ok s₁ =>
        show NativeScheduler.leave svc [] s₁ = .ok s₁
        exact leave_nil s₁
  rw [finish, hleave]
  split
  · rfl
  · by_cases hr : id ∈ s.running
    · have hw : id ∉ s.waiting := fun hw => hdisjoint id hw id hr rfl
      rw [if_pos hr, if_pos (.inr hr), discard, List.erase_of_not_mem hw]
    · rw [if_neg hr]
      by_cases hw : id ∈ s.waiting
      · rw [if_pos hw, if_pos (.inl hw), discard, List.erase_of_not_mem hr]
      · have hnot : ¬ s.Present id := not_or.mpr ⟨hw, hr⟩
        rw [if_neg hw, if_neg hnot]

omit [DecidableEq ρ] in
theorem Tracked.open_of_inFlight (h : Tracked s log due) (hid : id ∈ s.inFlightIds) :
    Open (log id) := by
  cases hstep : s.inFlight with
  | none => simp [inFlightIds, hstep] at hid
  | some step =>
      simp only [inFlightIds, hstep] at hid
      obtain ⟨r, hr, rfl⟩ := List.mem_map.mp hid
      exact h.inFlight step hstep r hr

/-- A request is finished: it has left, or it is in flight. -/
theorem Tracked.finish (h : Tracked s log due) (heq : s.finish svc id = .ok s') :
    Tracked s' log due ∧ s'.inFlight = s.inFlight ∧
      ∀ x ∈ s'.running, x ∈ s.running ∧ (x = id → id ∈ s.inFlightIds) := by
  rw [h.wf.finish_eq] at heq
  split at heq
  · rename_i hflight
    obtain rfl := Except.ok.inj heq
    split
    · refine ⟨?_, rfl, fun x hx => ⟨hx, fun _ => hflight⟩⟩
      have hwf := h.wf.modify (f := fun st => { st with finishRequested := true }) id
        fun _ => ⟨rfl, rfl, rfl, rfl, rfl⟩
      refine ⟨hwf, h.fresh, fun x hx hdue hflags => ?_, h.inFlight, h.inOrder,
        fun x => (h.tokens x).trans ?_⟩
      · by_cases hx' : x = id
        · subst hx'
          exact h.open_of_inFlight hflight
        · simp only [modify_states, Function.update_of_ne hx'] at hflags
          exact h.running x hx hdue hflags
      · by_cases hx' : x = id
        · subst hx'
          simp
        · simp [hx']
    · exact ⟨h, rfl, fun x hx => ⟨hx, fun _ => hflight⟩⟩
  · rename_i hflight
    split at heq
    · have htracked := h.leave (fun x hx => List.mem_singleton.mp hx ▸ hflight) heq
      obtain ⟨world, rfl⟩ := leave_eq_ok heq
      refine ⟨htracked, rfl, fun x hx => ?_⟩
      obtain ⟨hx, hne⟩ := List.mem_filter.mp hx
      exact ⟨hx, fun heq => absurd (List.mem_singleton.mpr heq) (of_decide_eq_true hne)⟩
    · rename_i hnot
      obtain rfl := Except.ok.inj heq
      exact ⟨h, rfl, fun x hx => ⟨hx, fun heq => absurd (.inr (heq ▸ hx)) hnot⟩⟩

/-- The requests that have ended are finished, and the others have had no end. -/
theorem Tracked.finishAll {ids : List ρ} (h : Tracked s log due)
    (hopen : ∀ id ∈ s.running, Open (log id) ∨ id ∈ ids)
    (heq : finishAll svc ids s = .ok s') : Resting s' log ∧ s'.inFlight = s.inFlight := by
  induction ids generalizing s with
  | nil =>
      obtain rfl := Except.ok.inj heq
      exact ⟨⟨h.wf, h.fresh, fun id hid => (hopen id hid).resolve_right List.not_mem_nil,
        h.inOrder, h.tokens⟩, rfl⟩
  | cons id ids ih =>
      obtain ⟨s₁, hfinish, heq⟩ := bind_eq_ok heq
      obtain ⟨htracked, hflight, hrunning⟩ := h.finish hfinish
      have hopen₁ : ∀ x ∈ s₁.running, Open (log x) ∨ x ∈ ids := by
        intro x hx
        obtain ⟨hx, hin⟩ := hrunning x hx
        rcases hopen x hx with hopen | hmem
        · exact .inl hopen
        · rcases List.mem_cons.mp hmem with rfl | hmem
          · exact .inl (h.open_of_inFlight (hin rfl))
          · exact .inr hmem
      obtain ⟨hresting, hflight'⟩ := ih htracked hopen₁ heq
      exact ⟨hresting, hflight'.trans hflight⟩

/-- What a tick has said is acted upon. -/
theorem Resting.finishAll {events : List (SchedulerEvent ρ)} {s₁ : NativeScheduler ρ σ φ}
    (h : Resting s log) (hticked : Tracked s₁ (fun id => log id ++ eventsOf id events) due)
    (hpresent : ∀ id, s₁.Present id → s.Present id)
    (heq : NativeScheduler.finishAll svc (endedIds events) s₁ = .ok s') :
    Resting s' (fun id => log id ++ eventsOf id events) ∧ s'.inFlight = s₁.inFlight := by
  refine hticked.finishAll (fun id hid => ?_) heq
  by_cases hended : ∃ e ∈ eventsOf id events, e.isTerminal = true
  · obtain ⟨e, he, hterminal⟩ := hended
    obtain ⟨he, hid⟩ := List.mem_filter.mp he
    exact .inr (List.mem_filterMap.mpr
      ⟨e, List.mem_filter.mpr ⟨he, hterminal⟩, of_decide_eq_true hid⟩)
  · refine .inl ((hticked.inOrder id).open fun e he => ?_)
    rcases List.mem_append.mp he with he | he
    · exact (h.open (hpresent id (.inr hid))).not_terminal e he
    · exact Bool.eq_false_iff.mpr fun hterminal => hended ⟨e, he, hterminal⟩

end NativeScheduler

/-! ## Runs -/

/-- What the caller does. -/
inductive SchedulerOp (ρ : Type)
  | submit (request : SchedulableRequest ρ)
  | cancel (requestId : ρ)
  | finish (requestId : ρ)
  | tick

/-- The scheduler, and the events of the last submission of each id. -/
structure SchedulerCaller (ρ σ φ : Type) where
  scheduler : NativeScheduler ρ σ φ
  log : ρ → List (SchedulerEvent ρ) := fun _ => []
  /-- An exception has ended the run. -/
  crashed : Bool := false

namespace SchedulerCaller

variable [DecidableEq ρ] (svc : SchedulerServices ρ σ π φ) (config : SchedulerConfig)

/-- A tick; the caller finishes the requests that have ended. -/
def tick (c : SchedulerCaller ρ σ φ) :
    Except PyError (List (SchedulerEvent ρ)) × SchedulerCaller ρ σ φ :=
  match c.scheduler.tick svc config with
  | .error e => (.error e, { c with crashed := true })
  | .ok (events, s) =>
      let log := fun id => c.log id ++ eventsOf id events
      match NativeScheduler.finishAll svc (NativeScheduler.endedIds events) s with
      | .error e => (.error e, { scheduler := s, log := log, crashed := true })
      | .ok s => (.ok events, { c with scheduler := s, log := log })

/-- An operation of the caller, and what it is told. -/
def step (c : SchedulerCaller ρ σ φ) (op : SchedulerOp ρ) :
    Except PyError (List (SchedulerEvent ρ)) × SchedulerCaller ρ σ φ :=
  if c.crashed then (.ok [], c)
  else match op with
  | .submit request =>
      match c.scheduler.submit request with
      | .error e => (.error e, c)
      | .ok s => (.ok [], { c with
          scheduler := s, log := Function.update c.log request.requestId [] })
  | .cancel id => (.ok [], { c with scheduler := (c.scheduler.cancel id).2 })
  | .finish id =>
      match c.scheduler.finish svc id with
      | .error e => (.error e, { c with crashed := true })
      | .ok s => (.ok [], { c with scheduler := s })
  | .tick => c.tick svc config

/-- The condition on a step: an overlapping tick keeps the order. -/
def Orderly (c : SchedulerCaller ρ σ φ) : SchedulerOp ρ → Prop
  | .tick => c.crashed = false → config.overlap = true →
      NativeScheduler.keepsOrder svc config c.scheduler = true
  | _ => True

instance (c : SchedulerCaller ρ σ φ) (op : SchedulerOp ρ) : Decidable (Orderly svc config c op) :=
  match op with
  | .tick => inferInstanceAs (Decidable (_ → _ → _))
  | .submit _ | .cancel _ | .finish _ => inferInstanceAs (Decidable True)

open EventLog (Open InOrder)

/-- The events of every request are in order, and those of its tokens are all there. -/
def Ordered (c : SchedulerCaller ρ σ φ) : Prop :=
  ∀ id, InOrder (c.log id) ∧ tokenCount (c.log id) = (c.scheduler.states id).generatedTokens

/-- The invariant of a run. -/
structure Inv (c : SchedulerCaller ρ σ φ) : Prop where
  ordered : c.Ordered
  resting : c.crashed = false → NativeScheduler.Resting c.scheduler c.log
  serial : c.crashed = false → config.overlap = false → c.scheduler.inFlight = none

variable {svc config} {c : SchedulerCaller ρ σ φ}

omit [DecidableEq ρ] in
/-- Nothing is asked of a caller that crashed but the order of the events. -/
theorem inv_crashed (hcrashed : c.crashed = true) (h : c.Ordered) : Inv config c :=
  ⟨h, fun hrunning => absurd (hcrashed.symm.trans hrunning) Bool.false_ne_true.symm,
    fun hrunning => absurd (hcrashed.symm.trans hrunning) Bool.false_ne_true.symm⟩

theorem inv_tick (h : Inv config c) (hcrashed : c.crashed = false)
    (hkeeps : config.overlap = true →
      NativeScheduler.keepsOrder svc config c.scheduler = true) :
    Inv config (c.tick svc config).2 := by
  have hresting := h.resting hcrashed
  rw [tick]
  split
  · exact inv_crashed rfl h.ordered
  rename_i events s hticked
  have htracked : (∃ due, NativeScheduler.Tracked s
      (fun id => c.log id ++ eventsOf id events) due) ∧
      (config.overlap = false → s.inFlight = none) ∧
      ∀ id, s.Present id → c.scheduler.Present id := by
    rw [NativeScheduler.tick] at hticked
    split at hticked
    · rename_i hoverlap
      obtain ⟨t, rfl, rfl⟩ := NativeScheduler.tickOverlap_eq_ok hticked
      obtain ⟨htracked, hpresent⟩ := hresting.tickOverlap t (hkeeps hoverlap)
      exact ⟨⟨_, htracked⟩, fun hserial =>
        absurd (hoverlap.symm.trans hserial) Bool.false_ne_true.symm, hpresent⟩
    · rename_i hserial
      obtain ⟨htracked, hnone, hpresent⟩ := hresting.tickSerial
        (h.serial hcrashed (Bool.eq_false_iff.mpr hserial))
        (NativeScheduler.tickSerial_eq_ok hticked)
      exact ⟨htracked, fun _ => hnone, hpresent⟩
  obtain ⟨⟨due, htracked⟩, hnone, hpresent⟩ := htracked
  have hordered : ∀ id, InOrder (c.log id ++ eventsOf id events) ∧
      tokenCount (c.log id ++ eventsOf id events) = (s.states id).generatedTokens := fun id =>
    ⟨htracked.inOrder id, htracked.tokens id⟩
  dsimp only
  split
  · exact inv_crashed rfl hordered
  · rename_i s' hfinished
    obtain ⟨hresting', hflight⟩ := hresting.finishAll htracked hpresent hfinished
    exact ⟨fun id => ⟨hresting'.inOrder id, hresting'.tokens id⟩, fun _ => hresting',
      fun _ hserial => hflight.trans (hnone hserial)⟩

/-- One step keeps the invariant. -/
theorem inv_step (h : Inv config c) (op : SchedulerOp ρ) (hok : Orderly svc config c op) :
    Inv config (c.step svc config op).2 := by
  unfold step
  split
  · exact h
  rename_i hcrashed
  have hcrashed : c.crashed = false := Bool.eq_false_iff.mpr hcrashed
  have hresting := h.resting hcrashed
  cases op with
  | submit request =>
      dsimp only
      split
      · exact h
      · rename_i s hsubmit
        have hresting' := hresting.submit hsubmit
        refine ⟨fun id => ⟨hresting'.inOrder id, hresting'.tokens id⟩, fun _ => hresting',
          fun _ hserial => ?_⟩
        rw [NativeScheduler.submit] at hsubmit
        split at hsubmit
        · cases hsubmit
        · obtain rfl := Except.ok.inj hsubmit
          exact h.serial hcrashed hserial
  | cancel id =>
      have hresting' := hresting.cancel id
      refine ⟨fun id => ⟨hresting'.inOrder id, hresting'.tokens id⟩, fun _ => hresting',
        fun _ hserial => ?_⟩
      show (c.scheduler.cancel id).2.inFlight = none
      rw [NativeScheduler.cancel]
      split <;> exact h.serial hcrashed hserial
  | finish id =>
      dsimp only
      split
      · exact inv_crashed rfl h.ordered
      · rename_i s hfinish
        obtain ⟨hresting', hflight⟩ := (hresting.tracked fun _ => False).finishAll
          (fun x hx => .inl (hresting.running x hx))
          (show NativeScheduler.finishAll svc [id] c.scheduler = .ok s by
            simp only [NativeScheduler.finishAll, hfinish]; rfl)
        exact ⟨fun id => ⟨hresting'.inOrder id, hresting'.tokens id⟩, fun _ => hresting',
          fun _ hserial => hflight.trans (h.serial hcrashed hserial)⟩
  | tick => exact inv_tick h hcrashed fun hoverlap => hok hcrashed hoverlap

omit [DecidableEq ρ] in
theorem inv_new (world : σ) : Inv config
    ({ scheduler := .new world } : SchedulerCaller ρ σ φ) where
  ordered _ := ⟨EventLog.open_nil.inOrder, rfl⟩
  resting _ := NativeScheduler.resting_new world
  serial _ _ := rfl

/-- **The events of every submission** are progress of its prompt, then tokens, then at most
one end, and a token is said before the end if it was counted: in every state of a run whose
overlapping ticks meet their condition. -/
theorem events_ordered (svc : SchedulerServices ρ σ π φ) (config : SchedulerConfig) (world : σ)
    (ops : List (SchedulerOp ρ)) (hops : Run.Each (step svc config) (Orderly svc config)
      ({ scheduler := .new world } : SchedulerCaller ρ σ φ) ops) :
    (Run.exec (step svc config) { scheduler := .new world } ops).Ordered := by
  have hstep : ∀ (c : SchedulerCaller ρ σ φ) op, Inv config c → Orderly svc config c op →
      Inv config (c.step svc config op).2 := fun _ op hinv hok => inv_step hinv op hok
  exact (Run.exec_invariant hstep (inv_new world) hops).ordered

/-! ## The two ticks that do not -/

/-- An executor that answers every request; its state says which dispatches and resolutions
raise. -/
def scripted : SchedulerServices ℕ (List Bool) (ExecutionBatch ℕ) (ExecutionBatch ℕ) :=
  let answer (batch : ExecutionBatch ℕ) : StepResult ℕ := {
    forwardMode := .decode
    results := batch.requests.map fun request => {
      requestId := request.requestId
      phase := request.phase
      tokenIds := request.tokenIds
      cacheHandle := request.cacheHandle
      cacheLength := 0
      nextTokenId := some 7 }
    physicalBatchSize := batch.requests.length
    modelForwardCount := 1 }
  let next {α : Type} (a : α) (world : List Bool) : Except PyError α × List Bool :=
    (if world.headD false then .error (.external "out of memory") else .ok a, world.tail)
  { probe := fun _ _ => {}
    acquire := fun _ _ _ world => (.ok ⟨0, 0, 0, 0⟩, world)
    publishCommitted := fun _ _ _ world => (.ok (), world)
    release := fun _ world => (.ok (), world)
    executeBatch := fun batch world => (.ok (answer batch), world)
    prepareBatch := fun batch world => (.ok batch, world)
    hasWork := fun _ => true
    executePrepared := fun batch world => (.ok (answer batch), world)
    executePreparedSerial := fun batch world => (.ok (answer batch), world)
    dispatchBatch := next
    resolveBatch := fun batch => next (answer batch) }

/-- Two ticks of a request, the second leaves its decode step in flight; then what follows. -/
def decoding (rest : List (SchedulerOp ℕ)) : List (SchedulerOp ℕ) :=
  [.submit ⟨1, [3], 8, 0⟩, .tick, .tick] ++ rest

/-- The events of the request after a run. -/
def decodingLog (world : List Bool) (rest : List (SchedulerOp ℕ)) : List (SchedulerEvent ℕ) :=
  (Run.exec (step scripted { overlap := true }) { scheduler := .new world } (decoding rest)).log 1


theorem events_ordered_decoding : (Run.exec (step scripted { overlap := true })
    { scheduler := .new [false, false, true] } (decoding [.cancel 1, .tick])).Ordered :=
  events_ordered scripted { overlap := true } [false, false, true] (decoding [.cancel 1, .tick])
    (by decide)

/-- A resolution that raises after the request was cancelled gives it two ends; a launch that
raises gives it its end before the token that the step in flight has computed. -/
theorem end_not_last :
    ¬ (Run.exec (step scripted { overlap := true }) { scheduler := .new [false, true] }
      (decoding [.cancel 1, .tick])).Ordered ∧
    ¬ (Run.exec (step scripted { overlap := true }) { scheduler := .new [false, false, true] }
      (decoding [.tick])).Ordered := by
  refine ⟨fun h => ?_, fun h => ?_⟩
  · have hend := (h 1).1.dropLast (.executionError 1 "WORKER_ERROR" "out of memory")
      (show _ ∈ (decodingLog [false, true] [.cancel 1, .tick]).dropLast by decide)
    cases hend
  · have hend := (h 1).1.dropLast (.executionError 1 "WORKER_ERROR" "out of memory")
      (show _ ∈ (decodingLog [false, false, true] [.tick]).dropLast by decide)
    cases hend

end SchedulerCaller
end MlxRuntime
