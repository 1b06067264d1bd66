import MlxRuntime.Scheduler.Outcomes

/-!
# What is left to do after a tick

A request that runs has a part of its prompt to run or a token to go on from, or its step is in
flight, or the tick has said its end.  So there is work to select as long as a request is open and
nothing is in flight.

## Main definitions

* `SchedulerServices.ReusesPrompt` — what a coordinator gives is a part of the prompt.
* `InPrompt`, `Ready` — the cursor of a request, and whether there is work for it.
* `Paced` — the invariant.
-/

namespace MlxRuntime

variable {ρ σ π φ : Type}

/-- A coordinator reuses no more than the prompt. -/
def SchedulerServices.ReusesPrompt (svc : SchedulerServices ρ σ π φ) : Prop :=
  ∀ id prompt probe world admission world',
    svc.acquire id prompt probe world = (.ok admission, world') →
      admission.reusedTokens ≤ prompt.length

/-- The cursor is in the prompt. -/
def ScheduledState.InPrompt (st : ScheduledState ρ) : Prop := st.promptCursor ≤ st.promptLength

/-- There is a part of the prompt to run, or a token was generated. -/
def ScheduledState.Ready (st : ScheduledState ρ) : Prop :=
  st.promptCursor < st.promptLength ∨ st.generatedTokens ≠ 0

/-- There is work for the request. -/
def ScheduledState.Selectable (st : ScheduledState ρ) : Prop :=
  st.promptCursor < st.promptLength ∨ st.lastTokenId ≠ none ∧ st.generationComplete = false

namespace NativeScheduler

variable {svc : SchedulerServices ρ σ π φ} {config : SchedulerConfig}
  {s s' : NativeScheduler ρ σ φ} {id : ρ} {st : ScheduledState ρ}
  {request : ExecutionRequest ρ} {selected : List (ExecutionRequest ρ)}
  {states : ρ → ScheduledState ρ}

/-! ## Results -/

/-- The result of work that fits leaves the cursor in the prompt, and the request ready. -/
theorem inPrompt_applyResult (hfits : Fits config request st) (hcursor : st.InPrompt)
    (item : StepRequestResult ρ) :
    (applyResult config request item st).InPrompt ∧
      (applyResult config request item st).Ready := by
  rcases hfits with rfl | ⟨token, -, rfl⟩
  · have hlength := length_prefillWork config st
    have hphase : (prefillWork config st).phase = .prefill := rfl
    have hcursor : st.promptCursor ≤ st.work.promptTokenIds.length := hcursor
    simp only [applyResult, hphase, ScheduledState.InPrompt, ScheduledState.Ready,
      ScheduledState.promptLength] at hlength ⊢
    generalize (prefillWork config st).tokenIds.length = n at hlength ⊢
    by_cases hend : st.promptCursor + n = st.work.promptTokenIds.length
    · simp only [hend, if_true, markGenerated]
      exact ⟨le_rfl, .inr (Nat.succ_ne_zero _)⟩
    · simp only [hend, if_false]
      omega
  · exact ⟨hcursor, .inr (Nat.succ_ne_zero _)⟩

variable (config) in
/-- Work that fits, of requests whose cursor is in the prompt. -/
def Suits (states : ρ → ScheduledState ρ) (selected : List (ExecutionRequest ρ)) : Prop :=
  ∀ r ∈ selected, Fits config r (states r.requestId)

theorem planned_of_suits (hsuits : Suits config states selected)
    (hcursor : ∀ id, (states id).InPrompt) : Planned config states selected :=
  ⟨hsuits, fun r _ => hcursor r.requestId⟩

variable [DecidableEq ρ]

/-- A result leaves every cursor in the prompt, and who goes on from it ready. -/
theorem inPrompt_advancedStates (hnodup : (selected.map ExecutionRequest.requestId).Nodup)
    (hsuits : Suits config states selected) (hcursor : ∀ id, (states id).InPrompt)
    (result : StepResult ρ) (id : ρ) :
    (advancedStates config result selected states id).InPrompt ∧
      (id ∈ selected.map ExecutionRequest.requestId →
        (advancedStates config result selected states id).open = true →
          (advancedStates config result selected states id).Ready) := by
  by_cases hid : id ∈ selected.map ExecutionRequest.requestId
  · obtain ⟨r, hr, rfl⟩ := List.mem_map.mp hid
    rw [advancedStates_of_mem hnodup hr, advanced]
    by_cases hopen : (states r.requestId).open = true
    · rw [if_pos hopen]
      cases judge result r with
      | error failure =>
        refine ⟨hcursor _, fun _ hstill => ?_⟩
        simp [ScheduledState.open] at hstill
      | ok item =>
        obtain ⟨hin, hready⟩ := inPrompt_applyResult (hsuits r hr) (hcursor _) item
        exact ⟨hin, fun _ _ => hready⟩
    · rw [if_neg hopen]
      exact ⟨hcursor _, fun _ hstill => absurd hstill hopen⟩
  · rw [advancedStates_of_notMem hid]
    exact ⟨hcursor id, fun hmem => absurd hmem hid⟩

/-- A batch that raises leaves every cursor as it was, and nobody of it open. -/
theorem inPrompt_markFinished (selected : List (ExecutionRequest ρ))
    (hcursor : ∀ id, (s.states id).InPrompt) (id : ρ) :
    ((s.markFinished selected).states id).InPrompt ∧
      (((s.markFinished selected).states id).open = true →
        (s.markFinished selected).states id = s.states id ∧
          id ∉ selected.map ExecutionRequest.requestId) := by
  rw [markFinished_eq]
  dsimp only
  split
  · refine ⟨hcursor id, fun hopen => ?_⟩
    simp [ScheduledState.open] at hopen
  · rename_i hnot
    exact ⟨hcursor id, fun _ => ⟨rfl, hnot⟩⟩

/-! ## Selection -/

/-- Who gets a cache is in its prompt. -/
theorem inPrompt_selectPrefill (hreuse : svc.ReusesPrompt) {ids : List ρ}
    {requests : List (ExecutionRequest ρ)} (hcursor : ∀ id, (s.states id).InPrompt)
    (heq : s.selectPrefill svc config ids = .ok (requests, s')) :
    ∀ id, (s'.states id).InPrompt := by
  induction ids generalizing s requests with
  | nil =>
      obtain ⟨rfl, rfl⟩ := Prod.mk.inj (Except.ok.inj heq)
      exact hcursor
  | cons id ids ih =>
      rw [selectPrefill] at heq
      obtain ⟨s₁, hensure, heq⟩ := bind_eq_ok heq
      obtain ⟨⟨more, s₂⟩, hrest, heq⟩ := bind_eq_ok heq
      obtain ⟨rfl, rfl⟩ := Prod.mk.inj (Except.ok.inj heq)
      refine ih (fun x => ?_) hrest
      rw [ensureRunning] at hensure
      split at hensure
      · obtain ⟨admission, world, hacquire, rfl⟩ := admitWaiting_eq_ok hensure
        by_cases hx : x = id
        · subst hx
          dsimp only
          rw [Function.update_self]
          exact hreuse _ _ _ _ _ _ hacquire
        · dsimp only
          rw [Function.update_of_ne hx]
          exact hcursor x
      · obtain rfl := Except.ok.inj hensure
        exact hcursor x

theorem length_selectPrefill {ids : List ρ} {requests : List (ExecutionRequest ρ)}
    (heq : s.selectPrefill svc config ids = .ok (requests, s')) :
    requests.length = ids.length := by
  induction ids generalizing s requests with
  | nil =>
      obtain ⟨rfl, rfl⟩ := Prod.mk.inj (Except.ok.inj heq)
      rfl
  | cons id ids ih =>
      rw [selectPrefill] at heq
      obtain ⟨s₁, -, heq⟩ := bind_eq_ok heq
      obtain ⟨⟨more, s₂⟩, hrest, heq⟩ := bind_eq_ok heq
      obtain ⟨rfl, rfl⟩ := Prod.mk.inj (Except.ok.inj heq)
      rw [List.length_cons, List.length_cons, ih hrest]

/-- When nothing is selected there is nothing to do. -/
theorem selectWork_eq_nil (heq : NativeScheduler.selectWork svc config s = .ok ([], s')) :
    s.prefillStates = [] ∧ ∀ id ∈ s.running, decodeWork (s.states id) = none := by
  rw [selectWork] at heq
  obtain ⟨⟨prefill, s₂⟩, hselect, heq⟩ := bind_eq_ok heq
  obtain ⟨hnil, rfl⟩ := Prod.mk.inj (Except.ok.inj heq)
  obtain ⟨hdecode, rfl⟩ := List.append_eq_nil_iff.mp hnil
  refine ⟨?_, List.filterMap_eq_nil_iff.mp hdecode⟩
  change selectPrefill svc config (List.take _ (s.order svc config s.prefillStates).1) _ = _
    at hselect
  have hlength := length_selectPrefill hselect
  rw [hdecode, List.length_take] at hlength
  have hlimit := config.prefillBatchSize_pos
  have hzero : (s.order svc config s.prefillStates).1.length = 0 := by
    simp only [List.isEmpty_nil, Bool.not_true, Bool.false_and, Bool.false_eq_true, if_false,
      List.length_nil] at hlength
    omega
  exact (List.length_eq_zero_iff.mp hzero ▸ (order_spec svc config s.prefillStates s).1).nil_eq.symm

/-- **Selection** is of work that fits. -/
theorem Wf.fits_selectWork (h : s.Wf)
    (heq : NativeScheduler.selectWork svc config s = .ok (selected, s')) :
    Suits config s'.states selected := by
  have hwf := (h.selectWork heq).1
  intro r hr
  obtain ⟨probes, ids, admissions, world, -, hmem, hs', rfl⟩ := selectWork_eq_ok h.nodup
    (fun id hid => (h.waiting id hid).cacheHandle) h.running heq
  rcases List.mem_append.mp hr with hr | hr
  · obtain ⟨id, hid, hwork⟩ := List.mem_filterMap.mp hr
    obtain ⟨hrid, hphase, -, -, token, htoken, htokens, hpositions, hhandle⟩ :=
      decodeWork_eq_some hwork
    rw [h.key] at hrid
    subst hrid
    have hsame : s'.states r.requestId = { s.states r.requestId with
        cachedProbe := probes r.requestId } := by
      rw [hs']
      exact if_neg fun hin => h.not_running hin.2 hid
    refine .inr ⟨token, ?_, ?_⟩
    · rw [hsame]
      exact htoken
    · rw [hsame]
      have hkey := h.key r.requestId
      cases r
      simp only at hphase htokens hpositions hhandle hkey
      simp only [decodeRequest, hphase, htokens, hpositions, hhandle, hkey]
  · obtain ⟨id, hid, rfl⟩ := List.mem_map.mp hr
    refine .inl ?_
    rw [show (prefillWork config (s'.states id)).requestId = id from hwf.key id]

/-- It leaves every cursor in the prompt, and who was ready stays so. -/
theorem Wf.suits_selectWork (h : s.Wf) (hreuse : svc.ReusesPrompt)
    (hcursor : ∀ id, (s.states id).InPrompt)
    (heq : NativeScheduler.selectWork svc config s = .ok (selected, s')) :
    (∀ id, (s'.states id).InPrompt) ∧ Suits config s'.states selected ∧
      ∀ id ∈ s'.running, id ∈ selected.map ExecutionRequest.requestId ∨
        id ∈ s.running ∧ ((s.states id).Ready → (s'.states id).Ready) := by
  have hframe := h.selectFrame heq
  have hwf := (h.selectWork heq).1
  refine ⟨fun id => ?_, h.fits_selectWork heq, fun id hid => ?_⟩
  · rw [NativeScheduler.selectWork] at heq
    obtain ⟨⟨prefill, s₂⟩, hselect, heq⟩ := bind_eq_ok heq
    obtain ⟨-, rfl⟩ := Prod.mk.inj (Except.ok.inj heq)
    obtain ⟨-, probes, hprobes⟩ := order_spec svc config s.prefillStates s
    exact inPrompt_selectPrefill hreuse (s := (s.order svc config s.prefillStates).2)
      (hprobes ▸ hcursor) hselect id
  · obtain ⟨probes, ids, admissions, world, -, hmem, hs', rfl⟩ := selectWork_eq_ok h.nodup
      (fun id hid => (h.waiting id hid).cacheHandle) h.running heq
    have hrunning : s'.running = s.running ++ ids.filter (· ∈ s.waiting) := by rw [hs']; rfl
    rw [hrunning] at hid
    rcases List.mem_append.mp hid with hid | hid
    · refine .inr ⟨hid, fun hready => ?_⟩
      have hkept := hframe.kept id
      have hprompt := hframe.prompt id fun hw => h.not_running hw hid
      rw [ScheduledState.Ready, ScheduledState.promptLength, hprompt.1, hkept.work,
        hkept.generatedTokens]
      exact hready
    · refine .inl (List.mem_map.mpr ⟨prefillWork config (s'.states id), ?_, hwf.key id⟩)
      exact List.mem_append_right _ (List.mem_map_of_mem (List.mem_of_mem_filter hid))

/-! ## The invariant -/

/-- Every cursor is in its prompt, the step in flight fits the states that it was selected for,
and who is open is ready, in flight, or has its end. -/
structure Paced (config : SchedulerConfig) (s : NativeScheduler ρ σ φ) (ended : ρ → Prop) :
    Prop where
  cursor : ∀ id, (s.states id).InPrompt
  flies : ∀ step, s.inFlight = some step →
    step.selected ≠ [] ∧ Suits config s.states step.selected
  ready : ∀ id ∈ s.running, (s.states id).open = true → id ∉ s.inFlightIds →
    ended id ∨ (s.states id).Ready

variable {ended : ρ → Prop}

omit [DecidableEq ρ] in
theorem Paced.of_reaped (h : Paced config s ended) (hreaped : Reaped s s') :
    Paced config s' ended := by
  refine ⟨hreaped.states ▸ h.cursor, fun step hstep => ?_, fun id hid hopen hflight => ?_⟩
  · rw [hreaped.states]
    exact h.flies step (hreaped.inFlight ▸ hstep)
  · rw [hreaped.states] at hopen ⊢
    exact h.ready id (hreaped.running id hid) hopen (hreaped.inFlightIds ▸ hflight)

omit [DecidableEq ρ] in
/-- When nothing is in flight, who is open is ready. -/
theorem paced_of_landed (hcursor : ∀ id, (s.states id).InPrompt) (hnone : s.inFlight = none)
    (hready : ∀ id ∈ s.running, (s.states id).open = true → ended id ∨ (s.states id).Ready) :
    Paced config s ended :=
  ⟨hcursor, fun _ hstep => (nomatch hnone.symm.trans hstep), fun id hid hopen _ =>
    hready id hid hopen⟩

/-- The result of a batch leaves who goes on ready. -/
theorem paced_advanced (hnone : s.inFlight = none) (hcursor : ∀ id, (s.states id).InPrompt)
    (hnodup : (selected.map ExecutionRequest.requestId).Nodup)
    (hsuits : Suits config s.states selected) (result : StepResult ρ)
    (hready : ∀ id ∈ s.running, (s.states id).open = true →
      id ∉ selected.map ExecutionRequest.requestId → (s.states id).Ready) :
    Paced config { s with states := advancedStates config result selected s.states } ended := by
  have hadvanced := inPrompt_advancedStates hnodup hsuits hcursor result
  refine paced_of_landed (fun id => (hadvanced id).1) hnone fun id hid hopen => .inr ?_
  by_cases hmem : id ∈ selected.map ExecutionRequest.requestId
  · exact (hadvanced id).2 hmem hopen
  · dsimp only at hopen ⊢
    rw [advancedStates_of_notMem hmem] at hopen ⊢
    exact hready id hid hopen hmem

/-- A batch that raised leaves who is still open as it was. -/
theorem paced_markFinished (hnone : s.inFlight = none) (hcursor : ∀ id, (s.states id).InPrompt)
    (hready : ∀ id ∈ s.running, (s.states id).open = true →
      id ∉ selected.map ExecutionRequest.requestId → (s.states id).Ready) :
    Paced config (s.markFinished selected) ended := by
  have hmarked := inPrompt_markFinished selected hcursor
  refine paced_of_landed (fun id => (hmarked id).1) (by rw [markFinished_eq]; exact hnone)
    fun id hid hopen => .inr ?_
  obtain ⟨hsame, hmem⟩ := (hmarked id).2 hopen
  rw [hsame] at hopen ⊢
  rw [markFinished_eq] at hid
  exact hready id hid hopen hmem

/-- The step in flight is resolved. -/
theorem Paced.resolveInFlight (h : Paced config s fun _ => False) (hwf : s.Wf)
    {events : List (SchedulerEvent ρ)} {resolved : Option (ResolvedStep ρ)}
    (heq : NativeScheduler.resolveInFlight svc config s = .ok (events, resolved, s')) :
    Paced config s' (fun _ => False) ∧ s'.inFlight = none := by
  rw [NativeScheduler.resolveInFlight] at heq
  split at heq
  · rename_i hnone
    obtain ⟨-, hrest⟩ := Prod.mk.inj (Except.ok.inj heq)
    obtain ⟨-, rfl⟩ := Prod.mk.inj hrest
    exact ⟨h, hnone⟩
  rename_i step hflight
  have hbatch := hwf.inFlight step hflight
  obtain ⟨-, hsuits⟩ := h.flies step hflight
  have hready : ∀ id ∈ s.running, (s.states id).open = true →
      id ∉ step.selected.map ExecutionRequest.requestId → (s.states id).Ready := by
    intro id hid hopen hmem
    refine (h.ready id hid hopen fun hin => hmem ?_).resolve_left not_false
    simpa only [inFlightIds, hflight] using hin
  dsimp only at heq
  generalize hstep : resolveStep svc config step s = stepped at heq
  obtain ⟨stepEvents, resolved', s₁⟩ := stepped
  obtain ⟨⟨reaped, s₂⟩, hreap, heq⟩ := bind_eq_ok heq
  obtain ⟨s₃, hfinish, heq⟩ := bind_eq_ok heq
  obtain ⟨-, hrest⟩ := Prod.mk.inj (Except.ok.inj heq)
  obtain ⟨-, rfl⟩ := Prod.mk.inj hrest
  obtain ⟨hwf₁, hnone₁, -⟩ := hwf.outcome_resolveStep hflight hstep
  have hids : ∀ id ∈ s₁.inFlightIds, id ∈ ([] : List ρ) := by simp [inFlightIds, hnone₁]
  obtain ⟨hwf₂, hreaped, -⟩ := hwf₁.reapCancelled hids hreap
  have hids₂ : ∀ id ∈ s₂.inFlightIds, id ∈ ([] : List ρ) := hreaped.inFlightIds ▸ hids
  obtain ⟨-, hreaped', -⟩ := hwf₂.reapFinished hids₂ hfinish
  have hleft := hreaped.trans hreaped'
  refine ⟨Paced.of_reaped ?_ hleft, hleft.inFlight.trans hnone₁⟩
  rw [resolveStep] at hstep
  split at hstep
  · obtain ⟨-, hrest⟩ := Prod.mk.inj hstep
    obtain ⟨-, rfl⟩ := Prod.mk.inj hrest
    exact paced_markFinished rfl h.cursor hready
  · rename_i result world _
    rw [advanceStepState_eq hbatch.nodup] at hstep
    obtain ⟨-, hrest⟩ := Prod.mk.inj hstep
    obtain ⟨-, rfl⟩ := Prod.mk.inj hrest
    exact paced_advanced (s := { s with world := world, inFlight := none }) rfl h.cursor
      hbatch.nodup hsuits result hready

/-- The selected work is launched: who was selected is in flight, or has its result. -/
theorem paced_launch (hnone : s.inFlight = none) (hcursor : ∀ id, (s.states id).InPrompt)
    (hsuits : Suits config s.states selected)
    (hready : ∀ id ∈ s.running, (s.states id).open = true →
      id ∉ selected.map ExecutionRequest.requestId → (s.states id).Ready)
    {events : List (SchedulerEvent ρ)} {immediate : Option (StepResult ρ)}
    (heq : launch svc selected s = (events, immediate, s')) :
    Paced config s' (fun id => immediate ≠ none ∧ id ∈ selected.map ExecutionRequest.requestId) ∧
      (selected ≠ [] → events = [] → immediate = none → s'.inFlight ≠ none) := by
  rw [launch] at heq
  split at heq
  · rename_i hempty
    obtain ⟨-, hrest⟩ := Prod.mk.inj heq
    obtain ⟨-, rfl⟩ := Prod.mk.inj hrest
    have hnil := List.isEmpty_iff.mp hempty
    refine ⟨paced_of_landed hcursor hnone fun id hid hopen => .inr (hready id hid hopen ?_),
      fun hne => absurd hnil hne⟩
    rw [hnil]
    exact List.not_mem_nil
  rename_i hempty
  have hne : selected ≠ [] := fun hnil => hempty (List.isEmpty_iff.mpr hnil)
  split at heq
  · rename_i e s₁ hstart
    obtain ⟨hs₁, hflight⟩ := startBatch_frame hstart
    have hnone₁ : s₁.inFlight = none := by
      rcases hflight with ⟨hflight, -⟩ | ⟨hok, -⟩
      · exact hflight.trans hnone
      · cases hok
    obtain ⟨rfl, hrest⟩ := Prod.mk.inj heq
    obtain ⟨-, rfl⟩ := Prod.mk.inj hrest
    rw [hs₁, hnone₁]
    refine ⟨paced_markFinished rfl hcursor hready, fun _ hnil => ?_⟩
    exact absurd (List.map_eq_nil_iff.mp hnil) hne
  · rename_i result s₁ hstart
    obtain ⟨hs₁, hflight⟩ := startBatch_frame hstart
    obtain ⟨-, hrest⟩ := Prod.mk.inj heq
    obtain ⟨rfl, rfl⟩ := Prod.mk.inj hrest
    have hstates : s₁.states = s.states := by rw [hs₁]
    have hrunning : s₁.running = s.running := by rw [hs₁]
    rcases hflight with ⟨hflight, hresult⟩ | ⟨hok, step, hflight⟩
    · have hsome : result ≠ none := fun h => hresult (congrArg Except.ok h)
      refine ⟨paced_of_landed (hstates ▸ hcursor) (hflight.trans hnone) fun id hid hopen => ?_,
        fun _ _ hno => absurd hno hsome⟩
      by_cases hmem : id ∈ selected.map ExecutionRequest.requestId
      · exact .inl ⟨hsome, hmem⟩
      · rw [hstates] at hopen ⊢
        exact .inr (hready id (hrunning ▸ hid) hopen hmem)
    · refine ⟨⟨hstates ▸ hcursor, fun step' hstep' => ?_, fun id hid hopen hnot => .inr ?_⟩,
        fun _ _ _ => hflight ▸ Option.some_ne_none _⟩
      · obtain rfl := Option.some.inj (hflight.symm.trans hstep')
        exact ⟨hne, hstates ▸ hsuits⟩
      · rw [hstates] at hopen ⊢
        refine hready id (hrunning ▸ hid) hopen fun hmem => hnot ?_
        simpa only [inFlightIds, hflight] using hmem

omit [DecidableEq ρ] in
theorem emitStep?_frame {resolved : Option (ResolvedStep ρ)} {events : List (SchedulerEvent ρ)}
    (heq : emitStep? svc resolved s = .ok (events, s')) : s' = { s with world := s'.world } := by
  cases resolved with
  | none =>
      obtain ⟨-, rfl⟩ := Prod.mk.inj (Except.ok.inj heq)
      rfl
  | some step => exact (emitStepResult_eq_ok heq).1

/-- The result that is there is applied. -/
theorem Paced.emitResolved {immediate : Option (StepResult ρ)}
    (h : Paced config s fun id =>
      immediate ≠ none ∧ id ∈ selected.map ExecutionRequest.requestId)
    (hnone : immediate ≠ none → s.inFlight = none)
    (hnodup : (selected.map ExecutionRequest.requestId).Nodup)
    (hsuits : immediate ≠ none → Suits config s.states selected)
    {resolved : Option (ResolvedStep ρ)} {events : List (SchedulerEvent ρ)}
    (heq : NativeScheduler.emitResolved svc config resolved selected immediate s =
      .ok (events, s')) : Paced config s' fun _ => False := by
  rw [NativeScheduler.emitResolved] at heq
  obtain ⟨⟨said, s₁⟩, hemit, heq⟩ := bind_eq_ok heq
  obtain ⟨⟨more, s₂⟩, happly, heq⟩ := bind_eq_ok heq
  obtain ⟨-, rfl⟩ := Prod.mk.inj (Except.ok.inj heq)
  rw [emitStep?_frame hemit] at happly
  cases immediate with
  | none =>
      obtain ⟨-, rfl⟩ := Prod.mk.inj (Except.ok.inj happly)
      exact ⟨h.cursor, h.flies, fun id hid hopen hflight =>
        .inr ((h.ready id hid hopen hflight).resolve_left fun hsome => hsome.1 rfl)⟩
  | some result =>
      have hsome : some result ≠ none := Option.some_ne_none _
      obtain ⟨hs', -⟩ := applyStepResult_eq_ok hnodup happly
      rw [hs']
      refine paced_advanced (s := { s with world := s₂.world }) (hnone hsome) h.cursor hnodup
        (hsuits hsome) result fun id hid hopen hmem => ?_
      refine (h.ready id hid hopen ?_).resolve_left fun hin => hmem hin.2
      simp [inFlightIds, hnone hsome]

/-! ## A tick -/

/-- What a tick leaves to be done, and that it does something. -/
structure Worked (config : SchedulerConfig) (s : NativeScheduler ρ σ φ)
    (events : List (SchedulerEvent ρ)) (s' : NativeScheduler ρ σ φ) : Prop where
  paced : Paced config s' fun id => HasEnd (eventsOf id events)
  works : s.inFlight = none → ∀ id, s.Present id → (s.states id).open = true →
    (id ∈ s.running → (s.states id).Selectable) → s'.inFlight ≠ none ∨
      ∃ id, s.Present id ∧ (s.states id).open = true ∧ (HasEnd (eventsOf id events) ∨
        MovesOn (s.states id) (s'.states id) (tokensOf (eventsOf id events)))

/-- Something is selected when there is work. -/
theorem selected_ne_nil (heq : NativeScheduler.selectWork svc config s = .ok (selected, s'))
    (hpresent : s.Present id) (hopen : (s.states id).open = true)
    (hwork : id ∈ s.running → (s.states id).Selectable) : selected ≠ [] := by
  rintro rfl
  obtain ⟨hprefill, hdecode⟩ := selectWork_eq_nil heq
  have hnot : id ∉ s.prefillStates := hprefill ▸ List.not_mem_nil
  rw [mem_prefillStates] at hnot
  rcases hpresent with hw | hr
  · exact hnot ⟨hopen, .inr hw⟩
  rcases hwork hr with hlt | ⟨htoken, hcomplete⟩
  · exact hnot ⟨hopen, .inl ⟨hr, hlt⟩⟩
  · have hnone := hdecode id hr
    obtain ⟨token, htoken⟩ := Option.ne_none_iff_exists'.mp htoken
    simp [decodeWork, htoken, hopen, hcomplete] at hnone

theorem Wf.worked_tickOverlap (h : s.Wf) (hreuse : svc.ReusesPrompt)
    (hpaced : Paced config s fun _ => False) (t : OverlapTick svc config s) :
    Worked config s t.allEvents t.final := by
  obtain ⟨owed, hparts⟩ := h.overlapParts t
  obtain ⟨hpaced₃, hnone₃⟩ := (hpaced.of_reaped hparts.leaves).resolveInFlight hparts.left t.resolve
  obtain ⟨hcursor₄, hsuits, hrunning₄⟩ :=
    hparts.resolved.suits_selectWork hreuse hpaced₃.cursor t.select
  obtain ⟨hwf₄, hbatch, hopen₄⟩ := hparts.resolved.selectWork t.select
  have hframe := hparts.resolved.selectFrame t.select
  have hready : ∀ id ∈ t.afterSelect.running, (t.afterSelect.states id).open = true →
      id ∉ t.selected.map ExecutionRequest.requestId → (t.afterSelect.states id).Ready := by
    intro id hid hopen hmem
    obtain ⟨hr, hready⟩ := (hrunning₄ id hid).resolve_left hmem
    rw [(hframe.kept id).open] at hopen
    refine hready ((hpaced₃.ready id hr hopen ?_).resolve_left not_false)
    simp [inFlightIds, hnone₃]
  obtain ⟨hpaced₅, hflies⟩ := paced_launch (hframe.inFlight.trans hnone₃) hcursor₄ hsuits hready
    t.launch
  have hpaced₆ := hpaced₅.emitResolved (fun hne => (hparts.launchesNow hne).1) hbatch.nodup
    (fun hne => (hparts.launchesNow hne).2 ▸ hsuits) t.emit
  obtain ⟨-, hreaped, -⟩ := hparts.emitted.reapFinished (fun _ hid => hid) t.reapAgain
  have hfinal := hpaced₆.of_reaped hreaped
  refine ⟨⟨hfinal.cursor, hfinal.flies, fun id hid hopen hflight =>
    .inr ((hfinal.ready id hid hopen hflight).resolve_left not_false)⟩, fun hno id hid hopen hwork => ?_⟩
  -- nothing was in flight, so the work is there when the next step is selected
  obtain ⟨hid₃, hstates⟩ := hparts.select_present hno hid hopen
  have hne : t.selected ≠ [] := by
    refine selected_ne_nil t.select hid₃ (hstates ▸ hopen) fun hr => ?_
    rw [hstates]
    refine hwork ?_
    rw [hparts.resolvesNothing (hparts.leaves.inFlight.trans hno)] at hr
    exact hparts.leaves.running id hr
  obtain ⟨r, hr⟩ := List.exists_mem_of_ne_nil _ hne
  have hpresent₃ := hframe.present _ (.inr (hbatch.running r hr))
  have hpresent := hparts.leaves.present (hparts.resolvesPresent _ hpresent₃)
  have hsame : t.afterResolve.states = s.states := by
    rw [hparts.resolvesNothing (hparts.leaves.inFlight.trans hno), hparts.leaves.states]
  have hrOpen : (s.states r.requestId).open = true := by
    rw [← hsame, ← (hframe.kept _).open]
    exact hopen₄ r hr
  have hfinish : (s.states r.requestId).finishRequested = false := by
    simp only [ScheduledState.open, Bool.and_eq_true, Bool.not_eq_true'] at hrOpen
    exact hrOpen.2
  by_cases hflight : t.final.inFlight = none
  · refine .inr ⟨r.requestId, hpresent, hrOpen, ?_⟩
    by_cases himmediate : t.immediate = none
    · rw [hreaped.inFlight, hparts.emitsFlight] at hflight
      have hend := hparts.raises himmediate hflight r hr
      exact .inl ((t.hasEnd_allEvents _).mpr (.inr (.inr (.inl hend))))
    · refine (hparts.outcome hpresent hfinish).imp_right fun hgoes => hgoes.2.2 (.inr ?_)
      exact ⟨himmediate, planned_of_suits hsuits hcursor₄, List.mem_map_of_mem hr⟩
  · exact .inl hflight

/-- A step that runs leaves who goes on ready. -/
theorem paced_runStep (hnone : s.inFlight = none) (hcursor : ∀ id, (s.states id).InPrompt)
    (hnodup : (selected.map ExecutionRequest.requestId).Nodup)
    (hsuits : Suits config s.states selected)
    (hready : ∀ id ∈ s.running, (s.states id).open = true →
      id ∉ selected.map ExecutionRequest.requestId → (s.states id).Ready)
    {events : List (SchedulerEvent ρ)} (heq : runStep svc config selected s = .ok (events, s')) :
    Paced config s' fun id => HasEnd (eventsOf id events) := by
  rw [runStep] at heq
  split at heq
  · -- the requests of the batch stay open, and have their ends
    rename_i e world _
    obtain ⟨rfl, rfl⟩ := Prod.mk.inj (Except.ok.inj heq)
    refine paced_of_landed hcursor hnone fun id hid hopen => ?_
    rcases eventsOf_emitFailures hnodup e id with ⟨hnot, -⟩ | ⟨-, event, hterminal, hevents⟩
    · exact .inr (hready id hid hopen hnot)
    · exact .inl ⟨event, hevents ▸ List.mem_singleton_self _, hterminal⟩
  · rename_i result world _
    obtain ⟨hs', -⟩ := applyStepResult_eq_ok hnodup heq
    rw [hs']
    exact paced_advanced (s := { s with world := s'.world }) hnone hcursor hnodup hsuits result
      hready

theorem Wf.worked_tickSerial (h : s.Wf) (hflight : s.inFlight = none) (hreuse : svc.ReusesPrompt)
    (hpaced : Paced config s fun _ => False) {events : List (SchedulerEvent ρ)}
    (t : SerialTick svc config s events s') : Worked config s events s' := by
  obtain ⟨s₁, selected, s₂, hselect, hparts⟩ := h.serialParts hflight t
  have hpaced₁ := hpaced.of_reaped hparts.leaves
  have hnone₁ := hparts.leaves.inFlight.trans hflight
  obtain ⟨hcursor₂, hsuits, hrunning₂⟩ :=
    hparts.resolved.suits_selectWork hreuse hpaced₁.cursor hselect
  obtain ⟨-, hbatch, hopen₂⟩ := hparts.resolved.selectWork hselect
  have hframe := hparts.resolved.selectFrame hselect
  have hnone₂ := hframe.inFlight.trans hnone₁
  have hready : ∀ id ∈ s₂.running, (s₂.states id).open = true →
      id ∉ selected.map ExecutionRequest.requestId → (s₂.states id).Ready := by
    intro id hid hopen hmem
    obtain ⟨hr, hready⟩ := (hrunning₂ id hid).resolve_left hmem
    rw [(hframe.kept id).open] at hopen
    refine hready ((hpaced₁.ready id hr hopen ?_).resolve_left not_false)
    simp [inFlightIds, hnone₁]
  constructor
  · rcases hparts.ran with ⟨rfl, rfl⟩ | ⟨-, stepEvents, s₃, hrun, hreaped, hends⟩
    · exact paced_of_landed hcursor₂ hnone₂ fun id hid hopen =>
        .inr (hready id hid hopen List.not_mem_nil)
    · have hpaced₃ := (paced_runStep hnone₂ hcursor₂ hbatch.nodup hsuits hready hrun).of_reaped
        hreaped
      exact ⟨hpaced₃.cursor, hpaced₃.flies, fun id hid hopen hnot =>
        (hpaced₃.ready id hid hopen hnot).imp_left (hends id)⟩
  · intro _ id hid hopen hwork
    have hcancel : (s.states id).cancelRequested = false := by
      simp only [ScheduledState.open, Bool.and_eq_true, Bool.not_eq_true'] at hopen
      exact hopen.1
    have hne : selected ≠ [] := by
      refine selected_ne_nil hselect (hparts.stays id hid hcancel)
        (hparts.leaves.states ▸ hopen) fun hr => ?_
      rw [hparts.leaves.states]
      exact hwork (hparts.leaves.running id hr)
    obtain ⟨r, hr⟩ := List.exists_mem_of_ne_nil _ hne
    have hpresent := hparts.leaves.present (hframe.present _ (.inr (hbatch.running r hr)))
    refine .inr ⟨r.requestId, hpresent, ?_, ?_⟩
    · rw [← hparts.leaves.states, ← (hframe.kept _).open]
      exact hopen₂ r hr
    · refine (hparts.outcome _ hpresent).imp_right fun hgoes => hgoes.2.2 ?_
      exact ⟨planned_of_suits hsuits hcursor₂, List.mem_map_of_mem hr⟩

/-- **A tick does something** whenever there is work and nothing is in flight. -/
theorem Wf.tick_worked (h : s.Wf) (hserial : config.overlap = false → s.inFlight = none)
    (hreuse : svc.ReusesPrompt) (hpaced : Paced config s fun _ => False)
    {events : List (SchedulerEvent ρ)} (heq : s.tick svc config = .ok (events, s')) :
    Worked config s events s' := by
  rw [tick] at heq
  split at heq
  · obtain ⟨t, rfl, rfl⟩ := tickOverlap_eq_ok heq
    exact h.worked_tickOverlap hreuse hpaced t
  · rename_i hnot
    exact h.worked_tickSerial (hserial (Bool.eq_false_iff.mpr hnot)) hreuse hpaced
      (tickSerial_eq_ok heq)

end NativeScheduler
end MlxRuntime
