import MlxRuntime.Scheduler.Phases

/-!
# The bookkeeping of the native scheduler

A request is in one dictionary, it has a cache when it runs, it generates only when its prompt
is through, and what is in flight runs.  Every part of a tick keeps this.

## Main definitions

* `NativeScheduler.Wf` — the invariant of the dictionaries and the states.
* `NativeScheduler.Batch` — what is known about selected work.
-/

namespace MlxRuntime

variable {ρ σ π φ : Type}

/-- A request that waits has no cache and nothing done. -/
structure ScheduledState.Fresh (st : ScheduledState ρ) : Prop where
  cacheHandle : st.cacheHandle = none
  promptCursor : st.promptCursor = 0
  lastTokenId : st.lastTokenId = none
  generatedTokens : st.generatedTokens = 0

/-- Tokens are generated after the prompt. -/
structure ScheduledState.Staged (st : ScheduledState ρ) : Prop where
  prefilling : st.promptCursor < st.promptLength → st.generatedTokens = 0
  decoding : st.lastTokenId ≠ none → st.generatedTokens ≠ 0

namespace NativeScheduler

variable {svc : SchedulerServices ρ σ π φ} {config : SchedulerConfig}
  {s s' : NativeScheduler ρ σ φ} {id : ρ}

/-- Work that was selected: each request runs and is selected once, a prefill before its first
token and a decode after it. -/
structure Batch (running : List ρ) (states : ρ → ScheduledState ρ)
    (selected : List (ExecutionRequest ρ)) : Prop where
  nodup : (selected.map ExecutionRequest.requestId).Nodup
  running : ∀ r ∈ selected, r.requestId ∈ running
  prefill : ∀ r ∈ selected, r.phase = .prefill → (states r.requestId).generatedTokens = 0
  decode : ∀ r ∈ selected, r.phase = .decode → (states r.requestId).generatedTokens ≠ 0

/-- The invariant of the dictionaries and the states. -/
structure Wf (s : NativeScheduler ρ σ φ) : Prop where
  nodup : (s.waiting ++ s.running).Nodup
  key : ∀ id, (s.states id).work.requestId = id
  waiting : ∀ id ∈ s.waiting, (s.states id).Fresh
  running : ∀ id ∈ s.running, (s.states id).cacheHandle ≠ none
  staged : ∀ id, (s.states id).Staged
  inFlight : ∀ step, s.inFlight = some step → Batch s.running s.states step.selected

theorem Wf.not_running (h : s.Wf) (hid : id ∈ s.waiting) : id ∉ s.running := fun hr =>
  (List.nodup_append.mp h.nodup).2.2 id hid id hr rfl

theorem wf_new (world : σ) : (new world : NativeScheduler ρ σ φ).Wf where
  nodup := .nil
  key _ := rfl
  waiting := nofun
  running := nofun
  staged _ := ⟨nofun, fun h => absurd rfl h⟩
  inFlight := nofun

theorem Wf.of_world (h : s.Wf) (world : σ) : Wf { s with world := world } :=
  ⟨h.nodup, h.key, h.waiting, h.running, h.staged, h.inFlight⟩

/-- A write that keeps what the invariant reads. -/
theorem Wf.of_states (h : s.Wf) {states : ρ → ScheduledState ρ}
    (hkeep : ∀ id, (states id).work = (s.states id).work ∧
      (states id).promptCursor = (s.states id).promptCursor ∧
      (states id).cacheHandle = (s.states id).cacheHandle ∧
      (states id).lastTokenId = (s.states id).lastTokenId ∧
      (states id).generatedTokens = (s.states id).generatedTokens) :
    Wf { s with states := states } where
  nodup := h.nodup
  key id := by rw [(hkeep id).1, h.key]
  waiting id hid := by
    obtain ⟨-, hcursor, hhandle, htoken, hgenerated⟩ := hkeep id
    have hfresh := h.waiting id hid
    exact ⟨hhandle.trans hfresh.1, hcursor.trans hfresh.2, htoken.trans hfresh.3,
      hgenerated.trans hfresh.4⟩
  running id hid := by
    show (states id).cacheHandle ≠ none
    rw [(hkeep id).2.2.1]
    exact h.running id hid
  staged id := by
    obtain ⟨hwork, hcursor, -, htoken, hgenerated⟩ := hkeep id
    have hstaged := h.staged id
    constructor
    · intro hlt
      refine hgenerated.trans (hstaged.prefilling ?_)
      simpa only [ScheduledState.promptLength, hwork, hcursor] using hlt
    · intro hsome
      exact fun hzero => hstaged.decoding (htoken ▸ hsome) (hgenerated ▸ hzero)
  inFlight step hstep := by
    obtain ⟨hnodup, hrunning, hprefill, hdecode⟩ := h.inFlight step hstep
    refine ⟨hnodup, hrunning, fun r hr hphase => ?_, fun r hr hphase => ?_⟩
    · exact (hkeep r.requestId).2.2.2.2.trans (hprefill r hr hphase)
    · exact fun hzero => hdecode r hr hphase ((hkeep r.requestId).2.2.2.2.symm.trans hzero)

theorem mem_inFlightIds {step : SchedulerInFlight ρ φ} (h : s.inFlight = some step)
    {r : ExecutionRequest ρ} (hr : r ∈ step.selected) : r.requestId ∈ s.inFlightIds := by
  simp only [inFlightIds, h]
  exact List.mem_map_of_mem hr

variable [DecidableEq ρ]

theorem Wf.modify (h : s.Wf) (id : ρ) {f : ScheduledState ρ → ScheduledState ρ}
    (hf : ∀ st, (f st).work = st.work ∧ (f st).promptCursor = st.promptCursor ∧
      (f st).cacheHandle = st.cacheHandle ∧ (f st).lastTokenId = st.lastTokenId ∧
      (f st).generatedTokens = st.generatedTokens) : (s.modify id f).Wf := by
  refine h.of_states fun x => ?_
  by_cases hx : x = id
  · subst hx
    simpa using hf (s.states x)
  · simp [hx]

theorem Wf.cancel (h : s.Wf) (id : ρ) : (s.cancel id).2.Wf := by
  rw [NativeScheduler.cancel]
  split
  · refine h.modify (f := fun st => { st with cancelRequested := true }) id fun _ => ?_
    exact ⟨rfl, rfl, rfl, rfl, rfl⟩
  · exact h

theorem Wf.submit (h : s.Wf) {request : SchedulableRequest ρ}
    (heq : s.submit request = .ok s') : s'.Wf := by
  rw [NativeScheduler.submit] at heq
  split at heq
  · cases heq
  rename_i hnot
  obtain rfl := Except.ok.inj heq
  have hne : ∀ {x}, s.Present x → x ≠ request.requestId := fun hx heq => hnot (heq ▸ hx)
  constructor
  · have hperm : (s.waiting ++ [request.requestId] ++ s.running).Perm
        (request.requestId :: (s.waiting ++ s.running)) := by
      rw [List.append_assoc]
      exact List.perm_middle
    refine hperm.nodup_iff.mpr (List.nodup_cons.mpr ⟨fun hmem => hnot ?_, h.nodup⟩)
    exact List.mem_append.mp hmem
  · intro x
    by_cases hx : x = request.requestId
    · subst hx
      simp
    · simp [hx, h.key]
  · intro x hx
    rcases List.mem_append.mp hx with hx | hx
    · simpa [hne (.inl hx)] using h.waiting x hx
    · obtain rfl := List.mem_singleton.mp hx
      exact ⟨by simp, by simp, by simp, by simp⟩
  · intro x hx
    simpa [hne (.inr hx)] using h.running x hx
  · intro x
    by_cases hx : x = request.requestId
    · subst hx
      exact ⟨by simp, by simp⟩
    · simpa [hx] using h.staged x
  · intro step hstep
    obtain ⟨hnodup, hrunning, hprefill, hdecode⟩ := h.inFlight step hstep
    refine ⟨hnodup, hrunning, fun r hr hphase => ?_, fun r hr hphase => ?_⟩
    · simpa [hne (.inr (hrunning r hr))] using hprefill r hr hphase
    · simpa [hne (.inr (hrunning r hr))] using hdecode r hr hphase

/-- Requests leave that are not in flight. -/
theorem Wf.leave {ids : List ρ} (h : s.Wf) (hids : ∀ id ∈ ids, id ∉ s.inFlightIds)
    (heq : s.leave svc ids = .ok s') : s'.Wf := by
  simp only [NativeScheduler.leave] at heq
  cases hrelease : releaseAll svc (ids.map fun id => (s.states id).cacheHandle) s.world with
  | error e =>
      rw [hrelease] at heq
      cases heq
  | ok world =>
      rw [hrelease] at heq
      obtain rfl := Except.ok.inj heq
      have hsub : (s.waiting.filter (· ∉ ids) ++ s.running.filter (· ∉ ids)).Sublist
          (s.waiting ++ s.running) := List.filter_sublist.append List.filter_sublist
      refine ⟨h.nodup.sublist hsub, h.key, fun id hid => h.waiting id (List.mem_of_mem_filter hid),
        fun id hid => h.running id (List.mem_of_mem_filter hid), h.staged, fun step hstep => ?_⟩
      obtain ⟨hnodup, hrunning, hprefill, hdecode⟩ := h.inFlight step hstep
      refine ⟨hnodup, fun r hr => List.mem_filter.mpr ⟨hrunning r hr, ?_⟩, hprefill, hdecode⟩
      exact decide_eq_true fun hmem => hids _ hmem (mem_inFlightIds hstep hr)

/-! ## Selection -/

omit [DecidableEq ρ] in
theorem decodeWork_eq_some {st : ScheduledState ρ} {r : ExecutionRequest ρ}
    (h : decodeWork st = some r) : r.requestId = st.work.requestId ∧ r.phase = .decode ∧
      st.open = true ∧ st.generationComplete = false ∧
      ∃ token, st.lastTokenId = some token ∧ r.tokenIds = [token] ∧
        r.positions = [st.cacheLength] ∧ r.cacheHandle = st.cacheHandle := by
  simp only [decodeWork] at h
  split at h
  · rename_i token htoken
    split at h
    · rename_i hopen
      obtain rfl := Option.some.inj h
      simp only [Bool.and_eq_true, Bool.not_eq_true'] at hopen
      exact ⟨rfl, rfl, hopen.1, hopen.2, token, htoken, rfl, rfl, rfl⟩
    · cases h
  · cases h

/-- What selection keeps of the state of a request. -/
structure Kept (st st' : ScheduledState ρ) : Prop where
  work : st'.work = st.work
  lastTokenId : st'.lastTokenId = st.lastTokenId
  generatedTokens : st'.generatedTokens = st.generatedTokens
  generationComplete : st'.generationComplete = st.generationComplete
  cancelRequested : st'.cancelRequested = st.cancelRequested
  finishRequested : st'.finishRequested = st.finishRequested

omit [DecidableEq ρ] in
theorem Kept.open {st st' : ScheduledState ρ} (h : Kept st st') : st'.open = st.open := by
  simp only [ScheduledState.open, h.cancelRequested, h.finishRequested]

theorem admittedAll_states (probes : ρ → Option PrefixProbe) (ids : List ρ)
    (admissions : ρ → CacheAdmission) (world : σ) (s : NativeScheduler ρ σ φ) (id : ρ) :
    ((s.probed probes).admittedAll ids admissions world).states id =
      if id ∈ ids ∧ id ∈ s.waiting then
        admitted (admissions id) { s.states id with cachedProbe := probes id }
      else { s.states id with cachedProbe := probes id } := rfl

theorem kept_admittedAll (probes : ρ → Option PrefixProbe) (ids : List ρ)
    (admissions : ρ → CacheAdmission) (world : σ) (s : NativeScheduler ρ σ φ) (id : ρ) :
    Kept (s.states id) (((s.probed probes).admittedAll ids admissions world).states id) := by
  rw [admittedAll_states]
  split <;> exact ⟨rfl, rfl, rfl, rfl, rfl, rfl⟩

theorem admittedAll_of_not {ids : List ρ} (h : ¬ (id ∈ ids ∧ id ∈ s.waiting))
    (probes : ρ → Option PrefixProbe) (admissions : ρ → CacheAdmission) (world : σ) :
    ((s.probed probes).admittedAll ids admissions world).states id =
      { s.states id with cachedProbe := probes id } := by
  rw [admittedAll_states, if_neg h]

omit [DecidableEq ρ] in
/-- The decode requests of running requests name them, in their order. -/
theorem decodeWork_sublist (h : s.Wf) : ((s.running.filterMap fun id =>
    decodeWork (s.states id)).map ExecutionRequest.requestId).Sublist s.running := by
  generalize s.running = ids
  induction ids with
  | nil => exact .slnil
  | cons id ids ih =>
      rw [List.filterMap_cons]
      cases hwork : decodeWork (s.states id) with
      | none => exact ih.cons _
      | some r =>
          rw [List.map_cons, (decodeWork_eq_some hwork).1, h.key]
          exact ih.cons_cons _

theorem Wf.admittedAll (h : s.Wf) {ids : List ρ} (hids : ids.Nodup) (probes admissions world) :
    ((s.probed probes).admittedAll ids admissions world).Wf := by
  obtain ⟨hwaiting, hrunning, hdisjoint⟩ := List.nodup_append.mp h.nodup
  have hkept := kept_admittedAll probes ids admissions world s
  have hin : ∀ {id}, id ∈ ids.filter (· ∈ s.waiting) → id ∈ ids ∧ id ∈ s.waiting := by
    intro id hid
    simpa using hid
  constructor
  · show (s.waiting.filter (· ∉ ids) ++ (s.running ++ ids.filter (· ∈ s.waiting))).Nodup
    refine List.nodup_append.mpr ⟨hwaiting.filter _,
      List.nodup_append.mpr ⟨hrunning, hids.filter _, fun x hx y hy => ?_⟩, fun x hx y hy => ?_⟩
    · exact (hdisjoint y (hin hy).2 x hx).symm
    · have hx' : x ∈ s.waiting ∧ x ∉ ids := by simpa using hx
      rcases List.mem_append.mp hy with hy | hy
      · exact hdisjoint x hx'.1 y hy
      · exact fun heq => hx'.2 (heq ▸ (hin hy).1)
  · intro id
    rw [(hkept id).work, h.key]
  · intro id hid
    have hid' : id ∈ s.waiting ∧ id ∉ ids := List.mem_filter.mp hid |>.imp_right (by simp)
    rw [admittedAll_of_not fun hboth => hid'.2 hboth.1]
    obtain ⟨hhandle, hcursor, htoken, hgenerated⟩ := h.waiting id hid'.1
    exact ⟨hhandle, hcursor, htoken, hgenerated⟩
  · intro id hid
    rcases List.mem_append.mp hid with hid | hid
    · rw [admittedAll_of_not fun hboth => hdisjoint id hboth.2 id hid rfl]
      exact h.running id hid
    · rw [admittedAll_states, if_pos (hin hid)]
      exact Option.some_ne_none _
  · intro id
    have hstaged := h.staged id
    constructor
    · rw [(hkept id).generatedTokens]
      intro hlt
      by_cases hw : id ∈ s.waiting
      · exact (h.waiting id hw).generatedTokens
      · rw [admittedAll_of_not fun hboth => hw hboth.2] at hlt
        exact hstaged.prefilling hlt
    · rw [(hkept id).lastTokenId, (hkept id).generatedTokens]
      exact hstaged.decoding
  · intro step hstep
    obtain ⟨hnodup, hruns, hprefill, hdecode⟩ := h.inFlight step hstep
    refine ⟨hnodup, fun r hr => List.mem_append_left _ (hruns r hr), fun r hr hphase => ?_,
      fun r hr hphase => ?_⟩
    · rw [(hkept r.requestId).generatedTokens]
      exact hprefill r hr hphase
    · rw [(hkept r.requestId).generatedTokens]
      exact hdecode r hr hphase

/-- **Selection.** Each selected request runs, waits for its result, and is selected once. -/
theorem Wf.selectWork (h : s.Wf) {selected : List (ExecutionRequest ρ)}
    (heq : s.selectWork svc config = .ok (selected, s')) :
    s'.Wf ∧ Batch s'.running s'.states selected ∧
      ∀ r ∈ selected, (s'.states r.requestId).open = true := by
  obtain ⟨probes, ids, admissions, world, hids, hmem, rfl, rfl⟩ := selectWork_eq_ok h.nodup
    (fun id hid => (h.waiting id hid).cacheHandle) h.running heq
  have hkept := kept_admittedAll probes ids admissions world s
  have hwf := h.admittedAll hids probes admissions world
  have hrequestId : ∀ id, (prefillWork config
      (((s.probed probes).admittedAll ids admissions world).states id)).requestId = id :=
    fun id => hwf.key id
  have hprefillIds : (ids.map fun id => prefillWork config
      (((s.probed probes).admittedAll ids admissions world).states id)).map
        ExecutionRequest.requestId = ids := by
    rw [List.map_map]
    exact (List.map_congr_left fun id _ => hrequestId id).trans (List.map_id _)
  have hgenerated : ∀ id ∈ ids, (s.states id).generatedTokens = 0 := by
    intro id hid
    rcases mem_prefillStates.mp (hmem id hid) with ⟨-, ⟨-, hlt⟩ | hw⟩
    · exact (h.staged id).prefilling hlt
    · exact (h.waiting id hw).generatedTokens
  have hdecode : ∀ r ∈ s.running.filterMap fun id => decodeWork (s.states id),
      r.requestId ∈ s.running ∧ r.phase = .decode ∧ (s.states r.requestId).open = true ∧
        (s.states r.requestId).generatedTokens ≠ 0 := by
    intro r hr
    obtain ⟨id, hid, hwork⟩ := List.mem_filterMap.mp hr
    obtain ⟨hrid, hphase, hopen, -, token, htoken, -⟩ := decodeWork_eq_some hwork
    rw [h.key] at hrid
    subst hrid
    exact ⟨hid, hphase, hopen, (h.staged _).decoding (by simp [htoken])⟩
  have hprefill : ∀ r ∈ ids.map fun id => prefillWork config
      (((s.probed probes).admittedAll ids admissions world).states id),
      r.requestId ∈ ids ∧ r.phase = .prefill := by
    intro r hr
    obtain ⟨id, hid, rfl⟩ := List.mem_map.mp hr
    exact ⟨(hrequestId id).symm ▸ hid, rfl⟩
  refine ⟨hwf, ⟨?_, ?_, ?_, ?_⟩, ?_⟩
  · rw [List.map_append, hprefillIds]
    have hrunning := (List.nodup_append.mp h.nodup).2.1
    refine List.nodup_append.mpr ⟨hrunning.sublist (decodeWork_sublist h), hids, ?_⟩
    rintro x hx y hy rfl
    obtain ⟨r, hr, rfl⟩ := List.mem_map.mp hx
    exact (hdecode r hr).2.2.2 (hgenerated _ hy)
  · intro r hr
    rcases List.mem_append.mp hr with hr | hr
    · exact List.mem_append_left _ (hdecode r hr).1
    · obtain ⟨hid, -⟩ := hprefill r hr
      rcases mem_prefillStates.mp (hmem _ hid) with ⟨-, ⟨hrun, -⟩ | hw⟩
      · exact List.mem_append_left _ hrun
      · exact List.mem_append_right _ (List.mem_filter.mpr ⟨hid, decide_eq_true hw⟩)
  · intro r hr hphase
    rw [(hkept r.requestId).generatedTokens]
    rcases List.mem_append.mp hr with hr | hr
    · rw [(hdecode r hr).2.1] at hphase
      cases hphase
    · exact hgenerated _ (hprefill r hr).1
  · intro r hr hphase
    rw [(hkept r.requestId).generatedTokens]
    rcases List.mem_append.mp hr with hr | hr
    · exact (hdecode r hr).2.2.2
    · rw [(hprefill r hr).2] at hphase
      cases hphase
  · intro r hr
    rw [(hkept r.requestId).open]
    rcases List.mem_append.mp hr with hr | hr
    · exact (hdecode r hr).2.2.1
    · exact (mem_prefillStates.mp (hmem _ (hprefill r hr).1)).1

/-! ## Results -/

omit [DecidableEq ρ] in
/-- What a result leaves as it is. -/
theorem applyResult_kept (config : SchedulerConfig) (request : ExecutionRequest ρ) (item : StepRequestResult ρ)
    (st : ScheduledState ρ) : (applyResult config request item st).work = st.work ∧
      (applyResult config request item st).cacheHandle = st.cacheHandle ∧
      (applyResult config request item st).reusedPromptTokens = st.reusedPromptTokens ∧
      (applyResult config request item st).cancelRequested = st.cancelRequested ∧
      (applyResult config request item st).finishRequested = st.finishRequested := by
  simp only [applyResult]
  split
  · split <;> exact ⟨rfl, rfl, rfl, rfl, rfl⟩
  · exact ⟨rfl, rfl, rfl, rfl, rfl⟩

omit [DecidableEq ρ] in
/-- A result that counts generates a token, or goes on with the prompt. -/
theorem staged_applyResult {request : ExecutionRequest ρ} (item : StepRequestResult ρ)
    {st : ScheduledState ρ} (h : st.Staged)
    (hprefill : request.phase = .prefill → st.generatedTokens = 0)
    (hdecode : request.phase = .decode → st.generatedTokens ≠ 0) :
    (applyResult config request item st).Staged := by
  simp only [applyResult]
  split
  · rename_i hphase
    split
    · rename_i hend
      exact ⟨fun hlt => absurd hend hlt.ne, fun _ => Nat.succ_ne_zero _⟩
    · exact ⟨fun _ => hprefill hphase, h.decoding⟩
  · rename_i hphase
    exact ⟨fun hlt => absurd (h.prefilling hlt) (hdecode hphase), fun _ => Nat.succ_ne_zero _⟩

theorem advanced_kept (result : StepResult ρ) (request : ExecutionRequest ρ)
    (st : ScheduledState ρ) : (advanced config result request st).work = st.work ∧
      (advanced config result request st).cacheHandle = st.cacheHandle ∧
      (advanced config result request st).cancelRequested = st.cancelRequested := by
  simp only [advanced]
  split
  · split
    · exact ⟨rfl, rfl, rfl⟩
    · obtain ⟨hwork, hhandle, -, hcancel, -⟩ := applyResult_kept config request _ st
      exact ⟨hwork, hhandle, hcancel⟩
  · exact ⟨rfl, rfl, rfl⟩

theorem advancedStates_kept (config : SchedulerConfig) (result : StepResult ρ) (selected : List (ExecutionRequest ρ))
    (states : ρ → ScheduledState ρ) (id : ρ) :
    (advancedStates config result selected states id).work = (states id).work ∧
      (advancedStates config result selected states id).cacheHandle = (states id).cacheHandle ∧
      (advancedStates config result selected states id).cancelRequested =
        (states id).cancelRequested := by
  simp only [advancedStates]
  split
  · exact advanced_kept _ _ _
  · exact ⟨rfl, rfl, rfl⟩

/-- The states after a result, when nothing is in flight. -/
theorem Wf.advanced (h : s.Wf) (hflight : s.inFlight = none) {result : StepResult ρ}
    {selected : List (ExecutionRequest ρ)} (hbatch : Batch s.running s.states selected) :
    Wf { s with states := advancedStates config result selected s.states } := by
  have hcases : ∀ id, advancedStates config result selected s.states id = s.states id ∨
      ∃ r ∈ selected, r.requestId = id ∧ advancedStates config result selected s.states id =
        NativeScheduler.advanced config result r (s.states id) := by
    intro id
    by_cases hid : id ∈ selected.map ExecutionRequest.requestId
    · obtain ⟨r, hr, rfl⟩ := List.mem_map.mp hid
      exact .inr ⟨r, hr, rfl, advancedStates_of_mem hbatch.nodup hr s.states⟩
    · exact .inl (advancedStates_of_notMem hid s.states)
  have hkept := advancedStates_kept config result selected s.states
  refine ⟨h.nodup, fun id => ?_, fun id hid => ?_, fun id hid => ?_, fun id => ?_, ?_⟩
  · exact (congrArg _ (hkept id).1).trans (h.key id)
  · have hnot : id ∉ selected.map ExecutionRequest.requestId := by
      intro hmem
      obtain ⟨r, hr, rfl⟩ := List.mem_map.mp hmem
      exact h.not_running hid (hbatch.running r hr)
    show (advancedStates config result selected s.states id).Fresh
    rw [advancedStates_of_notMem hnot]
    exact h.waiting id hid
  · show (advancedStates config result selected s.states id).cacheHandle ≠ none
    rw [(hkept id).2.1]
    exact h.running id hid
  · show (advancedStates config result selected s.states id).Staged
    rcases hcases id with heq | ⟨r, hr, rfl, heq⟩
    · rw [heq]
      exact h.staged id
    · rw [heq, NativeScheduler.advanced]
      have hstaged := h.staged r.requestId
      split
      · split
        · exact ⟨hstaged.prefilling, hstaged.decoding⟩
        · exact staged_applyResult _ hstaged (hbatch.prefill r hr) (hbatch.decode r hr)
      · exact hstaged
  · intro step hstep
    exact (Option.some_ne_none _ (hstep.symm.trans hflight)).elim

end NativeScheduler
end MlxRuntime
