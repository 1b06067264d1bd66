import MlxRuntime.Scheduler.Tick
import Mathlib.Data.List.Nodup

/-!
# What the parts of a tick do

Each part of a tick is brought into a form without a loop: which requests leave, what a result
makes of a state, which events there are.  The world changes only by the calls to the executor
and the coordinator, which stay as they are.

## Main definitions

* `leave` — requests leave together; `reapCancelledFrom_eq`, `reapFinishedFrom_eq`.
* `Admitted`, `selectWork_eq_ok` — the work that is selected.
* `advanceStepState_eq`, `emitResults_eq_ok` — results.
* `OverlapTick`, `SerialTick` — a tick, taken apart.
-/

namespace MlxRuntime.NativeScheduler

variable {ρ σ π φ : Type} [DecidableEq ρ] {svc : SchedulerServices ρ σ π φ}
  {config : SchedulerConfig} {s s' : NativeScheduler ρ σ φ} {id : ρ} {ids : List ρ}

/-! ## Writes to states -/

@[simp] theorem modify_states (id : ρ) (f : ScheduledState ρ → ScheduledState ρ)
    (s : NativeScheduler ρ σ φ) :
    (s.modify id f).states = Function.update s.states id (f (s.states id)) := rfl

@[simp] theorem modify_world (id : ρ) (f : ScheduledState ρ → ScheduledState ρ)
    (s : NativeScheduler ρ σ φ) : (s.modify id f).world = s.world := rfl

theorem markFinished_eq (selected : List (ExecutionRequest ρ)) (s : NativeScheduler ρ σ φ) :
    s.markFinished selected = { s with
      states := fun id =>
        if id ∈ selected.map ExecutionRequest.requestId then
          { s.states id with finishRequested := true }
        else s.states id } := by
  induction selected generalizing s with
  | nil => simp [markFinished]
  | cons request rest ih =>
      show (s.modify request.requestId _).markFinished rest = _
      rw [ih]
      congr 1
      funext id
      simp only [modify, Function.update_apply, List.map_cons, List.mem_cons]
      by_cases heq : id = request.requestId
      · subst heq
        simp
      · simp [heq]

/-! ## Requests that leave -/

/-- The caches of requests are released, one after the other. -/
def releaseAll (svc : SchedulerServices ρ σ π φ) : List (Option ℕ) → σ → Except PyError σ
  | [], world => .ok world
  | handle :: handles, world =>
      match svc.release handle world with
      | (.error e, _) => .error e
      | (.ok (), world) => releaseAll svc handles world

/-- Requests leave the dictionaries, and their caches are released. -/
def leave (svc : SchedulerServices ρ σ π φ) (ids : List ρ) (s : NativeScheduler ρ σ φ) :
    Except PyError (NativeScheduler ρ σ φ) :=
  (releaseAll svc (ids.map fun id => (s.states id).cacheHandle) s.world).map fun world =>
    { s with
      world := world
      waiting := s.waiting.filter (· ∉ ids)
      running := s.running.filter (· ∉ ids) }

theorem leave_nil (s : NativeScheduler ρ σ φ) : s.leave svc [] = .ok s := by
  simp [leave, releaseAll, Except.map]

theorem leave_cons (hwaiting : s.waiting.Nodup) (hrunning : s.running.Nodup) (id : ρ)
    (ids : List ρ) : s.leave svc (id :: ids) = s.discard svc id >>= leave svc ids := by
  simp only [leave, List.map_cons, releaseAll, discard, releaseCache]
  cases hrelease : svc.release (s.states id).cacheHandle s.world with
  | mk result world =>
      cases result with
      | error e => rfl
      | ok u =>
          obtain rfl : u = () := rfl
          show Except.map _ (releaseAll svc (ids.map fun id => (s.states id).cacheHandle) world) =
            Except.map _ (releaseAll svc (ids.map fun id => (s.states id).cacheHandle) world)
          cases releaseAll svc (ids.map fun id => (s.states id).cacheHandle) world with
          | error e => rfl
          | ok world =>
              simp only [Except.map, hwaiting.erase_eq_filter, hrunning.erase_eq_filter,
                List.filter_filter, List.mem_cons, not_or]
              congr 2 <;> refine List.filter_congr fun x _ => ?_ <;>
                by_cases hx : x = id <;> simp [hx]

theorem discard_frame (h : s.discard svc id = .ok s') : s'.states = s.states ∧
    s'.waiting = s.waiting.erase id ∧ s'.running = s.running.erase id ∧
    s'.inFlight = s.inFlight := by
  simp only [discard, releaseCache] at h
  split at h
  · cases h
  · obtain rfl := Except.ok.inj h
    exact ⟨rfl, rfl, rfl, rfl⟩

/-- The requests that are reaped leave, in their order. -/
theorem reapFinishedFrom_eq (protectedIds : List ρ) (hwaiting : s.waiting.Nodup)
    (hrunning : s.running.Nodup) : reapFinishedFrom svc protectedIds ids s =
      s.leave svc (ids.filter fun id => (s.states id).finishRequested && id ∉ protectedIds) := by
  induction ids generalizing s with
  | nil => exact (leave_nil s).symm
  | cons id ids ih =>
      rw [reapFinishedFrom, List.filter_cons]
      split
      · rw [leave_cons hwaiting hrunning]
        cases hdiscard : s.discard svc id with
        | error e => rfl
        | ok s₁ =>
            obtain ⟨hstates, hw, hr, -⟩ := discard_frame hdiscard
            show reapFinishedFrom svc protectedIds ids s₁ = leave svc _ s₁
            rw [ih (hw ▸ hwaiting.erase id) (hr ▸ hrunning.erase id), hstates]
      · exact ih hwaiting hrunning

theorem reapCancelledFrom_eq (protectedIds : List ρ) (hids : ids.Nodup)
    (hwaiting : s.waiting.Nodup) (hrunning : s.running.Nodup) :
    reapCancelledFrom svc protectedIds ids s =
      (s.leave svc (ids.filter fun id => (s.states id).cancelRequested && id ∉ protectedIds)).map
        fun s' => ((ids.filter fun id =>
          (s.states id).cancelRequested && id ∉ protectedIds).map fun id =>
            .cancelled id (s.cancellationStage id), s') := by
  induction ids generalizing s with
  | nil => simp [reapCancelledFrom, leave_nil, Except.map]
  | cons id ids ih =>
      obtain ⟨hnot, hids⟩ := List.nodup_cons.mp hids
      rw [reapCancelledFrom, List.filter_cons]
      split
      · rw [leave_cons hwaiting hrunning]
        cases hdiscard : s.discard svc id with
        | error e => rfl
        | ok s₁ =>
            obtain ⟨hstates, hw, hr, -⟩ := discard_frame hdiscard
            have hstage : ∀ x ∈ ids, s₁.cancellationStage x = s.cancellationStage x := by
              intro x hx
              have hne : x ≠ id := fun heq => hnot (heq ▸ hx)
              simp only [cancellationStage, hstates, hw, List.mem_erase_of_ne hne]
            change (reapCancelledFrom svc protectedIds ids s₁ >>= fun reaped =>
              pure (.cancelled id (s.cancellationStage id) :: reaped.1, reaped.2)) =
                Except.map _ (leave svc _ s₁)
            rw [ih hids (hw ▸ hwaiting.erase id) (hr ▸ hrunning.erase id), hstates]
            cases leave svc _ s₁ with
            | error e => rfl
            | ok s₂ =>
                refine congrArg Except.ok (Prod.ext (congrArg (List.cons _) ?_) rfl)
                refine List.map_congr_left fun x hx => ?_
                rw [hstage x (List.mem_of_mem_filter hx)]
      · exact ih hids hwaiting hrunning

/-! ## Selection -/

/-- The states with other probes. -/
def probed (probes : ρ → Option PrefixProbe) (s : NativeScheduler ρ σ φ) :
    NativeScheduler ρ σ φ :=
  { s with states := fun id => { s.states id with cachedProbe := probes id } }

/-- Only probes change. -/
theorem foldl_probeState (ids : List ρ) (s : NativeScheduler ρ σ φ) :
    ∃ probes, ids.foldl (probeState svc) s = s.probed probes := by
  induction ids generalizing s with
  | nil => exact ⟨fun id => (s.states id).cachedProbe, rfl⟩
  | cons id ids ih =>
      obtain ⟨probes, hprobes⟩ := ih (probeState svc s id)
      refine ⟨probes, hprobes.trans ?_⟩
      simp only [probeState, modify, probed]
      congr 1
      funext x
      by_cases hx : x = id
      · subst hx
        simp
      · simp [hx]

/-- The policy orders the requests, and keeps probes in them. -/
theorem order_spec (svc : SchedulerServices ρ σ π φ) (config : SchedulerConfig) (ids : List ρ) (s : NativeScheduler ρ σ φ) :
    (s.order svc config ids).1.Perm ids ∧
      ∃ probes, (s.order svc config ids).2 = s.probed probes := by
  have hsame : ∃ probes, s = s.probed probes := ⟨fun id => (s.states id).cachedProbe, rfl⟩
  simp only [order]
  split
  · exact ⟨.refl _, hsame⟩
  · exact ⟨List.mergeSort_perm _ _, hsame⟩
  · exact ⟨List.mergeSort_perm _ _, hsame⟩
  · exact ⟨List.mergeSort_perm _ _, foldl_probeState ids s⟩

theorem admitWaiting_eq_ok (h : s.admitWaiting svc id = .ok s') : ∃ admission world,
    svc.acquire id (s.states id).work.promptTokenIds ((s.states id).cachedProbe.getD
      (svc.probe (s.states id).work.promptTokenIds s.world)) s.world = (.ok admission, world) ∧
    s' = { s with
      world := world
      waiting := s.waiting.erase id
      running := if id ∈ s.running then s.running else s.running ++ [id]
      states := Function.update s.states id (admitted admission (s.states id)) } := by
  simp only [admitWaiting] at h
  split at h
  · cases h
  · rename_i admission world hacquire
    exact ⟨admission, world, hacquire, (Except.ok.inj h).symm⟩

/-- What selection makes of the scheduler, but for its world: the waiting ones among the
selected run, with the caches they are given. -/
def admittedAll (ids : List ρ) (admissions : ρ → CacheAdmission) (world : σ)
    (s : NativeScheduler ρ σ φ) : NativeScheduler ρ σ φ :=
  { s with
    world := world
    waiting := s.waiting.filter (· ∉ ids)
    running := s.running ++ ids.filter (· ∈ s.waiting)
    states := fun id =>
      if id ∈ ids ∧ id ∈ s.waiting then admitted (admissions id) (s.states id) else s.states id }

theorem selectPrefill_spec {requests : List (ExecutionRequest ρ)} (hids : ids.Nodup)
    (hnodup : (s.waiting ++ s.running).Nodup)
    (hplace : ∀ id ∈ ids, id ∈ s.waiting ∧ (s.states id).cacheHandle = none ∨
      id ∈ s.running ∧ (s.states id).cacheHandle ≠ none)
    (h : s.selectPrefill svc config ids = .ok (requests, s')) :
    ∃ admissions world, s' = s.admittedAll ids admissions world ∧
      requests = ids.map fun id => prefillWork config (s'.states id) := by
  induction ids generalizing s requests with
  | nil =>
      obtain ⟨rfl, rfl⟩ := Prod.mk.inj (Except.ok.inj h)
      exact ⟨fun _ => ⟨0, 0, 0, 0⟩, s.world, by simp [admittedAll], rfl⟩
  | cons id ids ih =>
      obtain ⟨hnot, hids⟩ := List.nodup_cons.mp hids
      obtain ⟨hwaiting, hrunning, hdisjoint⟩ := List.nodup_append.mp hnodup
      rw [selectPrefill] at h
      obtain ⟨s₁, hadmit, h⟩ := bind_eq_ok h
      obtain ⟨⟨requests', s₂⟩, hrest, h⟩ := bind_eq_ok h
      obtain ⟨rfl, rfl⟩ := Prod.mk.inj (Except.ok.inj h)
      rcases hplace id List.mem_cons_self with ⟨hw, hnone⟩ | ⟨hr, hsome⟩
      · have hnotRunning : id ∉ s.running := fun hr => hdisjoint id hw id hr rfl
        rw [ensureRunning, if_pos (by simp [hnone])] at hadmit
        obtain ⟨admission, world, -, rfl⟩ := admitWaiting_eq_ok hadmit
        rw [if_neg hnotRunning] at hrest
        have hperm : (s.waiting.erase id ++ (s.running ++ [id])).Perm
            (s.waiting ++ s.running) := by
          refine .trans ?_ ((List.perm_cons_erase hw).append_right _).symm
          rw [← List.append_assoc]
          exact List.perm_append_comm
        obtain ⟨admissions, world', rfl, rfl⟩ := ih hids (hperm.nodup_iff.mpr hnodup) (by
          intro x hx
          have hne : x ≠ id := fun heq => hnot (heq ▸ hx)
          simpa [Function.update_of_ne hne, List.mem_erase_of_ne hne, hne] using
            hplace x (List.mem_cons_of_mem _ hx)) hrest
        refine ⟨Function.update admissions id admission, world', ?_, ?_⟩
        · simp only [admittedAll]
          congr 1
          · funext x
            by_cases hx : x = id
            · subst hx
              simp [hnot, hw]
            · simp [hx, List.mem_erase_of_ne hx]
          · rw [hwaiting.erase_eq_filter, List.filter_filter]
            refine List.filter_congr fun x _ => ?_
            by_cases hx : x = id <;> simp [hx]
          · rw [List.append_assoc, List.filter_cons_of_pos (by simpa using hw)]
            refine congrArg _ (congrArg _ (List.filter_congr fun x hx => ?_))
            have hne : x ≠ id := fun heq => hnot (heq ▸ hx)
            simp [List.mem_erase_of_ne hne]
        · simp [admittedAll, hnot]
      · have hnotWaiting : id ∉ s.waiting := fun hw => hdisjoint id hw id hr rfl
        rw [ensureRunning, if_neg (by simpa using hsome)] at hadmit
        obtain rfl := Except.ok.inj hadmit
        obtain ⟨admissions, world', rfl, rfl⟩ := ih hids hnodup
          (fun x hx => hplace x (List.mem_cons_of_mem _ hx)) hrest
        refine ⟨admissions, world', ?_, ?_⟩
        · simp only [admittedAll]
          congr 1
          · funext x
            by_cases hx : x = id
            · subst hx
              simp [hnotWaiting]
            · simp [hx]
          · refine List.filter_congr fun x hx => ?_
            have hne : x ≠ id := fun heq => hnotWaiting (heq ▸ hx)
            simp [hne]
          · rw [List.filter_cons_of_neg (by simpa using hnotWaiting)]
        · simp [admittedAll, hnot]

omit [DecidableEq ρ] in
theorem mem_prefillStates : id ∈ s.prefillStates ↔
    (s.states id).open = true ∧
      (id ∈ s.running ∧ (s.states id).promptCursor < (s.states id).promptLength ∨
        id ∈ s.waiting) := by
  simp only [prefillStates, List.mem_append, List.mem_filter, Bool.and_eq_true, decide_eq_true_eq]
  tauto

/-- The work that is selected, and what selection makes of the scheduler. -/
theorem selectWork_eq_ok {selected : List (ExecutionRequest ρ)}
    (hnodup : (s.waiting ++ s.running).Nodup)
    (hwaiting : ∀ id ∈ s.waiting, (s.states id).cacheHandle = none)
    (hrunning : ∀ id ∈ s.running, (s.states id).cacheHandle ≠ none)
    (h : s.selectWork svc config = .ok (selected, s')) :
    ∃ probes ids admissions world, ids.Nodup ∧ (∀ id ∈ ids, id ∈ s.prefillStates) ∧
      s' = (s.probed probes).admittedAll ids admissions world ∧
      selected = (s.running.filterMap fun id => decodeWork (s.states id)) ++
        ids.map fun id => prefillWork config (s'.states id) := by
  obtain ⟨hperm, probes, hprobes⟩ := order_spec svc config s.prefillStates s
  have hprefill : s.prefillStates.Nodup := by
    obtain ⟨hw, hr, hdisjoint⟩ := List.nodup_append.mp hnodup
    refine List.nodup_append.mpr ⟨hr.filter _, hw.filter _, fun x hx y hy => ?_⟩
    exact (hdisjoint y (List.mem_of_mem_filter hy) x (List.mem_of_mem_filter hx)).symm
  rw [selectWork] at h
  obtain ⟨⟨prefill, s₂⟩, hselect, h⟩ := bind_eq_ok h
  obtain ⟨rfl, rfl⟩ := Prod.mk.inj (Except.ok.inj h)
  change selectPrefill svc config (List.take _ (s.order svc config s.prefillStates).1)
    (s.order svc config s.prefillStates).2 = _ at hselect
  rw [hprobes] at hselect
  generalize hids : List.take _ (s.order svc config s.prefillStates).1 = ids at hselect
  have hmem : ∀ id ∈ ids, id ∈ s.prefillStates := fun id hid =>
    hperm.mem_iff.mp (List.mem_of_mem_take (hids ▸ hid))
  have hnodupIds : ids.Nodup :=
    hids ▸ (hperm.nodup_iff.mpr hprefill).sublist (List.take_sublist _ _)
  have hplace : ∀ id ∈ ids, id ∈ s.waiting ∧ (s.states id).cacheHandle = none ∨
      id ∈ s.running ∧ (s.states id).cacheHandle ≠ none := by
    intro id hid
    rcases mem_prefillStates.mp (hmem id hid) with ⟨-, ⟨hr, -⟩ | hw⟩
    · exact .inr ⟨hr, hrunning id hr⟩
    · exact .inl ⟨hw, hwaiting id hw⟩
  obtain ⟨admissions, world, hs', rfl⟩ :=
    selectPrefill_spec (s := s.probed probes) hnodupIds hnodup hplace hselect
  exact ⟨probes, ids, admissions, world, hnodupIds, hmem, hs', rfl⟩

/-! ## Results -/

/-- The events of a request that failed. -/
def failureEvents (result : StepResult ρ) (request : ExecutionRequest ρ)
    (st : ScheduledState ρ) : List (SchedulerEvent ρ) :=
  if st.open then
    match judge result request with
    | .error (code, message) => [.executionError request.requestId code message]
    | .ok _ => []
  else []

/-- The result of a request, if it counts. -/
def accepted? (result : StepResult ρ) (request : ExecutionRequest ρ) (st : ScheduledState ρ) :
    Option (ExecutionRequest ρ × StepRequestResult ρ) :=
  if st.open then
    match judge result request with
    | .error _ => none
    | .ok item => some (request, item)
  else none

/-- What a result makes of the state of a request. -/
def advanced (config : SchedulerConfig) (result : StepResult ρ) (request : ExecutionRequest ρ)
    (st : ScheduledState ρ) : ScheduledState ρ :=
  if st.open then
    match judge result request with
    | .error _ => { st with finishRequested := true }
    | .ok item => applyResult config request item st
  else st

/-- What a result makes of the states. -/
def advancedStates (config : SchedulerConfig) (result : StepResult ρ)
    (selected : List (ExecutionRequest ρ)) (states : ρ → ScheduledState ρ) (id : ρ) :
    ScheduledState ρ :=
  match selected.find? fun request => request.requestId = id with
  | some request => advanced config result request (states id)
  | none => states id

theorem advancedStates_of_mem {result : StepResult ρ} {selected : List (ExecutionRequest ρ)}
    (hnodup : (selected.map ExecutionRequest.requestId).Nodup) {request : ExecutionRequest ρ}
    (h : request ∈ selected) (states : ρ → ScheduledState ρ) :
    advancedStates config result selected states request.requestId =
      advanced config result request (states request.requestId) := by
  have hfind : (selected.find? fun r => r.requestId = request.requestId) = some request := by
    induction selected with
    | nil => cases h
    | cons head rest ih =>
        obtain ⟨hnot, hrest⟩ := List.nodup_cons.mp hnodup
        rcases List.mem_cons.mp h with rfl | h
        · simp
        · have hne : head.requestId ≠ request.requestId := fun heq =>
            hnot (heq ▸ List.mem_map_of_mem h)
          simpa [hne] using ih hrest h
  simp only [advancedStates, hfind]

theorem advancedStates_of_notMem {result : StepResult ρ} {selected : List (ExecutionRequest ρ)}
    (h : id ∉ selected.map ExecutionRequest.requestId) (states : ρ → ScheduledState ρ) :
    advancedStates config result selected states id = states id := by
  have hfind : (selected.find? fun r => r.requestId = id) = none := by
    refine List.find?_eq_none.mpr fun r hr heq => h ?_
    exact List.mem_map.mpr ⟨r, hr, by simpa using heq⟩
  simp only [advancedStates, hfind]

/-- A result changes each request that waits for it, once. -/
theorem advanceStepState_eq {result : StepResult ρ} {selected : List (ExecutionRequest ρ)}
    (hnodup : (selected.map ExecutionRequest.requestId).Nodup) (s : NativeScheduler ρ σ φ) :
    advanceStepState config result selected s =
      (selected.flatMap fun r => failureEvents result r (s.states r.requestId),
        selected.filterMap fun r => accepted? result r (s.states r.requestId),
        { s with states := advancedStates config result selected s.states }) := by
  induction selected generalizing s with
  | nil => rfl
  | cons request rest ih =>
      obtain ⟨hnot, hrest⟩ := List.nodup_cons.mp hnodup
      have hother : ∀ r ∈ rest, r.requestId ≠ request.requestId := fun r hr heq =>
        hnot (heq ▸ List.mem_map_of_mem hr)
      have hstates : ∀ states : ρ → ScheduledState ρ,
          advancedStates config result (request :: rest) states =
            advancedStates config result rest (Function.update states request.requestId
              (advanced config result request (states request.requestId))) := by
        intro states
        funext id
        by_cases hid : id = request.requestId
        · subst hid
          rw [advancedStates_of_mem hnodup List.mem_cons_self,
            advancedStates_of_notMem hnot, Function.update_self]
        · simp only [advancedStates, List.find?_cons, Ne.symm hid, decide_false,
            Function.update_of_ne hid]
      have hkeep : ∀ (st : ScheduledState ρ), ∀ r ∈ rest,
          Function.update s.states request.requestId st r.requestId = s.states r.requestId :=
        fun st r hr => Function.update_of_ne (hother r hr) _ _
      have hevents : ∀ st : ScheduledState ρ, (rest.flatMap fun r =>
          failureEvents result r (Function.update s.states request.requestId st r.requestId)) =
          rest.flatMap fun r => failureEvents result r (s.states r.requestId) := fun st =>
        List.flatMap_congr fun r hr => by rw [hkeep st r hr]
      have happlied : ∀ st : ScheduledState ρ, (rest.filterMap fun r =>
          accepted? result r (Function.update s.states request.requestId st r.requestId)) =
          rest.filterMap fun r => accepted? result r (s.states r.requestId) := fun st =>
        List.filterMap_congr fun r hr => by rw [hkeep st r hr]
      rw [advanceStepState, hstates, List.flatMap_cons, List.filterMap_cons]
      split
      · rename_i hopen
        cases hjudge : judge result request with
        | error failure =>
            have hstate : advanced config result request (s.states request.requestId) =
                { s.states request.requestId with finishRequested := true } := by
              simp only [advanced, hopen, hjudge, if_true]
            have hhead : failureEvents result request (s.states request.requestId) =
                [.executionError request.requestId failure.1 failure.2] := by
              simp only [failureEvents, hopen, hjudge, if_true]
            have hnone : accepted? result request (s.states request.requestId) = none := by
              simp only [accepted?, hopen, hjudge, if_true]
            simp only [ih hrest, modify, hevents, happlied, hstate, hhead, hnone]
            rfl
        | ok item =>
            have hstate : advanced config result request (s.states request.requestId) =
                applyResult config request item (s.states request.requestId) := by
              simp only [advanced, hopen, hjudge, if_true]
            have hhead : failureEvents result request (s.states request.requestId) = [] := by
              simp only [failureEvents, hopen, hjudge, if_true]
            have hsome : accepted? result request (s.states request.requestId) =
                some (request, item) := by
              simp only [accepted?, hopen, hjudge, if_true]
            simp only [ih hrest, modify, hevents, happlied, hstate, hhead, hsome]
            rfl
      · rename_i hclosed
        have hstate : advanced config result request (s.states request.requestId) =
            s.states request.requestId := if_neg hclosed
        have hhead : failureEvents result request (s.states request.requestId) = [] :=
          if_neg hclosed
        have hnone : accepted? result request (s.states request.requestId) = none := if_neg hclosed
        simp only [ih hrest, hstate, hhead, hnone, Function.update_eq_self]
        rfl

omit [DecidableEq ρ] in
theorem publishResult_eq_ok {request : ExecutionRequest ρ} {item : StepRequestResult ρ}
    (h : s.publishResult svc request item = .ok s') : s' = { s with world := s'.world } := by
  simp only [publishResult] at h
  split at h
  · obtain rfl := Except.ok.inj h
    rfl
  · split at h
    · cases h
    · obtain rfl := Except.ok.inj h
      rfl

omit [DecidableEq ρ] in
/-- The events of the results that count are those of the states; only the world changes. -/
theorem emitResults_eq_ok {result : StepResult ρ}
    {applied : List (ExecutionRequest ρ × StepRequestResult ρ)} {events : List (SchedulerEvent ρ)}
    (h : emitResults svc result applied s = .ok (events, s')) :
    (events = applied.flatMap fun a => resultEvents result a.1 a.2 (s.states a.1.requestId)) ∧
      s' = { s with world := s'.world } := by
  induction applied generalizing s events with
  | nil =>
      obtain ⟨rfl, rfl⟩ := Prod.mk.inj (Except.ok.inj h)
      exact ⟨rfl, rfl⟩
  | cons a rest ih =>
      obtain ⟨request, item⟩ := a
      rw [emitResults] at h
      obtain ⟨s₁, hpublish, h⟩ := bind_eq_ok h
      obtain ⟨⟨events', s₂⟩, hrest, h⟩ := bind_eq_ok h
      obtain ⟨rfl, rfl⟩ := Prod.mk.inj (Except.ok.inj h)
      obtain ⟨rfl, hs₂⟩ := ih hrest
      have hs₁ := publishResult_eq_ok hpublish
      refine ⟨?_, ?_⟩
      · rw [List.flatMap_cons, hs₁]
      · rw [hs₂, hs₁]

omit [DecidableEq ρ] in
/-- A result that is emitted: the events of the results that count, and metrics. -/
theorem emitStepResult_eq_ok {selected : List (ExecutionRequest ρ)} {result : StepResult ρ}
    {applied : List (ExecutionRequest ρ × StepRequestResult ρ)} {events : List (SchedulerEvent ρ)}
    (h : emitStepResult svc selected result applied s = .ok (events, s')) :
    s' = { s with world := s'.world } ∧
      events = (applied.flatMap fun a => resultEvents result a.1 a.2 (s.states a.1.requestId)) ++
        phaseMetrics selected s' .decode ++ phaseMetrics selected s' .prefill := by
  rw [emitStepResult] at h
  obtain ⟨⟨events', s₁⟩, hemit, h⟩ := bind_eq_ok h
  obtain ⟨rfl, rfl⟩ := Prod.mk.inj (Except.ok.inj h)
  obtain ⟨rfl, hs₁⟩ := emitResults_eq_ok hemit
  exact ⟨hs₁, rfl⟩

/-! ## Launching -/

omit [DecidableEq ρ] in
/-- A batch that is started changes the world, and is in flight if it has no result. -/
theorem startBatch_frame {batch : ExecutionBatch ρ} {r : Except PyError (Option (StepResult ρ))}
    (h : startBatch svc batch s = (r, s')) :
    s' = { s with world := s'.world, inFlight := s'.inFlight } ∧
      (s'.inFlight = s.inFlight ∧ r ≠ .ok none ∨
        r = .ok none ∧ ∃ step, s'.inFlight = some ⟨batch.requests, step⟩) := by
  simp only [startBatch] at h
  split at h
  · obtain ⟨rfl, rfl⟩ := Prod.mk.inj h
    exact ⟨rfl, .inl ⟨rfl, nofun⟩⟩
  · rename_i prepared world hprepare
    split at h
    · split at h
      · obtain ⟨rfl, rfl⟩ := Prod.mk.inj h
        exact ⟨rfl, .inl ⟨rfl, nofun⟩⟩
      · obtain ⟨rfl, rfl⟩ := Prod.mk.inj h
        refine ⟨rfl, .inl ⟨rfl, ?_⟩⟩
        cases (svc.executePreparedSerial prepared world).1 <;> nofun
      all_goals
        split at h <;> obtain ⟨rfl, rfl⟩ := Prod.mk.inj h
        · exact ⟨rfl, .inl ⟨rfl, nofun⟩⟩
        · exact ⟨rfl, .inr ⟨rfl, _, rfl⟩⟩
    · obtain ⟨rfl, rfl⟩ := Prod.mk.inj h
      refine ⟨rfl, .inl ⟨rfl, ?_⟩⟩
      cases (svc.executePrepared prepared world).1 <;> nofun

/-! ## A tick, taken apart -/

variable (svc config) in
/-- A serial tick: nothing to run, or a step. -/
inductive SerialTick (s : NativeScheduler ρ σ φ) :
    List (SchedulerEvent ρ) → NativeScheduler ρ σ φ → Prop
  | nothing {reaped s₁ s₂}
      (reap : reapCancelled svc [] { s with schedulerRound := s.schedulerRound + 1 } =
        .ok (reaped, s₁))
      (select : selectWork svc config s₁ = .ok ([], s₂)) : SerialTick s reaped s₂
  | ran {reaped s₁ selected s₂ events s₃ reaped' s₄}
      (reap : reapCancelled svc [] { s with schedulerRound := s.schedulerRound + 1 } =
        .ok (reaped, s₁))
      (select : selectWork svc config s₁ = .ok (selected, s₂)) (nonempty : selected ≠ [])
      (run : runStep svc config selected s₂ = .ok (events, s₃))
      (reapAgain : reapCancelled svc [] s₃ = .ok (reaped', s₄)) :
      SerialTick s (reaped ++ events ++ reaped') s₄

theorem tickSerial_eq_ok {events : List (SchedulerEvent ρ)}
    (h : tickSerial svc config s = .ok (events, s')) : SerialTick svc config s events s' := by
  rw [tickSerial] at h
  obtain ⟨⟨reaped, s₁⟩, hreap, h⟩ := bind_eq_ok h
  obtain ⟨⟨selected, s₂⟩, hselect, h⟩ := bind_eq_ok h
  dsimp only at h
  split at h
  · rename_i hempty
    obtain rfl := List.isEmpty_iff.mp hempty
    obtain ⟨rfl, rfl⟩ := Prod.mk.inj (Except.ok.inj h)
    exact .nothing hreap hselect
  · rename_i hnonempty
    obtain ⟨⟨stepEvents, s₃⟩, hrun, h⟩ := bind_eq_ok h
    obtain ⟨⟨reaped', s₄⟩, hagain, h⟩ := bind_eq_ok h
    obtain ⟨rfl, rfl⟩ := Prod.mk.inj (Except.ok.inj h)
    exact .ran hreap hselect (by simpa [List.isEmpty_iff] using hnonempty) hrun hagain

variable (svc config) in
/-- An overlapping tick, with what is known between its parts. -/
structure OverlapTick (s : NativeScheduler ρ σ φ) where
  reaped : List (SchedulerEvent ρ)
  afterCancelled : NativeScheduler ρ σ φ
  afterFinished : NativeScheduler ρ σ φ
  resolveEvents : List (SchedulerEvent ρ)
  resolved : Option (ResolvedStep ρ)
  afterResolve : NativeScheduler ρ σ φ
  selected : List (ExecutionRequest ρ)
  afterSelect : NativeScheduler ρ σ φ
  launchEvents : List (SchedulerEvent ρ)
  immediate : Option (StepResult ρ)
  afterLaunch : NativeScheduler ρ σ φ
  events : List (SchedulerEvent ρ)
  afterEmit : NativeScheduler ρ σ φ
  final : NativeScheduler ρ σ φ
  reapCancelled : reapCancelled svc s.inFlightIds
    { s with schedulerRound := s.schedulerRound + 1 } = .ok (reaped, afterCancelled)
  reapFinished : reapFinished svc s.inFlightIds afterCancelled = .ok afterFinished
  resolve : resolveInFlight svc config afterFinished = .ok (resolveEvents, resolved, afterResolve)
  select : selectWork svc config afterResolve = .ok (selected, afterSelect)
  launch : launch svc selected afterSelect = (launchEvents, immediate, afterLaunch)
  emit : emitResolved svc config resolved selected immediate afterLaunch = .ok (events, afterEmit)
  reapAgain : NativeScheduler.reapFinished svc afterEmit.inFlightIds afterEmit = .ok final

/-- The events of the tick. -/
def OverlapTick.allEvents (t : OverlapTick svc config s) : List (SchedulerEvent ρ) :=
  t.reaped ++ t.resolveEvents ++ t.launchEvents ++ t.events

theorem tickOverlap_eq_ok {events : List (SchedulerEvent ρ)}
    (h : tickOverlap svc config s = .ok (events, s')) :
    ∃ t : OverlapTick svc config s, t.allEvents = events ∧ t.final = s' := by
  rw [tickOverlap] at h
  obtain ⟨⟨reaped, s₁⟩, hreap, h⟩ := bind_eq_ok h
  obtain ⟨s₂, hfinished, h⟩ := bind_eq_ok h
  obtain ⟨⟨resolveEvents, resolved, s₃⟩, hresolve, h⟩ := bind_eq_ok h
  obtain ⟨⟨selected, s₄⟩, hselect, h⟩ := bind_eq_ok h
  dsimp only at h
  generalize hlaunch : NativeScheduler.launch svc selected s₄ = launched at h
  obtain ⟨launchEvents, immediate, s₅⟩ := launched
  obtain ⟨⟨stepEvents, s₆⟩, hemit, h⟩ := bind_eq_ok h
  obtain ⟨s₇, hagain, h⟩ := bind_eq_ok h
  obtain ⟨rfl, rfl⟩ := Prod.mk.inj (Except.ok.inj h)
  exact ⟨⟨reaped, s₁, s₂, resolveEvents, resolved, s₃, selected, s₄, launchEvents, immediate, s₅,
    stepEvents, s₆, s₇, hreap, hfinished, hresolve, hselect, hlaunch, hemit, hagain⟩, rfl, rfl⟩

end MlxRuntime.NativeScheduler
