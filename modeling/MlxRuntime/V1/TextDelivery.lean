import MlxRuntime.Lib.Run
import MlxRuntime.V1.TextScheduler

/-!
# The text scheduler delivers each request once

Whatever a method of the scheduler does to a request is a move of its custody.  So over any run a
request is in one place, or has its one response or error.  What is assumed of the generator is
that `insert` returns fresh uids; any of its other calls, and the tokenizer, may raise.

## Main definitions

* `TextScheduler.custody` — where the requests are.
* `TextGenerator.FreshUids` — what `insert` returns.
* `TextScheduler.Serves` — the invariant.
* `TextScheduler.serves_cancel`, `TextScheduler.serves_tick` — the methods keep it.
* `TextScheduler.step`, `TextScheduler.effect_step` — the operations of a caller.
-/

namespace MlxRuntime

open Method Custody

/-- `insert` returns fresh distinct uids, one for each prompt. -/
structure TextGenerator.FreshUids {γ F κ : Type} (gen : TextGenerator γ F κ)
    (issued : γ → ℕ → Prop) : Prop where
  insert : ∀ inserts g, ∃ uids g', gen.insert inserts g = (.ok uids, g') ∧
    uids.length = inserts.length ∧ uids.Nodup ∧ (∀ uid ∈ uids, ¬ issued g uid) ∧
    (∀ uid ∈ uids, issued g' uid) ∧ ∀ uid, issued g uid → issued g' uid
  nextGenerated : ∀ g uid, issued g uid → issued (gen.nextGenerated g).2 uid
  remove : ∀ removed g uid, issued g uid → issued (gen.remove removed g).2 uid

namespace TextScheduler

variable {ρ F κ γ ω : Type}

/-- The ids of the requests that run. -/
def runningIds (s : TextScheduler ρ F κ γ ω) : List ρ :=
  s.active.values.map fun job => job.request.requestId

/-- Where the requests are, besides those of a batch. -/
def custody (batch : List ρ) (s : TextScheduler ρ F κ γ ω) : Custody ρ where
  queue := s.pending.map fun job => job.request.requestId
  batch := batch
  running := s.runningIds
  log := s.sink.map SinkEvent.note

/-- What holds of the requests that run. -/
structure Sane (issued : γ → ℕ → Prop) (config : V1Config) (s : TextScheduler ρ F κ γ ω) :
    Prop where
  bounded : s.active.keys.length ≤ config.decodeConcurrency
  issued : ∀ uid ∈ s.active.keys, issued s.library uid
  made : s.generator = false → s.active.keys = []

/-- The requests moved from `c` to where they are, and those that run are as they should. -/
def Serves (issued : γ → ℕ → Prop) (config : V1Config) (c : Custody ρ)
    (s : TextScheduler ρ F κ γ ω) : Prop :=
  Moves c (custody [] s) ∧ Sane issued config s

variable {ctx : TextContext ρ F} {gen : TextGenerator γ F κ} {store : PromptCaches ω κ}
  {config : V1Config} {issued : γ → ℕ → Prop} {c : Custody ρ} {s : TextScheduler ρ F κ γ ω}
  {uid : ℕ} {job : ScheduledRequest ρ F κ}

/-! ## What changes nothing -/

/-- The requests are where they were. -/
theorem Serves.of_eq {s' : TextScheduler ρ F κ γ ω} (h : Serves issued config c s)
    (hcustody : custody [] s' = custody [] s) (hkeys : s'.active.keys = s.active.keys)
    (hlibrary : ∀ uid, issued s.library uid → issued s'.library uid)
    (hgenerator : s'.generator = s.generator) : Serves issued config c s' :=
  ⟨hcustody ▸ h.1, hkeys ▸ h.2.bounded, fun uid hmem => hlibrary uid (h.2.issued uid (hkeys ▸ hmem)),
    fun hnone => hkeys ▸ h.2.made (hgenerator ▸ hnone)⟩

/-- A call of the generator that keeps what was issued. -/
theorem serves_generate {α : Type} {f : γ → Except PyError α × γ}
    (hf : ∀ g uid, issued g uid → issued (f g).2 uid) (h : Serves issued config c s) :
    (generate f : Call ρ F κ γ ω α).wp (fun _ => Serves issued config c)
      (fun _ => Serves issued config c) s := by
  have hkept : Serves issued config c { s with library := (f s.library).2 } :=
    h.of_eq rfl rfl (hf s.library) rfl
  rw [generate, wp_call]
  constructor
  · intro a g hg
    rwa [hg] at hkept
  · intro e g hg
    rwa [hg] at hkept

theorem serves_reportActiveBatch (h : Serves issued config c s) :
    (reportActiveBatch gen store : Call ρ F κ γ ω Unit).wp (fun _ => Serves issued config c)
      (fun _ => Serves issued config c) s :=
  h.of_eq rfl rfl (fun _ => id) rfl

/-- A request that runs is written under its id. -/
theorem Serves.putJob {job' : ScheduledRequest ρ F κ} (h : Serves issued config c s)
    (hjob : s.active.get? uid = some job) (hid : job'.request = job.request) :
    Serves issued config c { s with active := s.active.set uid job' } := by
  have hmem : uid ∈ s.active.keys := by
    rw [Dict.mem_keys]
    exact ⟨job, Dict.get?_eq_some.mp hjob⟩
  refine h.of_eq ?_ (Dict.keys_set_of_mem hmem _) (fun _ => id) rfl
  refine Custody.ext rfl rfl ?_ rfl
  exact Dict.map_values_set hjob (by rw [hid])

/-! ## Deltas and responses -/

theorem custody_sink (batch : List ρ) (event : SinkEvent ρ) :
    custody batch { s with sink := s.sink ++ [event] } =
      { custody batch s with log := (custody batch s).log ++ [event.note] } := by
  simp [custody, runningIds]

/-- A request that runs is among those that run. -/
theorem mem_runningIds (hjob : s.active.get? uid = some job) :
    job.request.requestId ∈ s.runningIds :=
  List.mem_map_of_mem (Dict.mem_values.mpr ⟨uid, Dict.get?_eq_some.mp hjob⟩)

theorem Serves.delta {delta : Text} (h : Serves issued config c s)
    (hjob : s.active.get? uid = some job) :
    Serves issued config c
      { s with sink := s.sink ++ [.delta job.request.requestId delta] } := by
  refine ⟨h.1.tail ?_, h.2.bounded, h.2.issued, h.2.made⟩
  rw [custody_sink]
  exact Move.progress (mem_runningIds hjob)

/-- A request that runs ends with an event, and runs no more. -/
theorem Serves.endRunning {event : SinkEvent ρ} (h : Serves issued config c s)
    (hjob : s.active.get? uid = some job) (hevent : event.note = .ended job.request.requestId) :
    Serves issued config c
      { s with sink := s.sink ++ [event], active := s.active.pop uid } := by
  obtain ⟨l, l', hrunning, hpop⟩ :=
    Dict.exists_map_values_of_get? (fun job => job.request.requestId) hjob
  have hafter : custody [] { s with sink := s.sink ++ [event], active := s.active.pop uid } =
      { custody [] s with
        running := l ++ l'
        log := (custody [] s).log ++ [.ended job.request.requestId] } := by
    simp [custody, ← hevent, runningIds, hpop]
  refine ⟨h.1.tail ?_, ?_, ?_, ?_⟩
  · rw [hafter]
    exact Move.endRunning hrunning
  · exact (Dict.length_keys_pop_le uid).trans h.2.bounded
  · exact fun other hother => h.2.issued other (Dict.mem_keys_pop.mp hother).2
  · intro hnone
    have hmem : uid ∈ s.active.keys := Dict.mem_keys.mpr ⟨job, Dict.get?_eq_some.mp hjob⟩
    rw [h.2.made hnone] at hmem
    exact nomatch hmem

/-! ## The methods -/

theorem respond_run (job : ScheduledRequest ρ F κ) (finishReason : String) :
    (respond ctx store config job finishReason : Call ρ F κ γ ω Unit).run s =
      (.ok (), { s with sink := s.sink ++ [.response (responseOf ctx store config s job
        finishReason)] }) := rfl

theorem emitCancelled_run (job : ScheduledRequest ρ F κ) :
    ∃ (n : ℕ) (r : V1Response ρ), r.requestId = job.request.requestId ∧
      (emitCancelled ctx store config job : Call ρ F κ γ ω Unit).run s =
        (.ok (), { s with workerCancellationCount := n, sink := s.sink ++ [.response r] }) :=
  ⟨_, _, rfl, rfl⟩

/-- The end of a request that runs, when it is told before it is taken out. -/
theorem serves_rememberPrompt (promptCache : Option κ) (allTokens : Option (List Token))
    (h : Serves issued config c s) :
    (rememberPrompt store job promptCache allTokens : Call ρ F κ γ ω Unit).wp
      (fun _ s' => Serves issued config c s' ∧ s'.active = s.active)
      (fun _ => Serves issued config c) s := by
  unfold rememberPrompt
  split
  · exact ⟨h, rfl⟩
  · simp only []
    split
    · exact ⟨h, rfl⟩
    · exact ⟨h.of_eq rfl rfl (fun _ => id) rfl, rfl⟩

theorem serves_finishActive (response : GenerationResponse κ) (finishReason : String)
    (h : Serves issued config c s) :
    (finishActive ctx store config response finishReason : Call ρ F κ γ ω Unit).wp
      (fun _ => Serves issued config c) (fun _ => Serves issued config c) s := by
  rw [finishActive, wp_bind, wp_get]
  cases hjob : s.active.get? response.uid with
  | none => exact h
  | some job =>
      simp only [finish, wp_bind]
      rw [wp_ofExcept]
      refine ⟨fun rendered _ => ?_, fun e _ => h⟩
      refine (serves_rememberPrompt response.promptCache response.allTokens h).mono ?_ fun _ _ => id
      rintro _ s' ⟨hs', hactive⟩
      rw [← hactive] at hjob
      exact hs'.endRunning hjob rfl

theorem serves_emitDelta (h : Serves issued config c s) (hjob : s.active.get? uid = some job) :
    (emitDelta ctx uid job : Call ρ F κ γ ω Unit).wp (fun _ => Serves issued config c)
      (fun _ => Serves issued config c) s := by
  rw [emitDelta, wp_bind, wp_ofExcept]
  refine ⟨fun decoded _ => ?_, fun e _ => h⟩
  rw [wp_bind, wp_when]
  constructor
  · intro _
    exact (h.delta hjob).putJob hjob rfl
  · intro _
    exact h.putJob hjob rfl

theorem serves_acceptResponse (response : GenerationResponse κ) (h : Serves issued config c s) :
    (acceptResponse ctx store config response : Call ρ F κ γ ω Unit).wp
      (fun _ => Serves issued config c) (fun _ => Serves issued config c) s := by
  rw [acceptResponse, wp_bind, wp_get]
  cases hjob : s.active.get? response.uid with
  | none => exact h
  | some job =>
      simp only [wp_bind]
      let started := ScheduledRequest.decoding job s.active.keys.length
      have hstarted : Serves issued config c
          { s with active := s.active.set response.uid started } := h.putJob hjob rfl
      change (when _ _).wp _ _ { s with active := s.active.set response.uid started }
      refine wp_when.mpr ⟨fun _ => ?_, fun _ => ?_⟩
      · rw [appendToken, wp_bind]
        refine (serves_emitDelta ?_ ?_).mono (fun _ s' hs' => ?_) fun _ _ => id
        · exact hstarted.putJob (Dict.get?_set_self _ _) rfl
        · exact Dict.get?_set_self _ _
        -- the end of the request, if the response is its last
        split
        · exact hs'
        · exact serves_finishActive response _ hs'
      · split
        · exact hstarted
        · exact serves_finishActive response _ hstarted

theorem serves_stepGenerator (hfresh : gen.FreshUids issued) (h : Serves issued config c s) :
    (stepGenerator ctx gen store config : Call ρ F κ γ ω Unit).wp
      (fun _ => Serves issued config c) (fun _ => Serves issued config c) s := by
  rw [stepGenerator, wp_bind]
  refine (serves_generate hfresh.nextGenerated h).mono ?_ fun _ _ => id
  intro responses s' hs'
  exact wp_forM (fun response _ _ => serves_acceptResponse response) hs'

/-- A request that waits ends with an event, and waits no more. -/
theorem Serves.endPending {event : SinkEvent ρ} {l l' : List (ScheduledRequest ρ F κ)}
    (h : Serves issued config c s) (hpending : s.pending = l ++ job :: l')
    (hevent : event.note = .ended job.request.requestId) :
    Serves issued config c { s with pending := l ++ l', sink := s.sink ++ [event] } := by
  have hqueue : (custody [] s).queue = l.map (fun job => job.request.requestId) ++
      job.request.requestId :: l'.map fun job => job.request.requestId := by
    simp [custody, hpending]
  have hafter : custody [] { s with pending := l ++ l', sink := s.sink ++ [event] } =
      { custody [] s with
        queue := l.map (fun job => job.request.requestId) ++
          l'.map fun job => job.request.requestId
        log := (custody [] s).log ++ [.ended job.request.requestId] } := by
    simp [custody, ← hevent, runningIds]
  refine ⟨h.1.tail ?_, h.2.bounded, h.2.issued, h.2.made⟩
  rw [hafter]
  exact Move.endQueued hqueue

/-- `cancel`. -/
theorem serves_cancel [DecidableEq ρ] (hfresh : gen.FreshUids issued) (requestId : ρ)
    (h : Serves issued config c s) :
    (cancel ctx gen store config requestId : Call ρ F κ γ ω Bool).wp
      (fun _ => Serves issued config c) (fun _ => Serves issued config c) s := by
  rw [cancel, wp_bind, wp_get]
  cases hpending : s.pending.find? fun job => job.request.requestId = requestId with
  | some job =>
      obtain ⟨hid, l, l', hl, hnot⟩ := List.find?_eq_some_iff_append.mp hpending
      have herase : s.pending.eraseP (fun job => job.request.requestId = requestId) = l ++ l' := by
        rw [hl, List.eraseP_append_right _ (by simpa using hnot)]
        simp [of_decide_eq_true hid]
      obtain ⟨n, r, hr, hrun⟩ := emitCancelled_run
        (s := { s with pending := l ++ l' }) job
      simp only [wp_bind, wp_modify, herase]
      refine wp_of_run hrun ?_
      have hend := h.endPending hl (show (SinkEvent.response r).note = _ by rw [SinkEvent.note, hr])
      exact hend.of_eq rfl rfl (fun _ => id) rfl
  | none =>
      cases hactive : s.active.entries.find? fun e => e.2.request.requestId = requestId with
      | none => exact h
      | some entry =>
          obtain ⟨uid, job⟩ := entry
          have hjob : s.active.get? uid = some job :=
            Dict.get?_eq_some.mpr (List.mem_of_find?_eq_some hactive)
          obtain ⟨n, r, hr, hrun⟩ := emitCancelled_run (s := { s with active := s.active.pop uid }) job
          have hend : Serves issued config c { s with
              active := s.active.pop uid
              workerCancellationCount := n
              sink := s.sink ++ [.response r] } :=
            (h.endRunning hjob (by rw [SinkEvent.note, hr])).of_eq rfl rfl
              (fun _ => id) rfl
          simp only [wp_bind, wp_modify]
          refine wp_of_run hrun (wp_when.mpr ⟨fun _ => ?_, fun _ => hend⟩)
          exact serves_generate (hfresh.remove uid) hend

/-! ## Admission -/

/-- The batch is what the loop of `_admit_pending` takes, and it leaves room. -/
theorem room_le (active taken : ℕ) (pending : List (ScheduledRequest ρ F κ))
    (h : active + taken ≤ config.decodeConcurrency) :
    active + taken + room config active taken pending ≤ config.decodeConcurrency := by
  induction pending generalizing taken with
  | nil => exact h
  | cons job rest ih =>
      rw [room]
      split
      case isTrue hroom =>
        have := ih (taken + 1) (by omega)
        omega
      case isFalse => exact h

/-- What is taken from the head of the queue is in the batch. -/
theorem moves_take (n : ℕ) :
    Moves (custody [] s) (custody ((s.pending.take n).map fun job => job.request.requestId)
      { s with pending := s.pending.drop n }) := by
  induction n with
  | zero => exact .refl
  | succ n ih =>
      refine ih.trans ?_
      cases hdrop : s.pending.drop n with
      | nil =>
          have hlength : s.pending.length ≤ n := List.drop_eq_nil_iff.mp hdrop
          rw [List.drop_eq_nil_of_le (by omega : s.pending.length ≤ n + 1),
            List.take_of_length_le hlength, List.take_of_length_le (by omega)]
      | cons job rest =>
          have htail : s.pending.drop (n + 1) = rest := by
            rw [← List.tail_drop, hdrop, List.tail_cons]
          have htake : s.pending.take (n + 1) = s.pending.take n ++ [job] := by
            rw [List.take_add_one, ← List.head?_drop, hdrop]
            rfl
          rw [htail, htake, List.map_append]
          exact .single (Move.take (l := []) rfl)

theorem request_insertOf (job : ScheduledRequest ρ F κ) :
    (insertOf job).2.request = job.request := by
  unfold insertOf
  dsimp only
  split
  · rfl
  · split <;> rfl

/-- The requests of a batch run after those that ran. -/
theorem run_activate (batch : List (ScheduledRequest ρ F κ)) (uids : List ℕ)
    (hlength : uids.length = batch.length) (hnodup : uids.Nodup)
    (hfresh : ∀ uid ∈ uids, uid ∉ s.active.keys) :
    ∃ active : Dict ℕ (ScheduledRequest ρ F κ),
      (activate batch uids : Call ρ F κ γ ω Unit).run s = (.ok (), { s with active := active }) ∧
      active.keys = s.active.keys ++ uids ∧
      active.values.map (fun job => job.request.requestId) =
        s.runningIds ++ batch.map fun job => job.request.requestId := by
  have hsnd : (batch.zip uids).map Prod.snd = uids := List.map_snd_zip hlength.le
  have hfst : (batch.zip uids).map Prod.fst = batch := List.map_fst_zip hlength.ge
  refine ⟨_, rfl, ?_, ?_⟩
  · rw [Dict.keys_setAll (by rwa [hsnd]) (by rwa [hsnd]), hsnd]
  · refine (Dict.map_values_setAll _ (fun job => job.request.requestId) ?_ (by rwa [hsnd])
      (by rwa [hsnd])).trans (by rw [hfst, runningIds])
    exact fun _ _ _ => rfl

theorem serves_insertBatch (hfresh : gen.FreshUids issued)
    (batch : List (ScheduledRequest ρ F κ)) (hmade : s.generator = true)
    (hmoves : Moves c (custody (batch.map fun job => job.request.requestId) s))
    (hsane : Sane issued config s)
    (hroom : s.active.keys.length + batch.length ≤ config.decodeConcurrency) :
    (insertBatch gen store batch : Call ρ F κ γ ω Unit).wp (fun _ => Serves issued config c)
      (fun _ => Serves issued config c) s := by
  obtain ⟨uids, g, hinsert, hlength, hnodup, hnew, hissued, hkept⟩ :=
    hfresh.insert ((batch.map insertOf).map Prod.fst) s.library
  simp only [List.length_map] at hlength
  have huids : uidsError uids batch.length = none := by
    rw [uidsError]
    simp [hlength, hnodup]
  obtain ⟨active, hrun, hkeys, hrunning⟩ := run_activate (s := { s with library := g })
    ((batch.map insertOf).map Prod.snd) uids (by simpa using hlength) hnodup
    fun uid huid hmem => hnew uid huid (hsane.issued uid hmem)
  rw [insertBatch]
  simp only [wp_bind]
  have hcall : (generate (gen.insert ((batch.map insertOf).map Prod.fst)) :
      Call ρ F κ γ ω (List ℕ)).run s = (.ok uids, { s with library := g }) := by
    rw [generate, run_call, hinsert]
  refine wp_of_run hcall ?_
  simp only [huids, wp_bind]
  refine wp_of_run hrun (serves_reportActiveBatch ⟨hmoves.tail ?_, ?_, ?_, ?_⟩)
  · have hids : ((batch.map insertOf).map Prod.snd).map (fun job => job.request.requestId) =
        batch.map fun job => job.request.requestId := by
      simp [request_insertOf]
    rw [hids] at hrunning
    have hafter : custody [] { s with library := g, active := active } =
        { custody (batch.map fun job => job.request.requestId) s with
          batch := []
          running := s.runningIds ++ batch.map fun job => job.request.requestId } :=
      Custody.ext rfl rfl hrunning rfl
    rw [hafter]
    exact Move.start (.refl _)
  · rw [hkeys, List.length_append, hlength]
    exact hroom
  · intro uid huid
    rw [hkeys, List.mem_append] at huid
    exact huid.elim (fun hold => hkept uid (hsane.issued uid hold)) (hissued uid)
  · exact fun hnone => absurd (hmade.symm.trans hnone) Bool.false_ne_true.symm

/-- `_admit_pending`. -/
theorem serves_admitPending (hfresh : gen.FreshUids issued) (h : Serves issued config c s) :
    (admitPending gen store config : Call ρ F κ γ ω Unit).wp (fun _ => Serves issued config c)
      (fun _ => Serves issued config c) s := by
  rw [admitPending, wp_bind, wp_get]
  split
  · exact h
  rw [wp_bind]
  -- from here on there is a generator, and the requests are where they were
  have hadmit : ∀ s', Serves issued config c s' → s'.generator = true →
      s'.pending = s.pending → s'.active = s.active →
      (if config.decodeConcurrency ≤ s.active.keys.length then pure ()
        else do
          let n := room config s.active.keys.length 0 s.pending
          .modify fun s => { s with pending := s.pending.drop n }
          .when (s.pending.take n ≠ []) (insertBatch gen store (s.pending.take n)) :
        Call ρ F κ γ ω Unit).wp (fun _ => Serves issued config c)
        (fun _ => Serves issued config c) s' := by
    intro s' hs' hmade hpending hactive
    split
    case isTrue => exact hs'
    case isFalse hfull =>
      have hroom : s.active.keys.length + 0 + room config s.active.keys.length 0 s.pending ≤
          config.decodeConcurrency := room_le _ _ _ (by omega)
      generalize room config s.active.keys.length 0 s.pending = n at hroom ⊢
      rw [← hpending, ← hactive] at *
      have hmoves := hs'.1.trans (moves_take (s := s') n)
      have hsane : Sane issued config { s' with pending := s'.pending.drop n } :=
        ⟨hs'.2.bounded, hs'.2.issued, hs'.2.made⟩
      rw [wp_bind, wp_modify, wp_when]
      constructor
      · intro _
        refine serves_insertBatch hfresh _ hmade hmoves hsane ?_
        have := List.length_take_le n s'.pending
        change s'.active.keys.length + _ ≤ _
        omega
      · intro hnone
        rw [not_not] at hnone
        rw [hnone] at hmoves
        exact ⟨hmoves, hsane⟩
  refine wp_when.mpr ⟨fun hnone => ?_, fun hmade => hadmit s h (by simpa using hmade) rfl rfl⟩
  have hempty : s.active.keys = [] := h.2.made (by simpa using hnone)
  have hkept : ∀ g made, Serves issued config c { s with library := g, generator := made } :=
    fun g made => ⟨h.1, h.2.bounded, fun uid huid => by simp [hempty] at huid, fun _ => hempty⟩
  rw [wp_bind, generate, wp_call]
  exact ⟨fun _ g _ => hadmit _ (hkept g true) rfl rfl rfl, fun _ g _ => hkept g s.generator⟩

/-- `tick`. -/
theorem serves_tick (hfresh : gen.FreshUids issued) (h : Serves issued config c s) :
    (tick ctx gen store config : Call ρ F κ γ ω Unit).wp (fun _ => Serves issued config c)
      (fun _ => Serves issued config c) s := by
  rw [tick, wp_bind, wp_get]
  split
  · exact h
  rw [wp_bind, wp_when]
  refine ⟨fun _ => ?_, fun _ => serves_admitPending hfresh h⟩
  rw [wp_bind]
  refine (serves_stepGenerator hfresh h).mono (fun _ s' hs' => ?_) fun _ _ => id
  exact (serves_reportActiveBatch hs').mono (fun _ _ => serves_admitPending hfresh) fun _ _ => id

/-! ## Operations -/

/-- What the caller of the scheduler does. -/
inductive Op (ρ F : Type)
  | submit (request : ChatRequest ρ F) (stream : Bool)
  | cancel (requestId : ρ)
  | tick

/-- The request that an operation is to submit. -/
def Op.named : Op ρ F → Option ρ
  | .submit request _ => some request.requestId
  | .cancel _ | .tick => none

section Operations

variable [DecidableEq ρ]

/-- An operation; the answer is what it returned or raised. -/
def step (ctx : TextContext ρ F) (gen : TextGenerator γ F κ) (store : PromptCaches ω κ)
    (config : V1Config) (s : TextScheduler ρ F κ γ ω) :
    Op ρ F → Except PyError Unit × TextScheduler ρ F κ γ ω
  | .submit request stream => (submit ctx store request stream).run s
  | .cancel requestId => (do let _ ← cancel ctx gen store config requestId).run s
  | .tick => (tick ctx gen store config).run s

/-- The request that an operation submits: `submit` returns. -/
def submitted (ctx : TextContext ρ F) (gen : TextGenerator γ F κ) (store : PromptCaches ω κ)
    (config : V1Config) (s : TextScheduler ρ F κ γ ω) (op : Op ρ F) : Option ρ :=
  match (step ctx gen store config s op).1 with
  | .ok _ => op.named
  | .error _ => none

variable (ctx store) in
omit [DecidableEq ρ] in
/-- What `submit` does: it refuses, it puts the request into the queue, or it raises. -/
theorem run_submit (request : ChatRequest ρ F) (stream : Bool) (s : TextScheduler ρ F κ γ ω) :
    (∃ message, (submit ctx store request stream).run s =
      (refuse request.requestId message).run s) ∨
    (∃ tokens, (submit ctx store request stream).run s =
      (enqueue store request stream tokens).run s) ∨
    ∃ e, (submit ctx store request stream).run s = (.error e, s) := by
  unfold submit
  split
  · exact .inl ⟨_, rfl⟩
  split
  · exact .inl ⟨_, rfl⟩
  · exact .inr (.inr ⟨_, rfl⟩)
  · exact .inr (.inl ⟨_, rfl⟩)

/-- `submit`. -/
theorem effect_submit (request : ChatRequest ρ F) (stream : Bool) (h : Sane issued config s) :
    Effect (custody [] s) (submitted ctx gen store config s (.submit request stream))
      (custody [] (step ctx gen store config s (.submit request stream)).2) ∧
      Sane issued config (step ctx gen store config s (.submit request stream)).2 := by
  rcases run_submit ctx store request stream s with
    ⟨message, hrun⟩ | ⟨tokens, hrun⟩ | ⟨e, hrun⟩
  · simp only [submitted, step, hrun]
    refine ⟨?_, h.bounded, h.issued, h.made⟩
    have hafter : custody [] ((refuse request.requestId message).run s).2 =
        { custody [] s with log := (custody [] s).log ++ [.ended request.requestId] } :=
      custody_sink (s := { s with workerErrorCount := s.workerErrorCount + 1 }) []
        (.error request.requestId "INVALID_REQUEST" message)
    rw [hafter]
    exact Effect.refused request.requestId
  · simp only [submitted, step, hrun]
    refine ⟨?_, h.bounded, h.issued, h.made⟩
    have hafter : custody [] ((enqueue store request stream tokens).run s).2 =
        { custody [] s with queue := (custody [] s).queue ++ [request.requestId] } := by
      simp [enqueue, custody, runningIds]
    rw [hafter]
    exact Effect.queued request.requestId
  · simp only [submitted, step, hrun]
    exact ⟨.moved .refl, h⟩

/-- Every operation. -/
theorem effect_step (hfresh : gen.FreshUids issued) (op : Op ρ F) (h : Sane issued config s) :
    Effect (custody [] s) (submitted ctx gen store config s op)
      (custody [] (step ctx gen store config s op).2) ∧
      Sane issued config (step ctx gen store config s op).2 := by
  have hmoved : ∀ {s' : TextScheduler ρ F κ γ ω}, Serves issued config (custody [] s) s' →
      Effect (custody [] s) none (custody [] s') ∧ Sane issued config s' :=
    fun hserves => ⟨.moved hserves.1, hserves.2⟩
  have hnone : ∀ {op : Op ρ F}, op.named = none → submitted ctx gen store config s op = none := by
    intro op hnamed
    rw [submitted, hnamed]
    split <;> rfl
  cases op with
  | submit request stream => exact effect_submit request stream h
  | cancel requestId =>
      rw [hnone rfl]
      refine hmoved (wp.after (m := do let _ ← cancel ctx gen store config requestId) ?_)
      rw [wp_bind]
      exact (serves_cancel hfresh requestId ⟨.refl, h⟩).mono (fun _ _ => id) fun _ _ => id
  | tick =>
      rw [hnone rfl]
      exact hmoved (serves_tick hfresh ⟨.refl, h⟩).after

end Operations

end TextScheduler
end MlxRuntime
