import MlxRuntime.Runtime.Hearing
import MlxRuntime.Runtime.Submission
import MlxRuntime.Scheduler.Outcomes

/-!
# The life of a request in the native runtime

The table of the runtime has a request as long as the scheduler has it and does not wait for its
end.  A client sees deltas and then one answer; it has the answer when the scheduler does not have
the request any more, and soon after it has cancelled.

## Main definitions

* `NativeRuntime.Serving` — the table and the scheduler agree.
* `NativeRuntime.Step` — a tick of the scheduler, heard by every request.
* `ClientView`, `ClientView.observe` — what a client sees of its last request.
* `NativeRuntime.Told` — the views and the table agree.
-/

namespace MlxRuntime

namespace NativeRuntimeState

variable {ρ δ : Type} [DecidableEq ρ] {svc : TextServices δ} {st : NativeRuntimeState ρ δ}

omit [DecidableEq ρ] in
/-- A request does not outlive its end. -/
theorem remains_of_hasEnd {inputs : List (RequestInput ρ)} {events : List (SchedulerEvent ρ)}
    (h : inputs.map RequestInput.event? = events.map some) (hend : HasEnd events) :
    remains svc inputs st = none := by
  induction inputs generalizing st events with
  | nil =>
      cases events with
      | nil =>
        obtain ⟨e, he, -⟩ := hend
        cases he
      | cons e events => cases h
  | cons input inputs ih =>
      cases events with
      | nil => cases h
      | cons e events =>
        obtain ⟨hinput, hinputs⟩ := List.cons.inj h
        rw [remains]
        by_cases hterminal : e.isTerminal = true
        · have hnone : (st.receive svc input).2 = none := by
            cases input with
            | cancel => cases hinput
            | event counters event =>
              obtain rfl := Option.some.inj hinput
              cases event with
              | cancelled => rfl
              | executionError => rfl
              | prefillProgress | token | metrics => cases hterminal
          rcases hreceive : st.receive svc input with ⟨said, _ | st₁⟩
          · rfl
          · rw [hreceive] at hnone
            cases hnone
        · have hrest : HasEnd events := by
            obtain ⟨x, hx, hxt⟩ := hend
            rcases List.mem_cons.mp hx with rfl | hx
            · exact absurd hxt hterminal
            · exact ⟨x, hx, hxt⟩
          rcases st.receive svc input with ⟨said, _ | st₁⟩
          · rfl
          · exact ih hinputs hrest

end NativeRuntimeState

namespace NativeRuntime

open NativeRuntimeState (remains receiveAll)
open NativeScheduler (finishAll)
open RuntimeEvent (about)

variable {ρ σ π φ δ F : Type} [DecidableEq ρ] {svc : SchedulerServices ρ σ π φ}
  {text : TextServices δ} {config : SchedulerConfig} {model : ModelServices F}
  {r r' : NativeRuntime ρ σ φ δ} {id : ρ}

/-! ## The table and the scheduler -/

/-- The table has the requests that the scheduler has and that do not wait for their end. -/
structure Serving (config : SchedulerConfig) (r : NativeRuntime ρ σ φ δ) : Prop where
  wf : r.scheduler.Wf
  serial : config.overlap = false → r.scheduler.inFlight = none
  keyed : r.Keyed
  live : ∀ id, r.requests.get? id ≠ none ↔
    r.scheduler.Present id ∧ (r.scheduler.states id).finishRequested = false
  closing : ∀ id, r.scheduler.Present id → (r.scheduler.states id).finishRequested = true →
    id ∈ r.scheduler.inFlightIds

theorem serving_new (config : SchedulerConfig) (world : σ) :
    Serving config ({ scheduler := .new world } : NativeRuntime ρ σ φ δ) where
  wf := NativeScheduler.wf_new world
  serial _ := rfl
  keyed _ _ hsome := nomatch hsome
  live _ := iff_of_false (fun hne => hne rfl) fun hid =>
    hid.1.elim List.not_mem_nil List.not_mem_nil
  closing _ hid _ := (hid.elim List.not_mem_nil List.not_mem_nil).elim

/-- A tick of the runtime: a tick of the scheduler, heard by every request. -/
structure Step (svc : SchedulerServices ρ σ π φ) (text : TextServices δ)
    (config : SchedulerConfig) (r : NativeRuntime ρ σ φ δ) (events : List (SchedulerEvent ρ))
    (s : NativeScheduler ρ σ φ) (ended : List ρ) (output : List (RuntimeEvent ρ))
    (r' : NativeRuntime ρ σ φ δ) : Prop where
  tick : r.scheduler.tick svc config = .ok (events, s)
  ticked : NativeScheduler.Ticked config r.scheduler events s
  heard : Heard svc text events { r with scheduler := s } ended output r'
  finished : NativeScheduler.FinishedAll ended s r'.scheduler

theorem Serving.step_of_tick (h : Serving config r) {output : List (RuntimeEvent ρ)}
    (heq : r.tick svc text config = .ok (output, r')) :
    ∃ events s ended, Step svc text config r events s ended output r' := by
  obtain ⟨⟨events, s⟩, htick, heard⟩ := bind_eq_ok heq
  have hticked := h.wf.tick_outcome h.serial htick
  have hkeyed : Keyed { r with scheduler := s } := h.keyed
  obtain ⟨ended, hheard⟩ := heard_applySchedulerEvents hkeyed heard
  exact ⟨events, s, ended, htick, hticked, hheard, hticked.wf.finishAll hheard.finished⟩

/-- A request that goes on in the table goes on in the scheduler. -/
theorem Step.goesOn {events : List (SchedulerEvent ρ)} {s : NativeScheduler ρ σ φ}
    {ended : List ρ} {output : List (RuntimeEvent ρ)}
    (hstep : Step svc text config r events s ended output r') (h : Serving config r)
    (hsome : r.requests.get? id ≠ none) (hsome' : r'.requests.get? id ≠ none) :
    r'.scheduler.Present id ∧ r'.scheduler.states id = s.states id ∧
      GoesOn config (r.scheduler.states id) (s.states id) (tokensOf (eventsOf id events)) ∧
      (id ∈ r.scheduler.inFlightIds → (∀ step, r.scheduler.inFlight = some step →
          NativeScheduler.Planned config r.scheduler.states step.selected) →
        MovesOn (r.scheduler.states id) (s.states id) (tokensOf (eventsOf id events))) := by
  obtain ⟨hpresent, hfinish⟩ := (h.live id).mp hsome
  obtain ⟨st, hst⟩ := Option.ne_none_iff_exists'.mp hsome
  obtain ⟨inputs, hinputs, -, hremains, hended⟩ := hstep.heard.present id st hst
  have hnot : id ∉ ended := fun hmem => hsome' (hended.mp hmem)
  rcases hstep.ticked.outcome id hpresent hfinish with hend | ⟨hthere, hgoes, hmoves⟩
  · exact absurd (hremains.trans (NativeRuntimeState.remains_of_hasEnd hinputs hend)) hsome'
  · refine ⟨(hstep.finished.present id).mpr ⟨hthere, fun hmem => absurd hmem hnot⟩, ?_, hgoes,
      fun hflight hplanned => hmoves ⟨hflight, hplanned⟩⟩
    rw [hstep.finished.states, if_neg fun hmem => hnot hmem.1]

/-- A request that is in the scheduler after a tick did not wait for its end before it. -/
theorem Step.unfinished {events : List (SchedulerEvent ρ)} {s : NativeScheduler ρ σ φ}
    {ended : List ρ} {output : List (RuntimeEvent ρ)}
    (hstep : Step svc text config r events s ended output r') (h : Serving config r)
    (hid : s.Present id) : r.requests.get? id ≠ none := by
  have hpresent := hstep.ticked.present id hid
  refine (h.live id).mpr ⟨hpresent, ?_⟩
  by_cases hoverlap : config.overlap = true
  · exact (hstep.ticked.closed hoverlap id hid).1
  · have hserial := h.serial (Bool.eq_false_iff.mpr hoverlap)
    refine Bool.eq_false_iff.mpr fun htrue => ?_
    have hflight := h.closing id hpresent htrue
    simp [NativeScheduler.inFlightIds, hserial] at hflight

/-- A tick keeps the table and the scheduler together. -/
theorem Step.serving {events : List (SchedulerEvent ρ)} {s : NativeScheduler ρ σ φ}
    {ended : List ρ} {output : List (RuntimeEvent ρ)}
    (hstep : Step svc text config r events s ended output r') (h : Serving config r) :
    Serving config r' := by
  have hids : r'.scheduler.inFlightIds = s.inFlightIds := by
    simp only [NativeScheduler.inFlightIds, hstep.finished.inFlight]
  have hkeyed : Keyed { r with scheduler := s } := h.keyed
  have hbefore : ∀ id, r'.requests.get? id ≠ none → r.requests.get? id ≠ none :=
    fun id hne hnone => hne (hstep.heard.absent id hnone).1
  -- who is not in the table any more was finished
  have hended : ∀ id, s.Present id → r'.requests.get? id = none → id ∈ ended := by
    intro id hid hnone
    obtain ⟨st, hst⟩ := Option.ne_none_iff_exists'.mp (hstep.unfinished h hid)
    obtain ⟨-, -, -, -, hended⟩ := hstep.heard.present id st hst
    exact hended.mpr hnone
  refine ⟨hstep.finished.wf, fun hserial => ?_, hstep.heard.keyed hkeyed, fun id => ⟨fun hne => ?_,
    fun hid => ?_⟩, fun id hid hfinish => ?_⟩
  · exact hstep.finished.inFlight.trans (hstep.ticked.serial hserial)
  · obtain ⟨hpresent, hstates, hgoes, -⟩ := hstep.goesOn h (hbefore id hne) hne
    refine ⟨hpresent, ?_⟩
    rw [hstates, hgoes.finishRequested]
    exact ((h.live id).mp (hbefore id hne)).2
  · obtain ⟨hpresent, hfinish⟩ := hid
    obtain ⟨hpresent, hflight⟩ := (hstep.finished.present id).mp hpresent
    intro hnone
    have hmem := hended id hpresent hnone
    rw [hstep.finished.states, if_pos ⟨hmem, hflight hmem⟩] at hfinish
    cases hfinish
  · obtain ⟨hpresent, hflight⟩ := (hstep.finished.present id).mp hid
    rw [hids]
    refine hflight (by_contra fun hnot => ?_)
    have hsome := hstep.unfinished h hpresent
    have hsome' : r'.requests.get? id ≠ none := fun hnone => hnot (hended id hpresent hnone)
    obtain ⟨-, hstates, hgoes, -⟩ := hstep.goesOn h hsome hsome'
    rw [hstates, hgoes.finishRequested, ((h.live id).mp hsome).2] at hfinish
    cases hfinish

/-! ## Submissions and cancellations -/

/-- A submission of a request that enters: it raises and changes nothing, or the request is new
in the table and in the scheduler. -/
theorem submitRequest_of_enters (h : Serving config r) {request : ChatRequest ρ F}
    {profiled : Except PyError Unit}
    (henters : Enters model text (some r) (.submit request profiled)) :
    (∃ e, r.submitRequest model text request profiled = (.error e, r)) ∨
      ∃ prompt s, checked model request = .ok prompt ∧
        ¬ r.scheduler.Present request.requestId ∧
        r.scheduler.submit (schedulable request.textRequest prompt) = .ok s ∧
        r.submitRequest model text request profiled =
          (.ok (), { r.entered text request prompt with scheduler := s }) := by
  cases hchecked : checked model request with
  | error e => exact .inl ⟨e, submitRequest_of_error hchecked⟩
  | ok prompt =>
    rcases henters r prompt rfl hchecked with ⟨rfl, habsent⟩ | hsame
    · refine .inr ⟨prompt, _, rfl, habsent, if_neg habsent, ?_⟩
      have hsubmit : r.scheduler.submit (schedulable request.textRequest prompt) = .ok _ :=
        if_neg habsent
      rw [submitRequest, hchecked]
      simp only [submit, hsubmit]
      rfl
    · -- the table has the request already, and so has the scheduler
      have hpresent := ((h.live request.requestId).mp (hsame ▸ Option.some_ne_none _)).1
      obtain ⟨e, hrefused⟩ : ∃ e, r.submitRequest model text request profiled = _ :=
        submitRequest_of_refused text hchecked fun haccepted => haccepted.2 hpresent
      refine .inl ⟨e, ?_⟩
      rw [hrefused, entered, Dict.set_eq_self_iff.mpr hsame]

/-- A new request. -/
theorem Serving.submit (h : Serving config r) {request : ChatRequest ρ F} {prompt : List Token}
    {s : NativeScheduler ρ σ φ}
    (hsubmit : r.scheduler.submit (schedulable request.textRequest prompt) = .ok s) :
    Serving config { r.entered text request prompt with scheduler := s } := by
  obtain ⟨-, hflight, -, hpresent, hstates⟩ := NativeScheduler.submit_eq_ok hsubmit
  have htable : ∀ id, (r.entered text request prompt).requests.get? id =
      if id = request.requestId then some (.ofRequest text request.textRequest prompt)
      else r.requests.get? id := fun id => Dict.get?_set _ _ id
  refine ⟨h.wf.submit hsubmit, fun hserial => hflight.trans (h.serial hserial),
    fun id st hsome => ?_, fun id => ?_, fun id hid hfinish => ?_⟩
  · rw [htable] at hsome
    split at hsome
    · rename_i heq
      obtain rfl := Option.some.inj hsome
      exact heq.symm
    · exact h.keyed id st hsome
  · dsimp only
    rw [htable, hpresent, hstates]
    have hid : (schedulable request.textRequest prompt).requestId = request.requestId := rfl
    rw [hid]
    by_cases heq : id = request.requestId
    · rw [if_pos heq, if_pos heq]
      exact iff_of_true (Option.some_ne_none _) ⟨.inl heq, rfl⟩
    · rw [if_neg heq, if_neg heq, h.live, or_iff_right heq]
  · dsimp only at hid hfinish ⊢
    rw [hstates] at hfinish
    split at hfinish
    · cases hfinish
    · rename_i hne
      rw [NativeScheduler.inFlightIds, hflight]
      exact h.closing id (((hpresent id).mp hid).resolve_left hne) hfinish

/-- What `cancel` does to the table. -/
theorem get?_cancel (id : ρ) (prefillTimeMs : ℕ) (r : NativeRuntime ρ σ φ δ) (id' : ρ) :
    (r.cancel id prefillTimeMs).2.requests.get? id' =
      if id' = id then (r.requests.get? id).map (·.markCancelled prefillTimeMs)
      else r.requests.get? id' := by
  simp only [cancel]
  cases hsome : r.requests.get? id with
  | none =>
    by_cases heq : id' = id
    · simp only [heq, if_true, hsome, Option.map_none]
    · simp only [if_neg heq]
  | some st =>
    dsimp only
    rw [Dict.get?_set, Option.map_some]

theorem cancel_scheduler (id : ρ) (prefillTimeMs : ℕ) (r : NativeRuntime ρ σ φ δ) :
    (r.cancel id prefillTimeMs).2.scheduler = (r.scheduler.cancel id).2 := rfl

theorem Serving.cancel (h : Serving config r) (id : ρ) (prefillTimeMs : ℕ) :
    Serving config (r.cancel id prefillTimeMs).2 := by
  obtain ⟨hflight, -, hpresent, hstates⟩ := NativeScheduler.cancel_eq id r.scheduler
  have hfinish : ∀ id', ((r.scheduler.cancel id).2.states id').finishRequested =
      (r.scheduler.states id').finishRequested := by
    intro id'
    rw [hstates]
    split <;> rfl
  refine ⟨h.wf.cancel id, fun hserial => hflight.trans (h.serial hserial), fun id' st hsome => ?_,
    fun id' => ?_, fun id' hid' hfinish' => ?_⟩
  · rw [get?_cancel] at hsome
    split at hsome
    · rename_i heq
      obtain ⟨st₀, hst₀, rfl⟩ := Option.map_eq_some_iff.mp hsome
      exact (h.keyed id st₀ hst₀).trans heq.symm
    · exact h.keyed id' st hsome
  · rw [cancel_scheduler, hpresent, hfinish, ← h.live, get?_cancel]
    split
    · rename_i heq
      subst heq
      exact not_congr Option.map_eq_none_iff
    · exact Iff.rfl
  · rw [cancel_scheduler, hpresent] at hid'
    rw [cancel_scheduler, hfinish] at hfinish'
    rw [cancel_scheduler]
    simp only [NativeScheduler.inFlightIds, hflight]
    exact h.closing id' hid' hfinish'

end NativeRuntime

/-! ## What a client sees -/

/-- The operation is a tick. -/
def NativeRuntimeOp.isTick {ρ F : Type} : NativeRuntimeOp ρ F → Bool
  | .tick => true
  | _ => false

/-- What a client has seen of the last request that was accepted under an id. -/
structure ClientView (ρ F : Type) where
  request : Option (ChatRequest ρ F) := none
  events : List (RuntimeEvent ρ) := []

/-- The views after an operation and its answer. -/
def ClientView.observe {ρ F : Type} [DecidableEq ρ] (views : ρ → ClientView ρ F) :
    NativeRuntimeOp ρ F → NativeRuntimeReply ρ → ρ → ClientView ρ F
  | .submit request _, .submitted (.ok ()) =>
      Function.update views request.requestId { request := some request }
  | .tick, .ticked (.ok output) => fun id =>
      { views id with events := (views id).events ++ RuntimeEvent.about id output }
  | _, _ => views

@[simp] theorem ClientView.observe_cancelled {ρ F : Type} [DecidableEq ρ]
    (views : ρ → ClientView ρ F) (id : ρ) (prefillTimeMs : ℕ) (handled : Bool) :
    ClientView.observe views (.cancel id prefillTimeMs) (.cancelled handled) = views := rfl

namespace NativeRuntime

open NativeRuntimeState (remains receiveAll)
open RuntimeEvent (about)

variable {ρ σ π φ δ F : Type} [DecidableEq ρ] {svc : SchedulerServices ρ σ π φ}
  {config : SchedulerConfig} {model : ModelServices F} {text : TextServices δ}
  {r r' : NativeRuntime ρ σ φ δ} {id : ρ}

/-- What a client has seen of a request is what its text says to what happened to it; `left` is
what the table has of it. -/
def Tells (model : ModelServices F) (text : TextServices δ) (id : ρ) (view : ClientView ρ F)
    (left : Option (NativeRuntimeState ρ δ)) : Prop :=
  match view.request with
  | none => view.events = [] ∧ left = none
  | some request => request.requestId = id ∧ ∃ prompt inputs, checked model request = .ok prompt ∧
      view.events = receiveAll text inputs (.ofRequest text request.textRequest prompt) ∧
      left = remains text inputs (.ofRequest text request.textRequest prompt)

/-- Every client has seen what its request says. -/
def Told (config : SchedulerConfig) (model : ModelServices F) (text : TextServices δ)
    (w : Option (NativeRuntime ρ σ φ δ)) (views : ρ → ClientView ρ F) : Prop :=
  match w with
  | none => ∀ id, ∃ left, Tells model text id (views id) left
  | some r => Serving config r ∧ ∀ id, Tells model text id (views id) (r.requests.get? id)

omit [DecidableEq ρ] in
/-- What happens to a request later. -/
theorem Tells.receive {view : ClientView ρ F} {left : Option (NativeRuntimeState ρ δ)}
    (h : Tells model text id view left) {said : List (RuntimeEvent ρ)}
    {left' : Option (NativeRuntimeState ρ δ)} (hnone : left = none → said = [] ∧ left' = none)
    (hsome : ∀ st, left = some st → ∃ inputs, said = receiveAll text inputs st ∧
      left' = remains text inputs st) :
    Tells model text id { view with events := view.events ++ said } left' := by
  rw [Tells] at h ⊢
  dsimp only
  split at h
  · obtain ⟨hevents, hleft⟩ := h
    obtain ⟨rfl, hleft'⟩ := hnone hleft
    exact ⟨by rw [hevents, List.append_nil], hleft'⟩
  · obtain ⟨hid, prompt, inputs, hchecked, hevents, hleft⟩ := h
    refine ⟨hid, prompt, ?_⟩
    cases left with
    | none =>
      obtain ⟨rfl, hleft'⟩ := hnone rfl
      exact ⟨inputs, hchecked, by rw [hevents, List.append_nil], hleft'.trans hleft⟩
    | some st =>
      obtain ⟨more, rfl, hleft'⟩ := hsome st rfl
      refine ⟨inputs ++ more, hchecked, ?_, ?_⟩
      · rw [NativeRuntimeState.receiveAll_append, ← hleft, hevents]
        rfl
      · rw [NativeRuntimeState.remains_append, ← hleft, hleft']
        rfl

theorem told_cancel {views : ρ → ClientView ρ F} (h : Told config model text (some r) views)
    (id : ρ) (prefillTimeMs : ℕ) :
    Told config model text (some (r.cancel id prefillTimeMs).2) views := by
  obtain ⟨hserving, htells⟩ := And.intro h.1 h.2
  refine ⟨hserving.cancel id prefillTimeMs, fun id' => ?_⟩
  rw [get?_cancel]
  split
  · rename_i heq
    subst heq
    have hreceive : Tells model text id' { views id' with events := (views id').events ++ [] }
        ((r.requests.get? id').map (·.markCancelled prefillTimeMs)) :=
      (htells id').receive (fun hnone => ⟨rfl, by rw [hnone]; rfl⟩)
        fun st hst => ⟨[.cancel prefillTimeMs], rfl, by rw [hst]; rfl⟩
    rw [List.append_nil] at hreceive
    exact hreceive
  · exact htells id'

/-- One call keeps what the clients know. -/
theorem told_step (w : Option (NativeRuntime ρ σ φ δ)) (views : ρ → ClientView ρ F)
    (op : NativeRuntimeOp ρ F) (h : Told config model text w views)
    (henters : Enters model text w op) :
    Told config model text (step svc config model text w op).2
      (ClientView.observe views op (step svc config model text w op).1) := by
  cases w with
  | none => cases op <;> exact h
  | some r =>
    obtain ⟨hserving, htells⟩ := h
    cases op with
    | submit request profiled =>
      rcases submitRequest_of_enters hserving henters with
        ⟨e, hsubmit⟩ | ⟨prompt, s, hchecked, -, hs, hsubmit⟩
      · simp only [step, hsubmit]
        exact ⟨hserving, htells⟩
      · simp only [step, hsubmit]
        refine ⟨hserving.submit hs, fun id => ?_⟩
        dsimp only [ClientView.observe, entered]
        by_cases heq : id = request.requestId
        · subst heq
          rw [Function.update_self, Dict.get?_set_self]
          exact ⟨rfl, prompt, [], hchecked, rfl, rfl⟩
        · rw [Function.update_of_ne heq, Dict.get?_set, if_neg heq]
          exact htells id
    | cancel id prefillTimeMs =>
      exact told_cancel ⟨hserving, htells⟩ id prefillTimeMs
    | tick =>
      cases htick : r.tick svc text config with
      | error e =>
        simp only [step, htick]
        exact fun id => ⟨_, htells id⟩
      | ok ticked =>
        obtain ⟨output, r'⟩ := ticked
        obtain ⟨events, s, ended, hstep⟩ := hserving.step_of_tick htick
        simp only [step, htick]
        refine ⟨hstep.serving hserving, fun id => (htells id).receive (fun hnone => ?_)
          fun st hst => ?_⟩
        · exact ⟨(hstep.heard.absent id hnone).2.1, (hstep.heard.absent id hnone).1⟩
        · obtain ⟨inputs, -, hsaid, hleft, -⟩ := hstep.heard.present id st hst
          exact ⟨inputs, hsaid, hleft⟩

variable (svc config model text) in
/-- The views after a run. -/
def viewsAfter (world : σ) (ops : List (NativeRuntimeOp ρ F)) : ρ → ClientView ρ F :=
  Run.follow (step svc config model text) ClientView.observe (some { scheduler := .new world })
    (fun _ => {}) ops

variable (svc config model text) in
/-- The runtime after a run. -/
def after (world : σ) (ops : List (NativeRuntimeOp ρ F)) : Option (NativeRuntime ρ σ φ δ) :=
  Run.exec (step svc config model text) (some { scheduler := .new world }) ops

variable (svc config model text) in
/-- Every request of a run that passes its checks enters the scheduler. -/
def AllEnter (world : σ) (ops : List (NativeRuntimeOp ρ F)) : Prop :=
  Run.Each (step svc config model text) (Enters model text)
    (some ({ scheduler := .new world } : NativeRuntime ρ σ φ δ)) ops

theorem told_after {world : σ} {ops : List (NativeRuntimeOp ρ F)}
    (hops : AllEnter svc config model text world ops) :
    Told config model text (after svc config model text world ops)
      (viewsAfter svc config model text world ops) := by
  have hinit : Told config model text
      (some ({ scheduler := .new world } : NativeRuntime ρ σ φ δ)) fun _ => {} :=
    ⟨serving_new config world, fun _ => ⟨rfl, rfl⟩⟩
  have hstep : ∀ (w : Option (NativeRuntime ρ σ φ δ)) views op,
      Told config model text w views → Enters model text w op →
        Told config model text (step svc config model text w op).2
          (ClientView.observe views op (step svc config model text w op).1) := told_step
  exact Run.simulation hstep hinit hops

end NativeRuntime

namespace NativeRuntimeState

variable {ρ δ : Type} {svc : TextServices δ} {st : NativeRuntimeState ρ δ}

/-- The answer to a request that was not let run to its end. -/
def CutShort : RuntimeEvent ρ → Prop
  | .text (.response r) => r.finishReason = .cancelled
  | .error _ _ _ => True
  | _ => False

/-- A cancelled request is answered at once. -/
theorem finish_cancelled (svc : TextServices δ) (counters : RuntimeCounters)
    (st : NativeRuntimeState ρ δ) :
    ∃ r : TextResponse ρ, r.finishReason = .cancelled ∧
      st.finish svc counters .cancelled = [.response r] := by
  obtain ⟨chunks, text, hfinish, hchunks⟩ := finish_delivers counters .cancelled st
  rw [if_pos rfl] at hchunks
  have hnone : chunks.flatMap st.deltas = [] := by
    refine List.flatMap_eq_nil_iff.mpr fun chunk hchunk => ?_
    rw [List.flatten_eq_nil_iff.mp hchunks.1 chunk hchunk]
    rfl
  exact ⟨st.response counters .cancelled text, rfl, by rw [hfinish, hnone, List.nil_append]⟩

/-- A request that ends before it has another token is cut short, and nothing more is sent. -/
theorem receiveAll_cutShort {inputs : List (RequestInput ρ)} {events rest : List (SchedulerEvent ρ)}
    (h : inputs.map RequestInput.event? = (events ++ rest).map some)
    (hsilent : ∀ e ∈ events, e.isToken = false) (hend : HasEnd events) :
    ∃ answer, receiveAll svc inputs st = [answer] ∧ CutShort answer := by
  induction events generalizing inputs st with
  | nil =>
      obtain ⟨e, he, -⟩ := hend
      cases he
  | cons e events ih =>
      cases inputs with
      | nil => cases h
      | cons input inputs =>
        obtain ⟨hinput, hinputs⟩ := List.cons.inj h
        cases input with
        | cancel => cases hinput
        | event counters event =>
          obtain rfl := Option.some.inj hinput
          have hgoesOn : ∀ st' : NativeRuntimeState ρ δ, event.isTerminal = false →
              ∃ answer, receiveAll svc inputs st' = [answer] ∧ CutShort answer := by
            intro st' hnot
            refine ih hinputs (fun x hx => hsilent x (List.mem_cons_of_mem _ hx)) ?_
            obtain ⟨x, hx, hxt⟩ := hend
            rcases List.mem_cons.mp hx with rfl | hx
            · exact absurd (hnot.symm.trans hxt) Bool.false_ne_true
            · exact ⟨x, hx, hxt⟩
          cases event with
          | prefillProgress => exact hgoesOn _ rfl
          | metrics => exact hgoesOn _ rfl
          | token => cases hsilent _ List.mem_cons_self
          | executionError => exact ⟨_, rfl, trivial⟩
          | cancelled id stage =>
            obtain ⟨r, hreason, hfinish⟩ := finish_cancelled svc
              { counters with cancellationCount := counters.cancellationCount + 1 }
              { st with cancellationStage := some stage.text }
            refine ⟨.text (.response r), ?_, hreason⟩
            simp only [receiveAll, receive, applyEvent, hfinish, List.map_cons, List.map_nil]

end NativeRuntimeState

namespace NativeRuntime

open NativeRuntimeState (remains receiveAll CutShort)
open RuntimeEvent (about)

variable {ρ σ π φ δ F : Type} [DecidableEq ρ] {svc : SchedulerServices ρ σ π φ}
  {config : SchedulerConfig} {model : ModelServices F} {text : TextServices δ}
  {r r' : NativeRuntime ρ σ φ δ} {id : ρ}

omit [DecidableEq ρ] in
/-- What is seen of a request whose text is known. -/
theorem Tells.of_request {view : ClientView ρ F} {left : Option (NativeRuntimeState ρ δ)}
    {request : ChatRequest ρ F} (h : Tells model text id view left)
    (hrequest : view.request = some request) : ∃ prompt inputs,
      checked model request = .ok prompt ∧
      view.events = receiveAll text inputs (.ofRequest text request.textRequest prompt) ∧
      left = remains text inputs (.ofRequest text request.textRequest prompt) := by
  rw [Tells, hrequest] at h
  exact h.2

omit [DecidableEq ρ] in
/-- A request that is left is pending, and any other has its answer. -/
theorem Tells.answered {view : ClientView ρ F} {left : Option (NativeRuntimeState ρ δ)}
    {request : ChatRequest ρ F} (h : Tells model text id view left)
    (hrequest : view.request = some request) :
    (left ≠ none → Pending view.events) ∧ (left = none → Answered view.events) := by
  obtain ⟨prompt, inputs, -, hevents, hleft⟩ := h.of_request hrequest
  have hsaid := NativeRuntimeState.says_receiveAll text inputs
    (.ofRequest text request.textRequest prompt)
  rw [hevents, hleft]
  exact ⟨hsaid.pending, hsaid.answered⟩

theorem Told.exists_tells {w : Option (NativeRuntime ρ σ φ δ)} {views : ρ → ClientView ρ F}
    (h : Told config model text w views) (id : ρ) :
    ∃ left, Tells model text id (views id) left := by
  cases w with
  | none => exact h id
  | some r => exact ⟨_, h.2 id⟩

/-- A request for four tokens. -/
def longRequest : ChatRequest ℕ Unit := { requestOf ["ping"] with maxTokens := 4 }

/-- A request that has two tokens, and is cancelled. -/
def cancelledRun : List (NativeRuntimeOp ℕ Unit) :=
  [.submit longRequest (.ok ()), .tick, .tick] ++ .cancel 1 0 :: ([] ++ [.tick])

theorem allEnter_cancelledRun : AllEnter SchedulerCaller.scripted { overlap := true }
    countingModel letterTokenizer [] cancelledRun :=
  ⟨fun r prompt hr _ => .inl ⟨rfl, by cases hr; decide⟩, trivial, trivial, trivial, trivial,
    trivial⟩

/-- **Every accepted request is answered once.**  A client sees deltas, then at most one answer,
and nothing after it.  It has its answer as soon as the scheduler does not have the request any
more, so an idle runtime owes no answer. -/
theorem answered_once (svc : SchedulerServices ρ σ π φ) (config : SchedulerConfig)
    (model : ModelServices F) (text : TextServices δ) (world : σ) (ops : List (NativeRuntimeOp ρ F))
    (hops : AllEnter svc config model text world ops) (id : ρ) (request : ChatRequest ρ F)
    (hrequest : (viewsAfter svc config model text world ops id).request = some request) :
    let events := (viewsAfter svc config model text world ops id).events
    (Pending events ∨ Answered events) ∧
      ∀ r, after svc config model text world ops = some r →
        (Pending events ↔ r.scheduler.Present id ∧
          (r.scheduler.states id).finishRequested = false) ∧
        (r.idle = true → Answered events) := by
  have htold := told_after hops
  obtain ⟨left, htells⟩ := htold.exists_tells id
  have hanswered := htells.answered hrequest
  refine ⟨(Decidable.em (left = none)).elim (.inr ∘ hanswered.2) (.inl ∘ hanswered.1),
    fun r hr => ?_⟩
  rw [hr] at htold
  obtain ⟨hserving, htells⟩ := htold
  have hanswered := (htells id).answered hrequest
  refine ⟨⟨fun hpending => (hserving.live id).mp fun hnone => ?_, fun hid =>
    hanswered.1 ((hserving.live id).mpr hid)⟩, fun hidle => hanswered.2 ?_⟩
  · exact (hanswered.2 hnone).not_pending hpending
  · by_contra hne
    obtain ⟨hpresent, -⟩ := (hserving.live id).mp hne
    simp only [idle, NativeScheduler.idle, Bool.and_eq_true, List.isEmpty_iff] at hidle
    rw [NativeScheduler.Present, hidle.1.1, hidle.1.2] at hpresent
    exact hpresent.elim List.not_mem_nil List.not_mem_nil

theorem answered_once_cancelled :
    let events := (viewsAfter SchedulerCaller.scripted { overlap := true } countingModel
      letterTokenizer [] cancelledRun 1).events
    (Pending events ∨ Answered events) ∧
      ∀ r, after SchedulerCaller.scripted { overlap := true } countingModel letterTokenizer []
          cancelledRun = some r →
        (Pending events ↔ r.scheduler.Present 1 ∧ (r.scheduler.states 1).finishRequested = false) ∧
        (r.idle = true → Answered events) :=
  answered_once SchedulerCaller.scripted { overlap := true } countingModel letterTokenizer []
    cancelledRun allEnter_cancelledRun 1 longRequest rfl

/-- A client waits for the answer to a request, and the scheduler knows that it was cancelled. -/
structure Withdrawn (id : ρ) (seen : List (RuntimeEvent ρ)) (w : Option (NativeRuntime ρ σ φ δ))
    (views : ρ → ClientView ρ F) : Prop where
  seen : (views id).events = seen
  waits : ∀ r, w = some r →
    r.requests.get? id ≠ none ∧ (r.scheduler.states id).cancelRequested = true

@[simp] theorem step_cancel (id : ρ) (prefillTimeMs : ℕ) :
    step svc config model text (some r) (.cancel id prefillTimeMs) =
      (.cancelled (r.cancel id prefillTimeMs).1, some (r.cancel id prefillTimeMs).2) := rfl

/-- Cancelling any request leaves a request in the table, and cancelled if it was. -/
theorem withdrawn_cancel (h : Serving config r) (id' : ρ) (prefillTimeMs : ℕ)
    {views : ρ → ClientView ρ F} (hwaits : r.requests.get? id ≠ none)
    (hcancel : id' = id ∨ (r.scheduler.states id).cancelRequested = true) :
    Withdrawn id (views id).events (some (r.cancel id' prefillTimeMs).2) views := by
  refine ⟨rfl, fun r' hr' => ?_⟩
  obtain rfl := Option.some.inj hr'
  have hpresent := ((h.live id).mp hwaits).1
  obtain ⟨-, -, -, hstates⟩ := NativeScheduler.cancel_eq id' r.scheduler
  rw [get?_cancel, cancel_scheduler, hstates]
  refine ⟨?_, ?_⟩
  · split
    · rename_i heq
      exact fun hnone => hwaits (heq ▸ Option.map_eq_none_iff.mp hnone)
    · exact hwaits
  · split
    · rfl
    · rename_i hnot
      exact hcancel.resolve_left fun heq => hnot ⟨heq.symm, heq ▸ hpresent⟩

/-- Between two ticks a cancelled request waits. -/
theorem Withdrawn.step {seen : List (RuntimeEvent ρ)} {w : Option (NativeRuntime ρ σ φ δ)}
    {views : ρ → ClientView ρ F} {op : NativeRuntimeOp ρ F} (h : Withdrawn id seen w views)
    (htold : Told config model text w views) (henters : Enters model text w op)
    (hquiet : op.isTick = false) :
    Withdrawn id seen (step svc config model text w op).2
      (ClientView.observe views op (step svc config model text w op).1) := by
  cases w with
  | none => cases op <;> exact h
  | some r =>
    obtain ⟨hserving, -⟩ := htold
    obtain ⟨hwaits, hcancel⟩ := h.waits r rfl
    cases op with
    | tick => cases hquiet
    | cancel id' prefillTimeMs =>
      have hsame : Withdrawn id (views id).events (some (r.cancel id' prefillTimeMs).2) views :=
        withdrawn_cancel hserving id' prefillTimeMs hwaits (.inr hcancel)
      exact h.seen ▸ hsame
    | submit request profiled =>
      rcases submitRequest_of_enters hserving henters with
        ⟨e, hsubmit⟩ | ⟨prompt, s, -, habsent, hs, hsubmit⟩
      · simp only [NativeRuntime.step, hsubmit]
        exact h
      · have hne : id ≠ request.requestId := fun heq =>
          habsent (heq ▸ ((hserving.live id).mp hwaits).1)
        obtain ⟨-, -, -, -, hstates⟩ := NativeScheduler.submit_eq_ok hs
        have hkept := (hstates id).trans (if_neg hne)
        simp only [NativeRuntime.step, hsubmit]
        refine ⟨?_, fun r' hr' => ?_⟩
        · simp only [ClientView.observe, Function.update_of_ne hne]
          exact h.seen
        · obtain rfl := Option.some.inj hr'
          refine ⟨?_, (congrArg ScheduledState.cancelRequested hkept).trans hcancel⟩
          dsimp only [entered]
          rw [Dict.get?_set, if_neg hne]
          exact hwaits

/-- The next tick answers a cancelled request, which gets no other token. -/
theorem Serving.tick_cancelled (h : Serving config r) {output : List (RuntimeEvent ρ)}
    (heq : r.tick svc text config = .ok (output, r')) (hwaits : r.requests.get? id ≠ none)
    (hcancel : (r.scheduler.states id).cancelRequested = true) :
    ∃ answer, about id output = [answer] ∧ CutShort answer := by
  obtain ⟨events, s, ended, hstep⟩ := h.step_of_tick heq
  obtain ⟨hpresent, hfinish⟩ := (h.live id).mp hwaits
  obtain ⟨st, hst⟩ := Option.ne_none_iff_exists'.mp hwaits
  obtain ⟨inputs, hinputs, hsaid, -, -⟩ := hstep.heard.present id st hst
  obtain ⟨first, rest, rfl, hsilent, hend⟩ :=
    hstep.ticked.cancelled id hpresent hcancel hfinish
  rw [eventsOf_append] at hinputs
  rw [hsaid]
  exact NativeRuntimeState.receiveAll_cutShort hinputs
    (fun e he => hsilent e (List.mem_of_mem_filter he)) hend

/-- A worker that has ended stays so. -/
theorem exec_none (ops : List (NativeRuntimeOp ρ F)) :
    Run.exec (step svc config model text) (none : Option (NativeRuntime ρ σ φ δ)) ops = none := by
  induction ops with
  | nil => rfl
  | cons op ops ih => cases op <;> exact ih

/-- A cancelled request waits over operations that are no ticks. -/
theorem Withdrawn.follow {seen : List (RuntimeEvent ρ)} {w : Option (NativeRuntime ρ σ φ δ)}
    {views : ρ → ClientView ρ F} {ops : List (NativeRuntimeOp ρ F)} (h : Withdrawn id seen w views)
    (htold : Told config model text w views)
    (henters : Run.Each (NativeRuntime.step svc config model text) (Enters model text) w ops)
    (hquiet : ∀ op ∈ ops, op.isTick = false) :
    let w' := Run.exec (NativeRuntime.step svc config model text) w ops
    let views' := Run.follow (NativeRuntime.step svc config model text) ClientView.observe w views
      ops
    Told config model text w' views' ∧ Withdrawn id seen w' views' := by
  induction ops generalizing w views with
  | nil => exact ⟨htold, h⟩
  | cons op ops ih =>
      exact ih (h.step htold henters.1 (hquiet op List.mem_cons_self))
        (told_step w views op htold henters.1) henters.2
        fun op' hop' => hquiet op' (List.mem_cons_of_mem _ hop')

end NativeRuntime

end MlxRuntime
