import MlxRuntime.Runtime.Streaming
import MlxRuntime.Scheduler.Caller

/-!
# What a request hears of a tick

The runtime hears of its requests through one list of events a tick, and tells the scheduler which
of them have ended.  Each request hears of itself only: what the runtime says of it is what its
own state says to its own events.

## Main definitions

* `RuntimeEvent.about` — what is said of a request.
* `Pending`, `Answered` — all that is said of it so far.
* `NativeRuntimeState.remains` — what is left of a request.
* `NativeRuntime.Heard` — the events of a tick, heard by every request.
-/

namespace MlxRuntime

/-! ## What is said of a request -/

namespace RuntimeEvent

variable {ρ : Type}

/-- The request that the event is about. -/
def requestId? : RuntimeEvent ρ → Option ρ
  | .text (.delta id _) => some id
  | .text (.response r) => some r.requestId
  | .error _ id _ => some id
  | .metrics _ _ _ _ _ => none

def isDelta : RuntimeEvent ρ → Bool
  | .text (.delta _ _) => true
  | _ => false

/-- The event ends a request. -/
def isAnswer : RuntimeEvent ρ → Bool
  | .text (.response _) | .error _ _ _ => true
  | _ => false

/-- What is said of a request. -/
def about [DecidableEq ρ] (id : ρ) (events : List (RuntimeEvent ρ)) : List (RuntimeEvent ρ) :=
  events.filter fun e => e.requestId? = some id

@[simp] theorem about_append [DecidableEq ρ] (id : ρ) (events more : List (RuntimeEvent ρ)) :
    about id (events ++ more) = about id events ++ about id more :=
  List.filter_append _ _

theorem about_eq_self [DecidableEq ρ] {id : ρ} {events : List (RuntimeEvent ρ)}
    (h : ∀ e ∈ events, e.requestId? = some id) : about id events = events :=
  List.filter_eq_self.mpr fun e he => decide_eq_true (h e he)

theorem about_eq_nil [DecidableEq ρ] {id : ρ} {events : List (RuntimeEvent ρ)}
    (h : ∀ e ∈ events, e.requestId? ≠ some id) : about id events = [] :=
  List.filter_eq_nil_iff.mpr fun e he htrue => h e he (of_decide_eq_true htrue)

end RuntimeEvent

/-- What is said of a request so far: deltas, and no answer. -/
def Pending {ρ : Type} (events : List (RuntimeEvent ρ)) : Prop := ∀ e ∈ events, e.isDelta = true

/-- All that is said of a request: deltas, then one answer. -/
def Answered {ρ : Type} (events : List (RuntimeEvent ρ)) : Prop :=
  ∃ deltas answer, events = deltas ++ [answer] ∧ Pending deltas ∧ answer.isAnswer = true

theorem Pending.append {ρ : Type} {events more : List (RuntimeEvent ρ)} (h : Pending events)
    (h' : Pending more) : Pending (events ++ more) := fun e he =>
  (List.mem_append.mp he).elim (h e) (h' e)

theorem Pending.answered {ρ : Type} {events more : List (RuntimeEvent ρ)} (h : Pending events)
    (h' : Answered more) : Answered (events ++ more) := by
  obtain ⟨deltas, answer, rfl, hdeltas, hanswer⟩ := h'
  exact ⟨events ++ deltas, answer, (List.append_assoc _ _ _).symm, h.append hdeltas, hanswer⟩

/-- A request that has its answer is not pending. -/
theorem Answered.not_pending {ρ : Type} {events : List (RuntimeEvent ρ)} (h : Answered events) :
    ¬ Pending events := by
  obtain ⟨deltas, answer, rfl, -, hanswer⟩ := h
  intro hpending
  have hdelta := hpending answer (List.mem_append_right _ (List.mem_singleton_self _))
  cases answer with
  | text event =>
      cases event with
      | delta => cases hanswer
      | response => cases hdelta
  | error => cases hdelta
  | metrics => cases hdelta

namespace RequestInput

variable {ρ : Type}

/-- The event of a tick. -/
def event? : RequestInput ρ → Option (SchedulerEvent ρ)
  | .event _ e => some e
  | .cancel _ => none

end RequestInput

namespace NativeRuntimeState

variable {ρ δ : Type} {svc : TextServices δ} {st : NativeRuntimeState ρ δ}

variable (svc) in
/-- What is left of a request. -/
def remains : List (RequestInput ρ) → NativeRuntimeState ρ δ → Option (NativeRuntimeState ρ δ)
  | [], st => some st
  | input :: inputs, st =>
      match st.receive svc input with
      | (_, none) => none
      | (_, some st) => remains inputs st

theorem remains_append (inputs more : List (RequestInput ρ)) (st : NativeRuntimeState ρ δ) :
    remains svc (inputs ++ more) st = (remains svc inputs st).bind (remains svc more) := by
  induction inputs generalizing st with
  | nil => rfl
  | cons input inputs ih =>
      rw [List.cons_append, remains, remains]
      rcases st.receive svc input with ⟨events, _ | st₁⟩
      · rfl
      · exact ih st₁

theorem receiveAll_append (inputs more : List (RequestInput ρ)) (st : NativeRuntimeState ρ δ) :
    receiveAll svc (inputs ++ more) st =
      receiveAll svc inputs st ++ ((remains svc inputs st).map (receiveAll svc more)).getD [] := by
  induction inputs generalizing st with
  | nil => rfl
  | cons input inputs ih =>
      rw [List.cons_append, receiveAll, receiveAll, remains]
      rcases st.receive svc input with ⟨events, _ | st₁⟩
      · exact (List.append_nil _).symm
      · dsimp only
        rw [ih st₁, List.append_assoc]

/-- What a request says to one input is about it: deltas while it goes on, and an answer last. -/
structure Says (st : NativeRuntimeState ρ δ) (events : List (RuntimeEvent ρ))
    (final : Option (NativeRuntimeState ρ δ)) : Prop where
  request : ∀ st' ∈ final, st'.request = st.request
  about : ∀ e ∈ events, e.requestId? = some st.request.requestId
  pending : final ≠ none → Pending events
  answered : final = none → Answered events

theorem mem_deltas {emitted : Text} {e : TextEvent ρ} (h : e ∈ st.deltas emitted) :
    e = .delta st.request.requestId emitted := by
  rw [deltas] at h
  split at h
  · exact List.mem_singleton.mp h
  · cases h

theorem pending_flatMap (chunks : List Text) :
    Pending ((chunks.flatMap st.deltas).map RuntimeEvent.text) := by
  intro e he
  obtain ⟨event, hevent, rfl⟩ := List.mem_map.mp he
  obtain ⟨chunk, -, hevent⟩ := List.mem_flatMap.mp hevent
  rw [mem_deltas hevent]
  rfl

theorem says_deltas {st' : NativeRuntimeState ρ δ} (emitted : Text)
    (h : st'.request = st.request) :
    st.Says ((st'.deltas emitted).map .text) (some st') where
  request st'' hst'' := Option.mem_some_iff.mp hst'' ▸ h
  about e he := by
    obtain ⟨event, hevent, rfl⟩ := List.mem_map.mp he
    rw [mem_deltas hevent, h]
    rfl
  pending _ := by
    simpa using @pending_flatMap ρ δ st' [emitted]
  answered hnone := nomatch hnone

theorem says_finish {st' : NativeRuntimeState ρ δ} (counters : RuntimeCounters)
    (reason : FinishReason) (h : st'.request = st.request) :
    st.Says ((st'.finish svc counters reason).map .text) none := by
  obtain ⟨chunks, text, hfinish, -⟩ := finish_delivers counters reason st'
  rw [hfinish, List.map_append]
  refine ⟨fun _ hnone => (nomatch hnone), fun e he => ?_, fun hne => absurd rfl hne,
    fun _ => ⟨_, _, rfl, pending_flatMap chunks, rfl⟩⟩
  rcases List.mem_append.mp he with he | he
  · obtain ⟨event, hevent, rfl⟩ := List.mem_map.mp he
    obtain ⟨chunk, -, hevent⟩ := List.mem_flatMap.mp hevent
    rw [mem_deltas hevent, h]
    rfl
  · obtain rfl := List.mem_singleton.mp he
    exact congrArg (fun request => some request.requestId) h

/-- What is said of one input, then of the next. -/
theorem Says.append {events more : List (RuntimeEvent ρ)} {st' : NativeRuntimeState ρ δ}
    {final : Option (NativeRuntimeState ρ δ)} (h : st.Says events (some st'))
    (h' : st'.Says more final) : st.Says (events ++ more) final := by
  have hrequest := h.request st' rfl
  refine ⟨fun st'' hst'' => (h'.request st'' hst'').trans hrequest, fun e he => ?_,
    fun hne => (h.pending (Option.some_ne_none _)).append (h'.pending hne),
    fun hnone => (h.pending (Option.some_ne_none _)).answered (h'.answered hnone)⟩
  rcases List.mem_append.mp he with he | he
  · exact h.about e he
  · exact hrequest ▸ h'.about e he

variable (svc) in
theorem says_receive (input : RequestInput ρ) (st : NativeRuntimeState ρ δ) :
    st.Says (st.receive svc input).1 (st.receive svc input).2 := by
  have hgoesOn : ∀ st' : NativeRuntimeState ρ δ, st'.request = st.request →
      st.Says [] (some st') := fun st' h =>
    ⟨fun _ hst'' => Option.mem_some_iff.mp hst'' ▸ h, fun _ he => absurd he List.not_mem_nil,
      fun _ _ he => absurd he List.not_mem_nil, fun hnone => (nomatch hnone)⟩
  have hfail : ∀ code message, st.Says (st.fail code message) none := fun code message =>
    ⟨fun _ hnone => (nomatch hnone), fun e he => List.mem_singleton.mp he ▸ rfl,
      fun hne => absurd rfl hne,
      fun _ => ⟨[], _, rfl, fun _ he => absurd he List.not_mem_nil, rfl⟩⟩
  cases input with
  | cancel prefillTimeMs => exact hgoesOn _ rfl
  | event counters event =>
      cases event with
      | prefillProgress => exact hgoesOn _ rfl
      | metrics => exact hgoesOn _ rfl
      | executionError => exact hfail _ _
      | cancelled id stage => exact says_finish _ _ rfl
      | token id token cacheLength phase batchSize =>
          cases token with
          | none => exact hfail _ _
          | some token =>
              rw [receive, applyEvent]
              dsimp only
              obtain ⟨st₁, chunk, hrequest, -, haccept | ⟨reason, -, haccept⟩⟩ :=
                acceptToken_delivers counters token
                  { st with decodeBatchSize := batchSize <|> st.decodeBatchSize }
              · rw [haccept]
                exact says_deltas chunk hrequest
              · rw [haccept]
                dsimp only
                rw [List.map_append]
                have hfirst : st.Says _ (some st₁) := says_deltas chunk hrequest
                exact hfirst.append (says_finish counters reason rfl)

variable (svc) in
/-- **All that a request says** is about it: deltas while it goes on, and an answer last. -/
theorem says_receiveAll (inputs : List (RequestInput ρ)) (st : NativeRuntimeState ρ δ) :
    st.Says (receiveAll svc inputs st) (remains svc inputs st) := by
  induction inputs generalizing st with
  | nil =>
      exact ⟨fun _ hst' => Option.mem_some_iff.mp hst' ▸ rfl,
        fun _ he => absurd he List.not_mem_nil, fun _ _ he => absurd he List.not_mem_nil,
        fun hnone => (nomatch hnone)⟩
  | cons input inputs ih =>
      have hsaid := says_receive svc input st
      rw [receiveAll, remains]
      generalize st.receive svc input = received at hsaid
      obtain ⟨events, _ | st₁⟩ := received
      · exact hsaid
      · exact hsaid.append (ih st₁)

end NativeRuntimeState

namespace NativeRuntime

open NativeRuntimeState (remains receiveAll)
open NativeScheduler (finishAll)
open RuntimeEvent (about)

variable {ρ σ π φ δ : Type} [DecidableEq ρ] {svc : SchedulerServices ρ σ π φ}
  {text : TextServices δ}
  {r r' r'' : NativeRuntime ρ σ φ δ} {id : ρ}

/-! ## The events of a tick -/

/-- The table has the requests under their ids. -/
def Keyed (r : NativeRuntime ρ σ φ δ) : Prop :=
  ∀ id st, r.requests.get? id = some st → st.request.requestId = id

/-- Events, heard by every request: what is said of it is what its own state says to its own
events, and the scheduler is told of those that have ended. -/
structure Heard (svc : SchedulerServices ρ σ π φ) (text : TextServices δ)
    (events : List (SchedulerEvent ρ)) (r : NativeRuntime ρ σ φ δ) (ended : List ρ)
    (output : List (RuntimeEvent ρ)) (r' : NativeRuntime ρ σ φ δ) : Prop where
  finished : finishAll svc ended r.scheduler = .ok r'.scheduler
  absent : ∀ id, r.requests.get? id = none →
    r'.requests.get? id = none ∧ about id output = [] ∧ id ∉ ended
  present : ∀ id st, r.requests.get? id = some st → ∃ inputs : List (RequestInput ρ),
    inputs.map RequestInput.event? = (eventsOf id events).map some ∧
      about id output = receiveAll text inputs st ∧
      r'.requests.get? id = remains text inputs st ∧
      (id ∈ ended ↔ r'.requests.get? id = none)

theorem finishAll_append (ids more : List ρ) (s : NativeScheduler ρ σ φ) :
    finishAll svc (ids ++ more) s = (do finishAll svc more (← finishAll svc ids s)) := by
  induction ids generalizing s with
  | nil => rfl
  | cons id ids ih =>
      rw [List.cons_append, finishAll, finishAll]
      cases s.finish svc id with
      | error e => rfl
      | ok s₁ => exact ih s₁

/-- Events, then others. -/
theorem Heard.trans {events more : List (SchedulerEvent ρ)} {ended ended' : List ρ}
    {output output' : List (RuntimeEvent ρ)} (h : Heard svc text events r ended output r')
    (h' : Heard svc text more r' ended' output' r'') :
    Heard svc text (events ++ more) r (ended ++ ended') (output ++ output') r'' := by
  refine ⟨?_, fun id hnone => ?_, fun id st hsome => ?_⟩
  · rw [finishAll_append, h.finished]
    exact h'.finished
  · obtain ⟨hnone', houtput, hended⟩ := h.absent id hnone
    obtain ⟨hnone'', houtput', hended'⟩ := h'.absent id hnone'
    refine ⟨hnone'', by rw [RuntimeEvent.about_append, houtput, houtput', List.append_nil],
      fun hmem => ?_⟩
    exact (List.mem_append.mp hmem).elim hended hended'
  · obtain ⟨inputs, hinputs, houtput, hremains, hended⟩ := h.present id st hsome
    rw [eventsOf_append, List.map_append, RuntimeEvent.about_append, houtput, List.mem_append]
    cases hleft : r'.requests.get? id with
    | none =>
      -- the request has ended: what else is said of it is not heard
      obtain ⟨hnone, houtput', hended'⟩ := h'.absent id hleft
      have hremains : remains text inputs st = none := hremains.symm.trans hleft
      refine ⟨inputs ++ (eventsOf id more).map (.event {}), ?_, ?_, ?_, ?_⟩
      · rw [List.map_append, hinputs, List.map_map]
        rfl
      · rw [NativeRuntimeState.receiveAll_append, hremains, houtput']
        rfl
      · rw [NativeRuntimeState.remains_append, hremains, hnone]
        rfl
      · exact iff_of_true (.inl (hended.mpr hleft)) hnone
    | some st' =>
      obtain ⟨inputs', hinputs', houtput', hremains', hended'⟩ := h'.present id st' hleft
      have hremains : remains text inputs st = some st' := hremains.symm.trans hleft
      have hnot : id ∉ ended := fun hmem => by
        rw [hended.mp hmem] at hleft
        cases hleft
      refine ⟨inputs ++ inputs', ?_, ?_, ?_, ?_⟩
      · rw [List.map_append, hinputs, hinputs']
      · rw [NativeRuntimeState.receiveAll_append, hremains, houtput']
        rfl
      · rw [NativeRuntimeState.remains_append, hremains, hremains']
        rfl
      · exact (or_iff_right hnot).trans hended'

theorem eventsOf_singleton {event : SchedulerEvent ρ} (id : ρ) :
    eventsOf id [event] = if event.requestId? = some id then [event] else [] := by
  by_cases heq : event.requestId? = some id
  · rw [if_pos heq]
    exact List.filter_cons_of_pos (decide_eq_true heq)
  · rw [if_neg heq]
    exact List.filter_cons_of_neg fun htrue => heq (of_decide_eq_true htrue)

/-- An event that no request hears. -/
theorem heard_nothing {event : SchedulerEvent ρ} {output : List (RuntimeEvent ρ)}
    (hevent : ∀ id ∈ event.requestId?, r.requests.get? id = none)
    (houtput : ∀ e ∈ output, e.requestId? = none) : Heard svc text [event] r [] output r := by
  have habout : ∀ id, about id output = [] := fun id =>
    RuntimeEvent.about_eq_nil fun e he hid => by rw [houtput e he] at hid; cases hid
  refine ⟨rfl, fun id hnone => ⟨hnone, habout id, List.not_mem_nil⟩, fun id st hsome => ?_⟩
  refine ⟨[], ?_, habout id, hsome, iff_of_false List.not_mem_nil ?_⟩
  · rw [eventsOf_singleton, if_neg fun hid => ?_]
    · rfl
    · rw [hevent id hid] at hsome
      cases hsome
  · rw [hsome]
    exact Option.some_ne_none st

/-- An event of a request in the table. -/
theorem heard_of_mem {event : SchedulerEvent ρ} {st : NativeRuntimeState ρ δ}
    (hkeyed : r.Keyed) (hid : event.requestId? = some id)
    (hsome : r.requests.get? id = some st) {ended : List ρ} {output : List (RuntimeEvent ρ)}
    (houtput : (st.receive text (.event r.counters event)).1 = output)
    (hrequests : r'.requests.get? id = (st.receive text (.event r.counters event)).2)
    (hothers : ∀ id', id' ≠ id → r'.requests.get? id' = r.requests.get? id')
    (hended : ended = if r'.requests.get? id = none then [id] else [])
    (hfinished : finishAll svc ended r.scheduler = .ok r'.scheduler) :
    Heard svc text [event] r ended output r' := by
  have hsaid := NativeRuntimeState.says_receive text (.event r.counters event) st
  rw [houtput] at hsaid
  have hmem : ∀ id', id' ∈ ended → id' = id := by
    intro id' hmem
    rw [hended] at hmem
    split at hmem
    · exact List.mem_singleton.mp hmem
    · cases hmem
  have hother : ∀ id', id' ≠ id → about id' output = [] := fun id' hne =>
    RuntimeEvent.about_eq_nil fun e he heq => hne (by
      rw [hsaid.about e he, hkeyed id st hsome] at heq
      exact (Option.some.inj heq).symm)
  refine ⟨hfinished, fun id' hnone => ?_, fun id' st' hsome' => ?_⟩
  · have hne : id' ≠ id := fun heq => by
      rw [heq, hsome] at hnone
      cases hnone
    exact ⟨(hothers id' hne).trans hnone, hother id' hne, fun hin => hne (hmem id' hin)⟩
  by_cases heq : id' = id
  · subst heq
    obtain rfl := Option.some.inj (hsome.symm.trans hsome')
    refine ⟨[.event r.counters event], ?_, ?_, ?_, ?_⟩
    · rw [eventsOf_singleton, if_pos hid]
      rfl
    · rw [RuntimeEvent.about_eq_self fun e he =>
        (hsaid.about e he).trans (congrArg some (hkeyed id' st hsome)), receiveAll, ← houtput]
      rcases st.receive text (.event r.counters event) with ⟨events, _ | st₁⟩
      · rfl
      · exact (List.append_nil _).symm
    · rw [hrequests, remains]
      rcases st.receive text (.event r.counters event) with ⟨events, _ | st₁⟩ <;> rfl
    · rw [hended]
      by_cases hnone : r'.requests.get? id' = none
      · rw [if_pos hnone]
        exact iff_of_true (List.mem_singleton_self _) hnone
      · rw [if_neg hnone]
        exact iff_of_false List.not_mem_nil hnone
  · refine ⟨[], ?_, hother id' heq, (hothers id' heq).trans hsome', ?_⟩
    · rw [eventsOf_singleton, if_neg]
      · rfl
      · rw [hid]
        exact fun hsame => heq (Option.some.inj hsame).symm
    · rw [hothers id' heq, hsome']
      exact iff_of_false (fun hin => heq (hmem id' hin)) (Option.some_ne_none st')

/-- What `_apply_scheduler_event` does with the request that the event names. -/
theorem applySchedulerEvent_eq {event : SchedulerEvent ρ} (h : event.requestId? = some id) :
    r.applySchedulerEvent svc text event =
      match r.requests.get? id with
      | none => .ok ([], r)
      | some st =>
          match st.applyEvent text r.counters event with
          | (events, some st, counters) =>
              .ok (events, { r with requests := r.requests.set id st, counters := counters })
          | (events, none, counters) => do
              let scheduler ← r.scheduler.finish svc id
              let requests := r.requests.pop id
              return (events, { scheduler := scheduler, requests := requests, counters }) := by
  cases event with
  | metrics => cases h
  | prefillProgress | token | cancelled | executionError =>
      obtain rfl := Option.some.inj h
      rfl

theorem heard_applySchedulerEvent (hkeyed : r.Keyed) {event : SchedulerEvent ρ}
    {output : List (RuntimeEvent ρ)}
    (heq : r.applySchedulerEvent svc text event = .ok (output, r')) :
    ∃ ended, Heard svc text [event] r ended output r' := by
  cases hid : event.requestId? with
  | none =>
    cases event with
    | metrics =>
      obtain ⟨rfl, rfl⟩ := Prod.mk.inj (Except.ok.inj heq)
      exact ⟨[], heard_nothing (fun _ h => (nomatch h)) fun e he => List.mem_singleton.mp he ▸ rfl⟩
    | prefillProgress | token | cancelled | executionError => cases hid
  | some id =>
    rw [applySchedulerEvent_eq hid] at heq
    split at heq
    · rename_i hnone
      obtain ⟨rfl, rfl⟩ := Prod.mk.inj (Except.ok.inj heq)
      refine ⟨[], heard_nothing (fun id' h => ?_) fun e he => absurd he List.not_mem_nil⟩
      rw [hid] at h
      exact Option.some.inj h ▸ hnone
    rename_i st hsome
    split at heq
    · rename_i events st' counters happly
      obtain ⟨rfl, rfl⟩ := Prod.mk.inj (Except.ok.inj heq)
      refine ⟨[], heard_of_mem hkeyed hid hsome ?_ ?_ (fun id' hne => ?_) ?_ rfl⟩
      · simp only [NativeRuntimeState.receive, happly]
      · simp only [NativeRuntimeState.receive, happly, Dict.get?_set_self]
      · exact (Dict.get?_set id st' id').trans (if_neg hne)
      · rw [if_neg]
        rw [Dict.get?_set_self]
        exact Option.some_ne_none st'
    · rename_i events counters happly
      obtain ⟨scheduler, hfinish, heq⟩ := bind_eq_ok heq
      obtain ⟨rfl, rfl⟩ := Prod.mk.inj (Except.ok.inj heq)
      have hgone : (r.requests.pop id).get? id = none := (Dict.get?_pop id id).trans (if_pos rfl)
      refine ⟨[id], heard_of_mem hkeyed hid hsome ?_ ?_ (fun id' hne => ?_) ?_ ?_⟩
      · simp only [NativeRuntimeState.receive, happly]
      · simp only [NativeRuntimeState.receive, happly, hgone]
      · exact (Dict.get?_pop id id').trans (if_neg hne)
      · exact (if_pos hgone).symm
      · rw [finishAll, hfinish]
        rfl

/-- What is left is under the same ids. -/
theorem Heard.keyed {events : List (SchedulerEvent ρ)} {ended : List ρ}
    {output : List (RuntimeEvent ρ)} (h : Heard svc text events r ended output r')
    (hkeyed : r.Keyed) : r'.Keyed := by
  intro id st' hsome'
  cases hsome : r.requests.get? id with
  | none =>
    rw [(h.absent id hsome).1] at hsome'
    cases hsome'
  | some st =>
    obtain ⟨inputs, -, -, hremains, -⟩ := h.present id st hsome
    have hsaid := NativeRuntimeState.says_receiveAll text inputs st
    exact (congrArg TextRequest.requestId
      (hsaid.request st' (hremains.symm.trans hsome'))).trans (hkeyed id st hsome)

/-- **The events of a tick** are heard by every request. -/
theorem heard_applySchedulerEvents {events : List (SchedulerEvent ρ)}
    {output : List (RuntimeEvent ρ)} (hkeyed : r.Keyed)
    (heq : r.applySchedulerEvents svc text events = .ok (output, r')) :
    ∃ ended, Heard svc text events r ended output r' := by
  induction events generalizing r output with
  | nil =>
      obtain ⟨rfl, rfl⟩ := Prod.mk.inj (Except.ok.inj heq)
      refine ⟨[], rfl, fun id hnone => ⟨hnone, rfl, List.not_mem_nil⟩, fun id st hsome =>
        ⟨[], rfl, rfl, hsome, iff_of_false List.not_mem_nil ?_⟩⟩
      rw [hsome]
      exact Option.some_ne_none st
  | cons event events ih =>
      obtain ⟨⟨first, r₁⟩, hfirst, heq⟩ := bind_eq_ok heq
      obtain ⟨⟨more, r₂⟩, hmore, heq⟩ := bind_eq_ok heq
      obtain ⟨rfl, rfl⟩ := Prod.mk.inj (Except.ok.inj heq)
      obtain ⟨ended, hheard⟩ := heard_applySchedulerEvent hkeyed hfirst
      obtain ⟨ended', hheard'⟩ := ih (hheard.keyed hkeyed) hmore
      exact ⟨ended ++ ended', hheard.trans hheard'⟩

end NativeRuntime

end MlxRuntime
