import MlxRuntime.Lib.Run

/-!
# Request admission in the gateway

`RequestAdmission` bounds how many requests run and how many wait.  All of
`acquire_until` happens under one lock except the wait on the condition variable, so a
call is a sequence of critical sections: the turn it enters with, and one turn for each
return from the wait.  A return may have been notified, spurious or timed out, and
nothing orders the calls that want the lock.

A clock reading and the value of the disconnect flag are inputs of the section that
reads them.  The lock is never poisoned: no section panics.

## Main definitions

* `RequestAdmission.turn`, `RequestAdmission.resume`, `AdmissionState.dropPermit` — the
  critical sections.
* `AdmissionQueue`, `AdmissionOp`, `AdmissionQueue.step` — any number of calls.
* `AdmissionQueue.Inv` — the counts are those of the calls.
* `AdmissionQueue.Fifo`, `AdmissionQueue.InOrder` — the order of the permits.
-/

namespace MlxRuntime

/-- The JSON error responses of the gateway. -/
structure HttpError where
  status : String
  code : String
  message : String
  deriving DecidableEq

/-- `RequestAdmission`, without its state.  Durations are in milliseconds. -/
structure RequestAdmission where
  maxPendingRequests : ℕ
  maxActiveRequests : ℕ
  requestTimeout : ℕ
  deriving DecidableEq

/-- `AdmissionState`. -/
structure AdmissionState where
  active : ℕ := 0
  waiting : ℕ := 0
  deriving DecidableEq

/-- `RequestPermit`. -/
structure RequestPermit where
  deriving DecidableEq

/-- How a critical section of `acquire_until` ends: with the result of the call, or in
the wait. -/
inductive Turn
  | returned (result : Except HttpError (Option RequestPermit))
  | waits (waitFor : ℕ)
  deriving DecidableEq

/-- The answer to a call that finds the queue full. -/
def queueFull : HttpError := ⟨"429 Too Many Requests", "QUEUE_FULL", "request queue is full"⟩

/-- The answer to a call that waited up to its deadline. -/
def queueTimeout : HttpError :=
  ⟨"429 Too Many Requests", "QUEUE_TIMEOUT", "request queue wait timed out"⟩

/-- `RequestPermit::drop`. -/
def AdmissionState.dropPermit (g : AdmissionState) : AdmissionState :=
  if 0 < g.active then { g with active := g.active - 1 } else g

namespace RequestAdmission

/-- One round of the loop of `acquire_until`, up to the wait.  `cancellable` says whether
there is a disconnect flag, `disconnected` what it holds. -/
def turn (a : RequestAdmission) (deadline : ℕ) (cancellable disconnected : Bool) (now : ℕ)
    (g : AdmissionState) : Turn × AdmissionState :=
  if cancellable ∧ disconnected then (.returned (.ok none), g)
  else if g.active < a.maxActiveRequests then
    (.returned (.ok (some {})), { g with active := g.active + 1 })
  else if a.maxPendingRequests ≤ g.waiting then (.returned (.error queueFull), g)
  else
    let waitFor := if cancellable then min (deadline - now) 50 else deadline - now
    (.waits waitFor, { g with waiting := g.waiting + 1 })

/-- The round after a wait: `now` is read for the deadline, `now'` in the next round. -/
def resume (a : RequestAdmission) (deadline : ℕ) (timedOut : Bool) (now : ℕ)
    (cancellable disconnected : Bool) (now' : ℕ) (g : AdmissionState) : Turn × AdmissionState :=
  let g := if 0 < g.waiting then { g with waiting := g.waiting - 1 } else g
  if timedOut ∧ deadline ≤ now then (.returned (.error queueTimeout), g)
  else a.turn deadline cancellable disconnected now' g

end RequestAdmission

/-! ## Any number of calls -/

/-- Where a call of `acquire_until` is. -/
inductive CallStatus
  | called
  | waiting (waitFor : ℕ)
  | holding
  | refused (result : Except HttpError (Option RequestPermit))
  | dropped
  deriving DecidableEq

/-- A call.  `calledAt` and `waitingSince` are history: the step it was made in and the
step it first waited in. -/
structure AdmissionCall where
  deadline : ℕ
  cancellable : Bool
  calledAt : ℕ
  waitingSince : Option ℕ := none
  status : CallStatus := .called
  deriving DecidableEq

/-- The call has a live permit. -/
def AdmissionCall.holds (call : AdmissionCall) : Bool := call.status = .holding

/-- The call is inside the wait. -/
def AdmissionCall.waits (call : AdmissionCall) : Bool :=
  match call.status with
  | .waiting _ => true
  | _ => false

/-- The admission with its lock and all calls made, `clock` being the number of steps. -/
structure AdmissionQueue where
  admission : RequestAdmission
  state : AdmissionState := {}
  calls : List AdmissionCall := []
  clock : ℕ := 0
  deriving DecidableEq

/-- A step: a call begins, takes the lock for the first time, takes it again after the
wait, or its permit is dropped. -/
inductive AdmissionOp
  | call (cancellable : Bool) (now : ℕ)
  | enter (id : ℕ) (disconnected : Bool) (now : ℕ)
  | wake (id : ℕ) (timedOut : Bool) (now : ℕ) (disconnected : Bool) (now' : ℕ)
  | drop (id : ℕ)
  deriving DecidableEq

/-- What a step does. -/
inductive AdmissionReply
  | notEnabled
  | called (id : ℕ)
  | turned (id : ℕ) (turn : Turn)
  | dropped (id : ℕ)
  deriving DecidableEq

namespace AdmissionQueue

/-- The place of a call after a turn. -/
def after (clock : ℕ) (call : AdmissionCall) : Turn → AdmissionCall
  | .returned (.ok (some _)) => { call with status := .holding }
  | .returned result => { call with status := .refused result }
  | .waits waitFor => { call with
      status := .waiting waitFor, waitingSince := some (call.waitingSince.getD clock) }

/-- One step. -/
def step (q : AdmissionQueue) : AdmissionOp → AdmissionReply × AdmissionQueue
  | .call cancellable now =>
      (.called q.calls.length, { q with
        calls := q.calls ++ [{
          deadline := now + q.admission.requestTimeout
          cancellable := cancellable
          calledAt := q.clock }]
        clock := q.clock + 1 })
  | .enter id disconnected now =>
      match q.calls[id]? with
      | some call =>
          if call.status = .called then
            let (turn, g) :=
              q.admission.turn call.deadline call.cancellable disconnected now q.state
            (.turned id turn, { q with
              state := g, calls := q.calls.set id (after q.clock call turn), clock := q.clock + 1 })
          else (.notEnabled, q)
      | none => (.notEnabled, q)
  | .wake id timedOut now disconnected now' =>
      match q.calls[id]? with
      | some call =>
          if call.waits then
            let (turn, g) := q.admission.resume call.deadline timedOut now call.cancellable
              disconnected now' q.state
            (.turned id turn, { q with
              state := g, calls := q.calls.set id (after q.clock call turn), clock := q.clock + 1 })
          else (.notEnabled, q)
      | none => (.notEnabled, q)
  | .drop id =>
      match q.calls[id]? with
      | some call =>
          if call.holds then
            (.dropped id, { q with
              state := q.state.dropPermit
              calls := q.calls.set id { call with status := .dropped }
              clock := q.clock + 1 })
          else (.notEnabled, q)
      | none => (.notEnabled, q)

/-- The number of live permits. -/
def permits (q : AdmissionQueue) : ℕ := q.calls.countP AdmissionCall.holds

/-- The number of calls inside the wait. -/
def waiters (q : AdmissionQueue) : ℕ := q.calls.countP AdmissionCall.waits

/-- The invariant: the counts under the lock are those of the calls, and within their
limits. -/
structure Inv (q : AdmissionQueue) : Prop where
  active_eq : q.state.active = q.permits
  active_le : q.state.active ≤ q.admission.maxActiveRequests
  waiting_eq : q.state.waiting = q.waiters
  waiting_le : q.state.waiting ≤ q.admission.maxPendingRequests
  unwaited : ∀ call ∈ q.calls, call.status = .called → call.waitingSince = none

variable {q q' : AdmissionQueue} {ops : List AdmissionOp}

/-- A list with one place changed, counted by its other places. -/
theorem countP_set_eq {α : Type} {l : List α} {i : ℕ} {x : α} (h : l[i]? = some x) (y : α)
    (p : α → Bool) :
    (l.set i y).countP p = (l.eraseIdx i).countP p + (if p y then 1 else 0) := by
  obtain ⟨hi, -⟩ := List.getElem?_eq_some_iff.mp h
  rw [List.set_eq_take_append_cons_drop, if_pos hi, List.eraseIdx_eq_take_drop_succ,
    List.countP_append, List.countP_append, List.countP_cons]
  omega

theorem countP_eq {α : Type} {l : List α} {i : ℕ} {x : α} (h : l[i]? = some x) (p : α → Bool) :
    l.countP p = (l.eraseIdx i).countP p + (if p x then 1 else 0) := by
  have hset := countP_set_eq h x p
  obtain ⟨hi, rfl⟩ := List.getElem?_eq_some_iff.mp h
  rwa [List.set_getElem_self] at hset

/-- The four ends of a turn. -/
theorem turn_cases (a : RequestAdmission) (deadline : ℕ) (cancellable disconnected : Bool)
    (now : ℕ) (g : AdmissionState) :
    a.turn deadline cancellable disconnected now g = (.returned (.ok none), g) ∨
    (g.active < a.maxActiveRequests ∧ a.turn deadline cancellable disconnected now g =
      (.returned (.ok (some {})), { g with active := g.active + 1 })) ∨
    (a.maxPendingRequests ≤ g.waiting ∧ a.turn deadline cancellable disconnected now g =
      (.returned (.error queueFull), g)) ∨
    (g.waiting < a.maxPendingRequests ∧ ∃ waitFor,
      a.turn deadline cancellable disconnected now g =
        (.waits waitFor, { g with waiting := g.waiting + 1 })) := by
  rw [RequestAdmission.turn]
  split
  · exact .inl rfl
  split
  case isTrue hlt => exact .inr (.inl ⟨hlt, rfl⟩)
  split
  case isTrue hfull => exact .inr (.inr (.inl ⟨hfull, rfl⟩))
  case isFalse hfree => exact .inr (.inr (.inr ⟨Nat.lt_of_not_le hfree, _, rfl⟩))

/-- A critical section, with the call it is about taken out of the counts: it times out,
or takes a turn. -/
structure Section (q : AdmissionQueue) (id : ℕ) (t : Turn) (call : AdmissionCall)
    (g₀ g : AdmissionState) : Prop where
  call_eq : q.calls[id]? = some call
  status : call.status = .called ∨ call.waits
  not_holds : call.holds = false
  active_eq : g₀.active = q.state.active
  waiting_eq : g₀.waiting + (if call.waits then 1 else 0) = q.state.waiting
  turn_eq : (t = .returned (.error queueTimeout) ∧ g = g₀) ∨
    ∃ disconnected now,
      q.admission.turn call.deadline call.cancellable disconnected now g₀ = (t, g)

theorem not_holds_of_waits {call : AdmissionCall} (h : call.waits) : call.holds = false := by
  rw [AdmissionCall.waits] at h
  rw [AdmissionCall.holds]
  split at h
  case h_1 heq => simp [heq]
  case h_2 => cases h

/-- Everything a step can do. -/
inductive Moves (q : AdmissionQueue) : AdmissionOp → AdmissionReply → AdmissionQueue → Prop
  | notEnabled (op : AdmissionOp) : Moves q op .notEnabled q
  | called (cancellable : Bool) (now : ℕ) :
      Moves q (.call cancellable now) (.called q.calls.length) { q with
        calls := q.calls ++ [{
          deadline := now + q.admission.requestTimeout
          cancellable := cancellable
          calledAt := q.clock }]
        clock := q.clock + 1 }
  | turned {op : AdmissionOp} {id : ℕ} {t : Turn} {call : AdmissionCall} {g₀ g : AdmissionState}
      (h : Section q id t call g₀ g) : Moves q op (.turned id t) { q with
        state := g, calls := q.calls.set id (after q.clock call t), clock := q.clock + 1 }
  | dropped {id : ℕ} {call : AdmissionCall} (hcall : q.calls[id]? = some call)
      (hholds : call.holds) : Moves q (.drop id) (.dropped id) { q with
        state := q.state.dropPermit
        calls := q.calls.set id { call with status := .dropped }
        clock := q.clock + 1 }

/-- A call inside the wait is counted. -/
theorem Inv.waiting_pos (h : q.Inv) {id : ℕ} {call : AdmissionCall}
    (hcall : q.calls[id]? = some call) (hwaits : call.waits) : 0 < q.state.waiting := by
  rw [h.waiting_eq, waiters, countP_eq hcall, if_pos hwaits]
  exact Nat.succ_pos _

/-- A live permit is counted. -/
theorem Inv.active_pos (h : q.Inv) {id : ℕ} {call : AdmissionCall}
    (hcall : q.calls[id]? = some call) (hholds : call.holds) : 0 < q.state.active := by
  rw [h.active_eq, permits, countP_eq hcall, if_pos hholds]
  exact Nat.succ_pos _

/-- **One step** is one of the moves. -/
theorem moves_step (h : q.Inv) (op : AdmissionOp) : Moves q op (q.step op).1 (q.step op).2 := by
  cases op with
  | call cancellable now => exact .called cancellable now
  | enter id disconnected now =>
      rw [step]
      cases hcall : q.calls[id]? with
      | none => exact .notEnabled _
      | some call =>
          dsimp only
          split
          case isFalse => exact .notEnabled _
          case isTrue hstatus =>
            have hwaits : call.waits = false := by rw [AdmissionCall.waits, hstatus]
            exact .turned {
              call_eq := hcall
              status := .inl hstatus
              not_holds := by rw [AdmissionCall.holds, hstatus]; rfl
              active_eq := rfl
              waiting_eq := by rw [hwaits]; rfl
              turn_eq := .inr ⟨disconnected, now, rfl⟩ }
  | wake id timedOut now disconnected now' =>
      rw [step]
      cases hcall : q.calls[id]? with
      | none => exact .notEnabled _
      | some call =>
          dsimp only
          split
          case isFalse => exact .notEnabled _
          case isTrue hwaits =>
            have hpos := h.waiting_pos hcall hwaits
            refine @Moves.turned _ _ id _ call { q.state with waiting := q.state.waiting - 1 } _ {
              call_eq := hcall
              status := .inr hwaits
              not_holds := not_holds_of_waits hwaits
              active_eq := rfl
              waiting_eq := by rw [if_pos hwaits]; exact Nat.sub_add_cancel hpos
              turn_eq := ?_ }
            rw [RequestAdmission.resume, if_pos hpos]
            dsimp only
            split
            · exact .inl ⟨rfl, rfl⟩
            · exact .inr ⟨disconnected, now', rfl⟩
  | drop id =>
      rw [step]
      cases hcall : q.calls[id]? with
      | none => exact .notEnabled _
      | some call =>
          dsimp only
          split
          case isFalse => exact .notEnabled _
          case isTrue hholds => exact .dropped hcall hholds

/-! ## The counts -/

/-- After a turn the call counts as what it became, and the counts stay in their limits. -/
theorem Section.counts {id : ℕ} {t : Turn} {call : AdmissionCall} {g₀ g : AdmissionState}
    (h : Section q id t call g₀ g) (hinv : q.Inv) :
    g.active = g₀.active + (if (after q.clock call t).holds then 1 else 0) ∧
      g.waiting = g₀.waiting + (if (after q.clock call t).waits then 1 else 0) ∧
      g.active ≤ q.admission.maxActiveRequests ∧ g.waiting ≤ q.admission.maxPendingRequests := by
  have hactive := hinv.active_le
  have hwaiting := hinv.waiting_le
  have hactive_eq := h.active_eq
  have hwaiting_eq := h.waiting_eq
  rcases h.turn_eq with ⟨rfl, rfl⟩ | ⟨disconnected, now, hturn⟩
  · simp only [after, AdmissionCall.holds, AdmissionCall.waits]
    simp
    omega
  · rcases turn_cases q.admission call.deadline call.cancellable disconnected now g₀ with
      heq | ⟨hlt, heq⟩ | ⟨hfull, heq⟩ | ⟨hfree, waitFor, heq⟩ <;>
      rw [hturn] at heq <;> obtain ⟨rfl, rfl⟩ := Prod.mk.inj heq
    all_goals
      simp only [after, AdmissionCall.holds, AdmissionCall.waits]
      simp
      omega

/-- **The step lemma.** -/
theorem inv_step (h : q.Inv) (op : AdmissionOp) : (q.step op).2.Inv := by
  have hm := moves_step h op
  generalize (q.step op).1 = reply at hm
  generalize (q.step op).2 = q' at hm
  cases hm with
  | notEnabled => exact h
  | called cancellable now =>
      refine ⟨?_, h.active_le, ?_, h.waiting_le, fun call hcall => ?_⟩
      · rw [permits, List.countP_append]
        exact h.active_eq
      · rw [waiters, List.countP_append]
        exact h.waiting_eq
      · rcases List.mem_append.mp hcall with hcall | hcall
        · exact h.unwaited call hcall
        · rw [List.mem_singleton.mp hcall]
          exact fun _ => rfl
  | @turned _ id t call g₀ g hs =>
      obtain ⟨hactive, hwaiting, hactive_le, hwaiting_le⟩ := hs.counts h
      have hpermits := h.active_eq
      have hwaiters := h.waiting_eq
      rw [permits, countP_eq hs.call_eq, hs.not_holds] at hpermits
      rw [waiters, countP_eq hs.call_eq] at hwaiters
      have hactive_eq := hs.active_eq
      have hwaiting_eq := hs.waiting_eq
      refine ⟨?_, hactive_le, ?_, hwaiting_le, fun call' hcall' hcalled => ?_⟩
      · rw [permits, countP_set_eq hs.call_eq]
        simp at hpermits
        show g.active = _
        omega
      · rw [waiters, countP_set_eq hs.call_eq]
        show g.waiting = _
        omega
      · rcases List.mem_or_eq_of_mem_set hcall' with hcall' | rfl
        · exact h.unwaited call' hcall' hcalled
        · rcases t with (e | _ | permit) | waitFor <;> cases hcalled
  | @dropped id call hcall hholds =>
      have hpos := h.active_pos hcall hholds
      have hpermits := h.active_eq
      have hwaiters := h.waiting_eq
      have hnot : call.waits = false := by
        cases hw : call.waits with
        | false => rfl
        | true => rw [not_holds_of_waits hw] at hholds; cases hholds
      rw [permits, countP_eq hcall, if_pos hholds] at hpermits
      rw [waiters, countP_eq hcall, hnot] at hwaiters
      have hle := h.active_le
      rw [AdmissionState.dropPermit, if_pos hpos]
      refine ⟨?_, ?_, ?_, h.waiting_le, fun call' hcall' hcalled => ?_⟩
      · rw [permits, countP_set_eq hcall]
        simp [AdmissionCall.holds]
        omega
      · exact Nat.le_trans (Nat.sub_le _ _) hle
      · rw [waiters, countP_set_eq hcall]
        simpa [AdmissionCall.waits] using hwaiters
      · rcases List.mem_or_eq_of_mem_set hcall' with hcall' | rfl
        · exact h.unwaited call' hcall' hcalled
        · cases hcalled

/-- An admission with no calls made. -/
def new (a : RequestAdmission) : AdmissionQueue := { admission := a }

theorem inv_new (a : RequestAdmission) : (new a).Inv :=
  ⟨rfl, Nat.zero_le _, rfl, Nat.zero_le _, by simp [new]⟩

theorem admission_step (h : q.Inv) (op : AdmissionOp) :
    (q.step op).2.admission = q.admission := by
  have hm := moves_step h op
  generalize (q.step op).1 = reply at hm
  generalize (q.step op).2 = q' at hm
  cases hm <;> rfl

theorem inv_exec (a : RequestAdmission) (ops : List AdmissionOp) :
    (Run.exec step (new a) ops).Inv ∧ (Run.exec step (new a) ops).admission = a := by
  have hstep : ∀ (q : AdmissionQueue) op, q.Inv ∧ q.admission = a → True →
      (q.step op).2.Inv ∧ (q.step op).2.admission = a :=
    fun q op h _ => ⟨inv_step h.1 op, (admission_step h.1 op).trans h.2⟩
  exact Run.exec_invariant hstep ⟨inv_new a, rfl⟩ (Run.each_true _ ops)

/-- What a step that ends a call leaves: the counts of the other calls, and one more
permit if that is what the call got.  A caller that waited never finds the queue full. -/
structure Leaves (q q' : AdmissionQueue) (id : ℕ)
    (result : Except HttpError (Option RequestPermit)) : Prop where
  active_eq : q'.state.active = (q.calls.eraseIdx id).countP AdmissionCall.holds +
    (if result = .ok (some {}) then 1 else 0)
  waiting_eq : q'.state.waiting = (q.calls.eraseIdx id).countP AdmissionCall.waits
  unwaited : result = .error queueFull →
    ∀ call, q.calls[id]? = some call → call.waitingSince = none

theorem leaves_of_returned (h : q.Inv) {op : AdmissionOp} {id : ℕ}
    {result : Except HttpError (Option RequestPermit)}
    (hreply : (q.step op).1 = .turned id (.returned result)) :
    Leaves q (q.step op).2 id result := by
  have hm := moves_step h op
  rw [hreply] at hm
  generalize (q.step op).2 = q' at hm
  cases hm with
  | @turned _ _ _ call g₀ g hs =>
      obtain ⟨hactive, hwaiting, -, -⟩ := hs.counts h
      have hpermits := h.active_eq
      have hwaiters := h.waiting_eq
      rw [permits, countP_eq hs.call_eq, hs.not_holds] at hpermits
      rw [waiters, countP_eq hs.call_eq] at hwaiters
      have hactive_eq := hs.active_eq
      have hwaiting_eq := hs.waiting_eq
      have hnot : (after q.clock call (.returned result)).waits = false := by
        rcases result with e | _ | permit <;> rfl
      have hholds : (after q.clock call (.returned result)).holds =
          decide (result = .ok (some {})) := by
        rcases result with e | _ | permit <;> simp [after, AdmissionCall.holds]
      rw [hnot] at hwaiting
      rw [hholds] at hactive
      simp only [decide_eq_true_eq] at hactive
      simp at hpermits hwaiting
      refine ⟨?_, ?_, fun hfull call' hcall' => ?_⟩
      · show g.active = _
        omega
      · show g.waiting = _
        omega
      · obtain rfl := Option.some.inj (hs.call_eq.symm.trans hcall')
        rcases hs.status with hcalled | hwaits
        · exact h.unwaited call (List.mem_of_getElem? hs.call_eq) hcalled
        -- a caller that waited was counted, so without it there is room to wait
        exfalso
        have hle := h.waiting_le
        rw [if_pos hwaits] at hwaiting_eq
        rcases hs.turn_eq with ⟨ht, -⟩ | ⟨disconnected, now, hturn⟩
        · rw [hfull] at ht
          exact absurd ht (by decide)
        · rcases turn_cases q.admission call.deadline call.cancellable disconnected now g₀ with
            heq | ⟨-, heq⟩ | ⟨hroom, heq⟩ | ⟨-, waitFor, heq⟩ <;>
            rw [hturn, hfull] at heq
          · simp at heq
          · simp at heq
          · omega
          · simp at heq

/-- **Admission keeps its counts.** In every state reached, whatever the calls, the
wake-ups, the clock and the order in which the lock is taken: the counts are those of the
calls and within their limits, a decrement finds something to take away, and a call that
returns leaves the counts of the others and its permit. -/
theorem admission_counts (a : RequestAdmission) (ops : List AdmissionOp) :
    let q := Run.exec step (new a) ops
    (q.state.active = q.permits ∧ q.state.active ≤ a.maxActiveRequests) ∧
    (q.state.waiting = q.waiters ∧ q.state.waiting ≤ a.maxPendingRequests) ∧
    (∀ (id : ℕ) (call : AdmissionCall), q.calls[id]? = some call →
      (call.waits → 0 < q.state.waiting) ∧ (call.holds → 0 < q.state.active)) ∧
    ∀ op id result, (q.step op).1 = .turned id (.returned result) →
      Leaves q (q.step op).2 id result := by
  intro q
  obtain ⟨h, hadmission⟩ : q.Inv ∧ q.admission = a := inv_exec a ops
  refine ⟨⟨h.active_eq, hadmission ▸ h.active_le⟩, ⟨h.waiting_eq, hadmission ▸ h.waiting_le⟩,
    fun id call hcall => ⟨h.waiting_pos hcall, h.active_pos hcall⟩,
    fun op id result hreply => leaves_of_returned h hreply⟩

/-! ## The order of the permits -/

/-- Call `i` is inside the wait, and first was there before call `j` was made. -/
def Ahead (q : AdmissionQueue) (i j : ℕ) : Prop :=
  ∃ call, q.calls[i]? = some call ∧ call.waits ∧
    ∃ since, call.waitingSince = some since ∧
      ∃ call', q.calls[j]? = some call' ∧ since < call'.calledAt

instance (q : AdmissionQueue) (i j : ℕ) : Decidable (q.Ahead i j) :=
  inferInstanceAs (Decidable (∃ call ∈ q.calls[i]?, call.waits ∧
    ∃ since ∈ call.waitingSince, ∃ call' ∈ q.calls[j]?, since < call'.calledAt))

/-- The call disconnected or timed out. -/
def GaveUp (q : AdmissionQueue) (i : ℕ) : Prop :=
  ∃ call, q.calls[i]? = some call ∧
    (call.status = .refused (.ok none) ∨ call.status = .refused (.error queueTimeout))

/-- First in, first out: over a run, a call gets a permit only when every call ahead of
it is one that will disconnect or time out. -/
def Fifo (q : AdmissionQueue) (ops : List AdmissionOp) : Prop :=
  ∀ pre op post j, ops = pre ++ op :: post →
    ((Run.exec step q pre).step op).1 = .turned j (.returned (.ok (some {}))) →
    ∀ i, (Run.exec step q pre).Ahead i j → (Run.exec step q ops).GaveUp i

/-- The schedule takes waiters in order: a call that takes the lock while a permit is
free has no call ahead of it. -/
def InOrder (q : AdmissionQueue) : AdmissionOp → Prop
  | .enter id _ _ | .wake id _ _ _ _ =>
      q.state.active < q.admission.maxActiveRequests → ∀ i < q.calls.length, ¬ q.Ahead i id
  | _ => True

instance (q : AdmissionQueue) : DecidablePred q.InOrder
  | .call _ _ | .drop _ => .isTrue trivial
  | .enter id _ _ | .wake id _ _ _ _ =>
      inferInstanceAs (Decidable (q.state.active < q.admission.maxActiveRequests →
        ∀ i < q.calls.length, ¬ q.Ahead i id))

/-- A permit is given by a section that finds one free. -/
theorem permit_cases {op : AdmissionOp} {j : ℕ}
    (hreply : (q.step op).1 = .turned j (.returned (.ok (some {})))) :
    q.state.active < q.admission.maxActiveRequests ∧
      ((∃ disconnected now, op = .enter j disconnected now) ∨
        ∃ timedOut now disconnected now', op = .wake j timedOut now disconnected now') := by
  have hfree : ∀ {deadline : ℕ} {cancellable disconnected : Bool} {now : ℕ} {g : AdmissionState},
      (q.admission.turn deadline cancellable disconnected now g).1 =
        .returned (.ok (some {})) → g.active < q.admission.maxActiveRequests := by
    intro deadline cancellable disconnected now g hturn
    rcases turn_cases q.admission deadline cancellable disconnected now g with
      heq | ⟨hlt, -⟩ | ⟨-, heq⟩ | ⟨-, waitFor, heq⟩
    · rw [heq] at hturn
      cases hturn
    · exact hlt
    · rw [heq] at hturn
      cases hturn
    · rw [heq] at hturn
      cases hturn
  cases op with
  | call cancellable now => cases hreply
  | enter id disconnected now =>
      rw [step] at hreply
      split at hreply
      case h_2 => cases hreply
      split at hreply
      case isFalse => cases hreply
      obtain ⟨hid, hturn⟩ := AdmissionReply.turned.inj hreply
      exact ⟨hfree hturn, .inl ⟨disconnected, now, hid ▸ rfl⟩⟩
  | wake id timedOut now disconnected now' =>
      rw [step] at hreply
      split at hreply
      case h_2 => cases hreply
      split at hreply
      case isFalse => cases hreply
      obtain ⟨hid, hturn⟩ := AdmissionReply.turned.inj hreply
      refine ⟨?_, .inr ⟨timedOut, now, disconnected, now', hid ▸ rfl⟩⟩
      rw [RequestAdmission.resume] at hturn
      split at hturn
      · cases hturn
      · have hlt := hfree hturn
        split at hlt <;> exact hlt
  | drop id =>
      rw [step] at hreply
      split at hreply
      case h_2 => cases hreply
      split at hreply <;> cases hreply

/-- Waiters taken in order get their permits in order. -/
theorem fifo_of_inOrder (h : Run.Each step InOrder q ops) : Fifo q ops := by
  rintro pre op post j rfl hreply i hahead
  have hok := h.at
  obtain ⟨hlt, hop⟩ := permit_cases hreply
  obtain ⟨call, hcall, -⟩ := id hahead
  have hi := (List.getElem?_eq_some_iff.mp hcall).1
  rcases hop with ⟨disconnected, now, rfl⟩ | ⟨timedOut, now, disconnected, now', rfl⟩
  · exact absurd hahead (hok hlt i hi)
  · exact absurd hahead (hok hlt i hi)

/-- A call without a disconnect flag that takes the lock at once. -/
def arrive (id : ℕ) : List AdmissionOp := [.call false 0, .enter id false 0]

/-- The call `arrive` makes, in the place its turn puts it. -/
def arrived (q : AdmissionQueue) (waitingSince : Option ℕ) (status : CallStatus) :
    AdmissionCall :=
  ⟨0 + q.admission.requestTimeout, false, q.clock, waitingSince, status⟩

/-- With a permit free an arrival takes it, whoever waits. -/
theorem exec_arrive_free (h : q.state.active < q.admission.maxActiveRequests) :
    Run.exec step q (arrive q.calls.length) = { q with
      state := { q.state with active := q.state.active + 1 }
      calls := q.calls ++ [q.arrived none .holding]
      clock := q.clock + 2 } := by
  simp [arrive, arrived, step, RequestAdmission.turn, h, after]

/-- With no permit free and room to wait, an arrival waits. -/
theorem exec_arrive_full (h : q.admission.maxActiveRequests ≤ q.state.active)
    (hroom : q.state.waiting < q.admission.maxPendingRequests) :
    Run.exec step q (arrive q.calls.length) = { q with
      state := { q.state with waiting := q.state.waiting + 1 }
      calls := q.calls ++ [q.arrived (some (q.clock + 1))
        (.waiting (q.admission.requestTimeout - 0))]
      clock := q.clock + 2 } := by
  simp [arrive, arrived, step, RequestAdmission.turn, Nat.not_lt.mpr h, Nat.not_le.mpr hroom,
    after]

/-- Calls that arrive one after another fill the slots. -/
theorem exists_filled (a : RequestAdmission) : ∀ n ≤ a.maxActiveRequests, ∃ ops,
    let q := Run.exec step (new a) ops
    q.admission = a ∧ q.state = ⟨n, 0⟩ ∧ q.calls.length = n ∧ ∀ call ∈ q.calls, call.holds
  | 0, _ => ⟨[], rfl, rfl, rfl, by simp [new]⟩
  | n + 1, hn => by
      obtain ⟨ops, hadmission, hstate, hlength, hholds⟩ :=
        exists_filled a n (Nat.le_of_succ_le hn)
      generalize hq : Run.exec step (new a) ops = q at hadmission hstate hlength hholds
      have hfree : q.state.active < q.admission.maxActiveRequests := by
        rw [hstate, hadmission]
        exact hn
      refine ⟨ops ++ arrive q.calls.length, ?_⟩
      rw [Run.exec_append, hq, exec_arrive_free hfree]
      refine ⟨hadmission, by simp [hstate], by simp [hlength], fun call hcall => ?_⟩
      rcases List.mem_append.mp hcall with hcall | hcall
      · exact hholds call hcall
      · rw [List.mem_singleton.mp hcall]
        rfl

/-- A permit of the oldest call is dropped. -/
theorem exec_drop_zero {call : AdmissionCall} (hcall : q.calls[0]? = some call)
    (hholds : call.holds) :
    Run.exec step q [.drop 0] = { q with
      state := q.state.dropPermit
      calls := q.calls.set 0 { call with status := .dropped }
      clock := q.clock + 1 } := by
  simp [step, hcall, hholds]

/-- Where calls can both wait and be served, some schedule serves a call before one that
was waiting when it was made: the slots fill, a call waits, a permit is dropped, and the
next call takes it before the waiter wakes. -/
theorem exists_overtaking (a : RequestAdmission) (hpending : 0 < a.maxPendingRequests)
    (hactive : 0 < a.maxActiveRequests) : ∃ ops, ¬ Fifo (new a) ops := by
  obtain ⟨filled, hadmission, hstate, hlength, hholds⟩ := exists_filled a _ (Nat.le_refl _)
  generalize hq : Run.exec step (new a) filled = q at hadmission hstate hlength hholds
  have hfull : q.admission.maxActiveRequests ≤ q.state.active :=
    Nat.le_of_eq (by rw [hadmission, hstate])
  have hroom : q.state.waiting < q.admission.maxPendingRequests := by
    rwa [hadmission, hstate]
  have hpos : 0 < q.calls.length := hlength ▸ hactive
  let holder := q.calls[0]
  let waiter := q.arrived (some (q.clock + 1)) (.waiting (q.admission.requestTimeout - 0))
  let newcomer : AdmissionCall := ⟨0 + a.requestTimeout, false, q.clock + 3, none, .called⟩
  let calls := (q.calls ++ [waiter]).set 0 { holder with status := .dropped }
  have hcalls : calls.length = q.calls.length + 1 := by simp [calls]
  -- the state in which the newcomer wants the lock
  have hq' : Run.exec step (new a)
      (filled ++ arrive q.calls.length ++ [.drop 0] ++ [.call false 0]) =
      ⟨a, ⟨a.maxActiveRequests - 1, 1⟩, calls ++ [newcomer], q.clock + 4⟩ := by
    have hzero : (q.calls ++ [waiter])[0]? = some holder := by
      rw [List.getElem?_append_left hpos]
      exact List.getElem?_eq_getElem hpos
    rw [Run.exec_append, Run.exec_append, Run.exec_append, hq, exec_arrive_full hfull hroom,
      exec_drop_zero hzero (hholds _ (List.getElem_mem hpos))]
    simp [step, hstate, hadmission, AdmissionState.dropPermit, hactive, newcomer, calls, waiter,
      holder]
  have hwaiter : (calls ++ [newcomer])[q.calls.length]? = some waiter := by
    rw [List.getElem?_append_left (by omega), List.getElem?_set_ne (by omega)]
    simp
  have hnewcomer : (calls ++ [newcomer])[q.calls.length + 1]? = some newcomer := by
    rw [List.getElem?_append_right (by omega), hcalls]
    simp
  have hfree : a.maxActiveRequests - 1 < a.maxActiveRequests := Nat.sub_lt hactive Nat.one_pos
  have hreply : (step ⟨a, ⟨a.maxActiveRequests - 1, 1⟩, calls ++ [newcomer], q.clock + 4⟩
      (.enter (q.calls.length + 1) false 0)).1 =
        .turned (q.calls.length + 1) (.returned (.ok (some {}))) := by
    simp only [step, hnewcomer]
    simp [newcomer, RequestAdmission.turn, hfree]
  refine ⟨filled ++ arrive q.calls.length ++ [.drop 0] ++ [.call false 0] ++
    [.enter (q.calls.length + 1) false 0], fun hfifo => ?_⟩
  obtain ⟨call, hcall, hgave⟩ := hfifo _ _ [] (q.calls.length + 1) rfl (hq' ▸ hreply)
    q.calls.length (hq' ▸ ⟨waiter, hwaiter, rfl, q.clock + 1, rfl, newcomer, hnewcomer,
      Nat.lt_add_of_pos_right Nat.two_pos⟩)
  -- the waiter still waits
  rw [Run.exec_append, hq'] at hcall
  simp only [Run.exec_cons, Run.exec_nil, step, hnewcomer] at hcall
  simp only [newcomer, if_true] at hcall
  rw [List.getElem?_set_ne (by omega), hwaiter] at hcall
  obtain rfl := Option.some.inj hcall
  rcases hgave with hgave | hgave <;> cases hgave

/-- Which admissions serve every schedule in order, and on the others, which schedules do. -/
theorem fifo_iff (a : RequestAdmission) :
    (∀ ops, Run.Each step InOrder (new a) ops → Fifo (new a) ops) ∧
    ((∀ ops, Fifo (new a) ops) ↔ a.maxPendingRequests = 0 ∨ a.maxActiveRequests = 0) := by
  refine ⟨fun ops h => fifo_of_inOrder h, fun h => ?_, fun h ops => ?_⟩
  · by_contra hne
    obtain ⟨hpending, hactive⟩ := not_or.mp hne
    obtain ⟨ops, hnot⟩ :=
      exists_overtaking a (Nat.pos_of_ne_zero hpending) (Nat.pos_of_ne_zero hactive)
    exact hnot (h ops)
  · rintro pre op post j rfl hreply i hahead
    obtain ⟨hinv, hadmission⟩ := inv_exec a pre
    obtain ⟨call, hcall, hwaits, -⟩ := hahead
    have hlt := (permit_cases hreply).1
    have hpos := hinv.waiting_pos hcall hwaits
    have hle := hinv.waiting_le
    rw [hadmission] at hlt hle
    omega

/-- One slot: the first call holds it, the second waits, the slot is freed, and the third
call, made while the second waits, is served before it. -/
theorem newcomer_overtakes :
    ¬ Fifo (new ⟨64, 1, 300000⟩)
      (arrive 0 ++ arrive 1 ++ [.drop 0, .call false 10, .enter 2 false 10, .drop 2,
        .wake 1 false 60 false 60]) := by
  intro hfifo
  obtain ⟨call, hcall, hgave⟩ := hfifo (arrive 0 ++ arrive 1 ++ [.drop 0, .call false 10])
    (.enter 2 false 10) [.drop 2, .wake 1 false 60 false 60] 2 rfl rfl 1 (by decide)
  obtain rfl := Option.some.inj hcall
  rcases hgave with hgave | hgave <;> cases hgave

/-- The same calls, with the waiter taking the lock before the newcomer. -/
theorem waiter_first :
    let ops := arrive 0 ++ arrive 1 ++ [.drop 0, .call false 10, .wake 1 false 10 false 10,
      .enter 2 false 10, .drop 1, .wake 2 false 60 false 60]
    Run.Each step InOrder (new ⟨64, 1, 300000⟩) ops ∧ Fifo (new ⟨64, 1, 300000⟩) ops := by
  have hops : Run.Each step InOrder (new ⟨64, 1, 300000⟩)
      (arrive 0 ++ arrive 1 ++ [.drop 0, .call false 10, .wake 1 false 10 false 10,
        .enter 2 false 10, .drop 1, .wake 2 false 60 false 60]) := by decide
  exact ⟨hops, (fifo_iff _).1 _ hops⟩

end AdmissionQueue
end MlxRuntime
