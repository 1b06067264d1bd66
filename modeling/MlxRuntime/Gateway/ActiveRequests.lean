import MlxRuntime.Gateway.Admission
import MlxRuntime.Gateway.Telemetry
import Mathlib.Algebra.GroupWithZero.Nat
import Mathlib.Data.List.Induction

/-!
# The gauge of active requests

Handlers that hold a permit make one tracker each, any thread that has the tracker calls
`finish`, the handler drops it and then its permit.  `benchmark_reset_response` asks the
admission whether it is idle, then the worker, and then clears the counters.  Every atomic
operation on a counter, on `finished` and on the admission is one step, and the steps of all
threads interleave.

## Main definitions

* `ActiveRequests`, `TelemetryOp`, `ActiveRequests.step` — the gateway under any interleaving.
* `ActiveRequests.inProgress` — the trackers that are not finished.
* `ActiveRequests.StoresIdle` — the reset clears the gauge while no request is in progress.
* `ActiveRequests.Inv` — the gauge is the number of these trackers.
-/

namespace MlxRuntime

/-- Where a tracker is: in `new`, between `new` and its drop, in its drop, or gone.  `new` and
the drop have the operations that they still have to run. -/
inductive TrackerPlace
  | constructing (rest : List MetricOp)
  | live
  | dropping (rest : List MetricOp)
  | dropped
  deriving DecidableEq, Repr

/-- A tracker of the request with a permit; `finishing` is what is left of the call of
`finish` that was the first. -/
structure Tracker where
  permit : ℕ
  place : TrackerPlace
  finished : Bool := false
  finishing : List MetricOp := []
  deriving DecidableEq, Repr

namespace Tracker

/-- The `swap` of a call of `finish`. -/
def swap (outcome : RequestOutcome) (t : Tracker) : Tracker :=
  if t.finished then t else { t with finished := true, finishing := finishOps outcome }

/-- The operation is on the gauge. -/
def onGauge (op : MetricOp) : Bool := op.metric = .requestsActive

/-- The tracker is counted: its `new` has counted it, and no `finish` or drop has taken it
out again. -/
def inProgress (t : Tracker) : Bool :=
  match t.place with
  | .constructing rest => !rest.any onGauge
  | .live => !t.finished || t.finishing.any onGauge
  | .dropping rest => rest.any onGauge
  | .dropped => false

/-- The tracker is alive, and `finish` was not called. -/
def unfinished (t : Tracker) : Bool := t.place = .live && !t.finished

/-- The tracker is in the middle of nothing. -/
def resting (t : Tracker) : Bool :=
  (t.place = .live || t.place = .dropped) && t.finishing.isEmpty

end Tracker

/-- Where a call of `benchmark_reset_response` is: it was refused, waits for the worker, or
clears the counters. -/
inductive ResetPlace
  | refused
  | asking (resetCounters : Bool)
  | storing (rest : List MetricOp)
  deriving DecidableEq, Repr

/-- The admission, the counters, and every tracker and reset that there was. -/
structure ActiveRequests where
  admission : AdmissionQueue
  metrics : MetricsRegistry := {}
  trackers : List Tracker := []
  resets : List ResetPlace := []

/-- The steps: of the admission, of trackers and of resets. -/
inductive TelemetryOp
  | admission (op : AdmissionOp)
  | new (permit : ℕ) (isVlm : Bool) (imageCount : UInt64)
  | next (id : ℕ)
  | finish (id : ℕ) (outcome : RequestOutcome)
  | finishNext (id : ℕ)
  | drop (id : ℕ)
  | reset (resetCounters : Bool)
  | answer (id : ℕ) (answered : Bool)
  | resetNext (id : ℕ)
  deriving DecidableEq

namespace ActiveRequests

/-- Nothing happened yet. -/
def start (a : RequestAdmission) : ActiveRequests where
  admission := AdmissionQueue.new a

/-- The permit of a tracker is dropped only after the tracker. -/
def Tracking (s : ActiveRequests) : AdmissionOp → Prop
  | .drop permit => ∃ t ∈ s.trackers, t.permit = permit ∧ t.place ≠ .dropped
  | _ => False

instance (s : ActiveRequests) (op : AdmissionOp) : Decidable (s.Tracking op) := by
  unfold Tracking
  split <;> infer_instance

/-- The call with this permit holds it, and has no tracker. -/
def MayTrack (s : ActiveRequests) (permit : ℕ) : Prop :=
  (s.admission.calls[permit]?.any AdmissionCall.holds) = true ∧
    ∀ t ∈ s.trackers, t.permit ≠ permit

instance (s : ActiveRequests) (permit : ℕ) : Decidable (s.MayTrack permit) :=
  inferInstanceAs (Decidable (_ ∧ _))

/-- A tracker with its next operation run, `constructor` and `drop` going on. -/
def stepPlace (s : ActiveRequests) (id : ℕ) (t : Tracker) : Option ActiveRequests :=
  match t.place with
  | .constructing (op :: rest) => some { s with
      metrics := op.run s.metrics
      trackers := s.trackers.set id { t with place := .constructing rest } }
  | .constructing [] => some { s with trackers := s.trackers.set id { t with place := .live } }
  | .dropping (op :: rest) => some { s with
      metrics := op.run s.metrics
      trackers := s.trackers.set id { t with place := .dropping rest } }
  | .dropping [] => some { s with trackers := s.trackers.set id { t with place := .dropped } }
  | .live | .dropped => none

/-- The next operation of the call of `finish` that was the first. -/
def stepFinish (s : ActiveRequests) (id : ℕ) (t : Tracker) : Option ActiveRequests :=
  match t.finishing with
  | op :: rest => some { s with
      metrics := op.run s.metrics, trackers := s.trackers.set id { t with finishing := rest } }
  | [] => none

/-- The idle check of a reset. -/
def checkIdle (s : ActiveRequests) (resetCounters : Bool) : ResetPlace :=
  if s.admission.state.active ≠ 0 ∨ s.admission.state.waiting ≠ 0 then .refused
  else .asking resetCounters

/-- What a reset does with the answer of the worker. -/
def afterAnswer (answered resetCounters : Bool) : ResetPlace :=
  .storing (if answered && resetCounters then resetOps else [])

/-- A step, where it is enabled. -/
def step? (s : ActiveRequests) : TelemetryOp → Option ActiveRequests
  | .admission op =>
      if s.Tracking op then none else some { s with admission := (s.admission.step op).2 }
  | .new permit isVlm imageCount =>
      if s.MayTrack permit then some { s with
        trackers := s.trackers ++ [⟨permit, .constructing (newOps isVlm imageCount), false, []⟩] }
      else none
  | .next id => s.trackers[id]?.bind fun t => s.stepPlace id t
  | .finish id outcome => s.trackers[id]?.bind fun t =>
      if t.place = .live then some { s with trackers := s.trackers.set id (t.swap outcome) }
      else none
  | .finishNext id => s.trackers[id]?.bind fun t => s.stepFinish id t
  | .drop id => s.trackers[id]?.bind fun t =>
      if t.place = .live ∧ t.finishing = [] then some { s with
        trackers := s.trackers.set id { t with place := .dropping (dropOps t.finished) } }
      else none
  | .reset resetCounters => some { s with resets := s.resets ++ [s.checkIdle resetCounters] }
  | .answer id answered => s.resets[id]?.bind fun
      | .asking resetCounters => some { s with
          resets := s.resets.set id (afterAnswer answered resetCounters) }
      | .refused | .storing _ => none
  | .resetNext id => s.resets[id]?.bind fun
      | .storing (op :: rest) => some { s with
          metrics := op.run s.metrics, resets := s.resets.set id (.storing rest) }
      | .refused | .asking _ | .storing [] => none

/-- A step, answered with whether it was enabled. -/
def step (s : ActiveRequests) (op : TelemetryOp) : Bool × ActiveRequests :=
  match s.step? op with
  | some s' => (true, s')
  | none => (false, s)

/-- `requests_active`. -/
def requestsActive (s : ActiveRequests) : UInt64 := s.metrics.counters .requestsActive

/-- The number of trackers that are not finished. -/
def inProgress (s : ActiveRequests) : ℕ := s.trackers.countP Tracker.inProgress

/-- The next operation that a step of a tracker runs. -/
def nextOp (s : ActiveRequests) : TelemetryOp → Option MetricOp
  | .next id => s.trackers[id]?.bind fun t =>
      match t.place with
      | .constructing rest | .dropping rest => rest.head?
      | .live | .dropped => none
  | .finishNext id => s.trackers[id]?.bind fun t => t.finishing.head?
  | .resetNext id => s.resets[id]?.bind fun
      | .storing rest => rest.head?
      | .refused | .asking _ => none
  | _ => none

/-- A reset clears the gauge only while no request is in progress. -/
def StoresIdle (s : ActiveRequests) (op : TelemetryOp) : Prop :=
  s.nextOp op = some (.store .requestsActive 0) → s.inProgress = 0

instance (s : ActiveRequests) (op : TelemetryOp) : Decidable (s.StoresIdle op) :=
  inferInstanceAs (Decidable (_ → _))

/-! ## Operations on the gauge -/

/-- Of operations to come, at most one is on the gauge, and it is this one. -/
def Pends (op : MetricOp) (rest : List MetricOp) : Prop :=
  rest.filter Tracker.onGauge = [] ∨ rest.filter Tracker.onGauge = [op]

/-- The gauge goes with the number of counted trackers, of which one is at stake. -/
def Balanced (counted counted' : Bool) (gauge gauge' : UInt64) : Prop :=
  ∀ others, gauge = UInt64.ofNat (others + counted.toNat) →
    gauge' = UInt64.ofNat (others + counted'.toNat)

variable {s : ActiveRequests}

theorem Balanced.rfl {counted : Bool} {gauge : UInt64} : Balanced counted counted gauge gauge :=
  fun _ h => h

theorem Balanced.add (gauge : UInt64) : Balanced false true gauge (gauge + 1) := by
  intro others h
  rw [h, Bool.toNat_false, Bool.toNat_true, Nat.add_zero, UInt64.ofNat_add]
  rfl

theorem Balanced.sub (gauge : UInt64) : Balanced true false gauge (gauge - 1) := by
  intro others h
  rw [h, Bool.toNat_false, Bool.toNat_true, Nat.add_zero, UInt64.ofNat_add]
  exact UInt64.add_sub_cancel ..

theorem any_onGauge {rest : List MetricOp} :
    rest.any Tracker.onGauge = false ↔ rest.filter Tracker.onGauge = [] := by
  simp [List.filter_eq_nil_iff]

/-- The first operation to come is the one on the gauge, or not on the gauge. -/
theorem Pends.cases {op head : MetricOp} {rest : List MetricOp} (h : Pends op (head :: rest)) :
    (head = op ∧ (head :: rest).any Tracker.onGauge = true ∧
      rest.any Tracker.onGauge = false ∧ Pends op rest) ∨
    (head.metric ≠ .requestsActive ∧
      (head :: rest).any Tracker.onGauge = rest.any Tracker.onGauge ∧ Pends op rest) := by
  by_cases hhead : Tracker.onGauge head = true
  · have hfilter : (head :: rest).filter Tracker.onGauge =
        head :: rest.filter Tracker.onGauge := List.filter_cons_of_pos hhead
    rw [Pends, hfilter] at h
    rcases h with h | h
    · cases h
    · obtain ⟨rfl, hrest⟩ := List.cons.inj h
      exact .inl ⟨rfl, by simp [hhead], any_onGauge.mpr hrest, .inl hrest⟩
  · rw [Pends, List.filter_cons_of_neg hhead] at h
    refine .inr ⟨?_, by simp [hhead], h⟩
    intro hmetric
    exact hhead (decide_eq_true hmetric)

/-- An operation of a tracker that is not on the gauge leaves it. -/
theorem balanced_of_ne {op : MetricOp} (h : op.metric ≠ .requestsActive) (counted : Bool) :
    Balanced counted counted s.requestsActive ((op.run s.metrics).counters .requestsActive) := by
  rw [MetricOp.counters_run_of_ne h]
  exact Balanced.rfl

theorem pends_newOps (isVlm : Bool) (imageCount : UInt64) :
    (newOps isVlm imageCount).filter Tracker.onGauge = [.fetchAdd .requestsActive 1] := by
  rw [newOps]
  split
  · split <;> rfl
  · rfl

theorem pends_finishOps (outcome : RequestOutcome) :
    (finishOps outcome).filter Tracker.onGauge = [.fetchSub .requestsActive 1] := by
  rw [finishOps]
  split <;> split <;> rfl

/-! ## The invariant -/

/-- What a tracker has still to do. -/
def TrackerInv (t : Tracker) : Prop :=
  match t.place with
  | .constructing rest => t.finished = false ∧ t.finishing = [] ∧
      Pends (.fetchAdd .requestsActive 1) rest
  | .live => (t.finished = false → t.finishing = []) ∧
      Pends (.fetchSub .requestsActive 1) t.finishing
  | .dropping rest => t.finishing = [] ∧ Pends (.fetchSub .requestsActive 1) rest
  | .dropped => t.finishing = []

/-- The gauge is the number of the counted trackers, each under a permit of its own. -/
structure Inv (s : ActiveRequests) : Prop where
  admission : s.admission.Inv
  gauge : s.requestsActive = UInt64.ofNat s.inProgress
  tracker : ∀ t ∈ s.trackers, TrackerInv t
  nodup : (s.trackers.map Tracker.permit).Nodup
  holds : ∀ t ∈ s.trackers, t.place ≠ .dropped →
    (s.admission.calls[t.permit]?.any AdmissionCall.holds) = true
  resets : ∀ rest, .storing rest ∈ s.resets → ∀ op ∈ rest, ∃ m, op = .store m 0

theorem inv_start (a : RequestAdmission) : (start a).Inv where
  admission := AdmissionQueue.inv_new a
  gauge := rfl
  tracker := by simp [start]
  nodup := List.nodup_nil
  holds := by simp [start]
  resets := by simp [start]

/-- A step of one tracker. -/
theorem Inv.setTracker (h : s.Inv) {id : ℕ} {t t' : Tracker} {metrics : MetricsRegistry}
    (ht : s.trackers[id]? = some t) (hpermit : t'.permit = t.permit) (hinv : TrackerInv t')
    (hplace : t.place ≠ .dropped)
    (hgauge : Balanced t.inProgress t'.inProgress s.requestsActive
      (metrics.counters .requestsActive)) :
    Inv { s with metrics := metrics, trackers := s.trackers.set id t' } := by
  have hmem : t ∈ s.trackers := List.mem_of_getElem? ht
  refine ⟨h.admission, ?_, ?_, ?_, ?_, h.resets⟩
  · have hcount := AdmissionQueue.countP_eq ht Tracker.inProgress
    have hcount' := AdmissionQueue.countP_set_eq ht t' Tracker.inProgress
    have hif : ∀ b : Bool, (if b = true then 1 else 0) = b.toNat := by decide
    rw [hif] at hcount hcount'
    show metrics.counters .requestsActive = UInt64.ofNat ((s.trackers.set id t').countP _)
    rw [hcount']
    refine hgauge _ ?_
    rw [h.gauge, inProgress, hcount]
  · intro x hx
    rcases List.mem_or_eq_of_mem_set hx with hx | rfl
    · exact h.tracker x hx
    · exact hinv
  · have hmap : (s.trackers.set id t').map Tracker.permit = s.trackers.map Tracker.permit := by
      rw [List.map_set, hpermit]
      refine List.ext_getElem? fun i => ?_
      rw [List.getElem?_set]
      split
      case isTrue hi =>
        subst hi
        rw [List.getElem?_map, ht]
        simp [(List.getElem?_eq_some_iff.mp ht).1]
      case isFalse => rfl
    show ((s.trackers.set id t').map Tracker.permit).Nodup
    rw [hmap]
    exact h.nodup
  · intro x hx hx'
    rcases List.mem_or_eq_of_mem_set hx with hx | rfl
    · exact h.holds x hx hx'
    · rw [hpermit]
      exact h.holds t hmem hplace

/-! ## The steps -/

/-- A permit is held until its drop. -/
theorem holds_admission {q : AdmissionQueue} (h : q.Inv) {op : AdmissionOp} {permit : ℕ}
    (hholds : (q.calls[permit]?.any AdmissionCall.holds) = true) (hop : op ≠ .drop permit) :
    ((q.step op).2.calls[permit]?.any AdmissionCall.holds) = true := by
  obtain ⟨call, hcall, hcalled⟩ : ∃ call, q.calls[permit]? = some call ∧ call.holds = true := by
    cases hcall : q.calls[permit]? with
    | none => rw [hcall] at hholds; cases hholds
    | some call => exact ⟨call, rfl, by rwa [hcall] at hholds⟩
  have hlt := (List.getElem?_eq_some_iff.mp hcall).1
  have hm := AdmissionQueue.moves_step h op
  generalize (q.step op).1 = reply at hm
  generalize (q.step op).2 = q' at hm
  cases hm with
  | notEnabled => exact hholds
  | called cancellable now =>
    rw [List.getElem?_append_left hlt]
    exact hholds
  | @turned _ id t call' g₀ g hsection =>
    have hne : id ≠ permit := by
      rintro rfl
      obtain rfl := Option.some.inj (hcall.symm.trans hsection.call_eq)
      exact absurd hcalled (by rw [hsection.not_holds]; decide)
    rw [List.getElem?_set_ne hne]
    exact hholds
  | @dropped id call' hcall' hholds' =>
    have hne : id ≠ permit := by
      rintro rfl
      exact hop rfl
    rw [List.getElem?_set_ne hne]
    exact hholds

theorem Inv.admissionStep (h : s.Inv) {op : AdmissionOp} (hop : ¬ s.Tracking op) :
    Inv { s with admission := (s.admission.step op).2 } where
  admission := AdmissionQueue.inv_step h.admission op
  gauge := h.gauge
  tracker := h.tracker
  nodup := h.nodup
  holds t ht hplace := by
    refine holds_admission h.admission (h.holds t ht hplace) ?_
    rintro rfl
    exact hop ⟨t, ht, rfl, hplace⟩
  resets := h.resets

theorem Inv.new (h : s.Inv) {permit : ℕ} (hmay : s.MayTrack permit) (isVlm : Bool)
    (imageCount : UInt64) :
    Inv { s with trackers := s.trackers ++ [⟨permit, .constructing (newOps isVlm imageCount),
      false, []⟩] } := by
  refine ⟨h.admission, ?_, ?_, ?_, ?_, h.resets⟩
  · have hany : (newOps isVlm imageCount).any Tracker.onGauge = true := by
      rw [newOps]
      rfl
    show s.requestsActive = _
    rw [h.gauge, inProgress, inProgress, List.countP_append, List.countP_singleton]
    simp [Tracker.inProgress, hany]
  · intro t ht
    rcases List.mem_append.mp ht with ht | ht
    · exact h.tracker t ht
    · obtain rfl := List.mem_singleton.mp ht
      exact ⟨rfl, rfl, .inr (pends_newOps isVlm imageCount)⟩
  · rw [List.map_append, List.map_singleton, List.nodup_append]
    refine ⟨h.nodup, List.nodup_singleton _, ?_⟩
    intro i hi j hj
    obtain ⟨t, ht, rfl⟩ := List.mem_map.mp hi
    obtain rfl := List.mem_singleton.mp hj
    exact hmay.2 t ht
  · intro t ht hplace
    rcases List.mem_append.mp ht with ht | ht
    · exact h.holds t ht hplace
    · obtain rfl := List.mem_singleton.mp ht
      exact hmay.1

theorem Inv.next (h : s.Inv) {id : ℕ} {t : Tracker} {s' : ActiveRequests}
    (ht : s.trackers[id]? = some t) (hstep : s.stepPlace id t = some s') : s'.Inv := by
  obtain ⟨permit, place, finished, finishing⟩ := t
  have hinv := h.tracker _ (List.mem_of_getElem? ht)
  cases place with
  | constructing rest =>
    obtain ⟨rfl, rfl, hpends⟩ := hinv
    cases rest with
    | nil =>
      obtain rfl := Option.some.inj hstep
      exact h.setTracker ht rfl ⟨fun _ => rfl, .inl rfl⟩ (by simp) Balanced.rfl
    | cons op rest =>
      obtain rfl := Option.some.inj hstep
      rcases hpends.cases with ⟨rfl, hcons, hrest, hpends⟩ | ⟨hne, hany, hpends⟩
      · refine h.setTracker ht rfl ⟨rfl, rfl, hpends⟩ (by simp) ?_
        rw [Tracker.inProgress, Tracker.inProgress]
        dsimp only
        rw [hcons, hrest]
        exact Balanced.add _
      · refine h.setTracker ht rfl ⟨rfl, rfl, hpends⟩ (by simp) ?_
        rw [Tracker.inProgress, Tracker.inProgress]
        dsimp only
        rw [hany]
        exact balanced_of_ne hne _
  | dropping rest =>
    obtain ⟨rfl, hpends⟩ := hinv
    cases rest with
    | nil =>
      obtain rfl := Option.some.inj hstep
      exact h.setTracker ht rfl rfl (by simp) Balanced.rfl
    | cons op rest =>
      obtain rfl := Option.some.inj hstep
      rcases hpends.cases with ⟨rfl, hcons, hrest, hpends⟩ | ⟨hne, hany, hpends⟩
      · refine h.setTracker ht rfl ⟨rfl, hpends⟩ (by simp) ?_
        rw [Tracker.inProgress, Tracker.inProgress]
        dsimp only
        rw [hcons, hrest]
        exact Balanced.sub _
      · refine h.setTracker ht rfl ⟨rfl, hpends⟩ (by simp) ?_
        rw [Tracker.inProgress, Tracker.inProgress]
        dsimp only
        rw [hany]
        exact balanced_of_ne hne _
  | live => cases hstep
  | dropped => cases hstep

theorem Inv.finish (h : s.Inv) {id : ℕ} {t : Tracker} (ht : s.trackers[id]? = some t)
    (hlive : t.place = .live) (outcome : RequestOutcome) :
    Inv { s with trackers := s.trackers.set id (t.swap outcome) } := by
  obtain ⟨permit, place, finished, finishing⟩ := t
  obtain rfl : place = .live := hlive
  have hinv := h.tracker _ (List.mem_of_getElem? ht)
  cases finished with
  | true => exact h.setTracker ht rfl hinv (by simp) Balanced.rfl
  | false =>
    have hcounted : Tracker.inProgress ⟨permit, .live, true, finishOps outcome⟩ = true := by
      rw [Tracker.inProgress, finishOps]
      rfl
    have hswapped : TrackerInv ⟨permit, .live, true, finishOps outcome⟩ :=
      ⟨by simp, .inr (pends_finishOps outcome)⟩
    refine h.setTracker ht rfl hswapped (by simp) ?_
    show Balanced _ (Tracker.inProgress ⟨permit, .live, true, finishOps outcome⟩) _ _
    rw [hcounted]
    exact Balanced.rfl

theorem Inv.finishNext (h : s.Inv) {id : ℕ} {t : Tracker} {s' : ActiveRequests}
    (ht : s.trackers[id]? = some t) (hstep : s.stepFinish id t = some s') : s'.Inv := by
  obtain ⟨permit, place, finished, finishing⟩ := t
  have hinv := h.tracker _ (List.mem_of_getElem? ht)
  cases finishing with
  | nil => cases hstep
  | cons op rest =>
    obtain rfl := Option.some.inj hstep
    cases place with
    | constructing left => exact absurd hinv.2.1 (by simp)
    | dropping left => exact absurd hinv.1 (by simp)
    | dropped => exact absurd hinv (by simp [TrackerInv])
    | live =>
      obtain ⟨hfinished, hpends⟩ := hinv
      obtain rfl : finished = true := by
        cases finished with
        | true => rfl
        | false => exact absurd (hfinished rfl) (by simp)
      rcases hpends.cases with ⟨rfl, hcons, hrest, hpends⟩ | ⟨hne, hany, hpends⟩
      · refine h.setTracker ht rfl ⟨by simp, hpends⟩ (by simp) ?_
        rw [Tracker.inProgress, Tracker.inProgress]
        dsimp only
        rw [hcons, hrest]
        exact Balanced.sub _
      · refine h.setTracker ht rfl ⟨by simp, hpends⟩ (by simp) ?_
        rw [Tracker.inProgress, Tracker.inProgress]
        dsimp only
        rw [hany]
        exact balanced_of_ne hne _

theorem Inv.drop (h : s.Inv) {id : ℕ} {t : Tracker} (ht : s.trackers[id]? = some t)
    (hlive : t.place = .live) (hfinishing : t.finishing = []) :
    Inv { s with
      trackers := s.trackers.set id { t with place := .dropping (dropOps t.finished) } } := by
  obtain ⟨permit, place, finished, finishing⟩ := t
  obtain rfl : place = .live := hlive
  obtain rfl : finishing = [] := hfinishing
  cases finished with
  | true => exact h.setTracker ht rfl ⟨rfl, .inl rfl⟩ (by simp) Balanced.rfl
  | false => exact h.setTracker ht rfl ⟨rfl, .inr rfl⟩ (by simp) Balanced.rfl

theorem Inv.setReset (h : s.Inv) {id : ℕ} {r' : ResetPlace} {metrics : MetricsRegistry}
    (hr' : ∀ rest, r' = .storing rest → ∀ op ∈ rest, ∃ m, op = .store m 0)
    (hgauge : metrics.counters .requestsActive = s.requestsActive) :
    Inv { s with metrics := metrics, resets := s.resets.set id r' } where
  admission := h.admission
  gauge := hgauge.trans h.gauge
  tracker := h.tracker
  nodup := h.nodup
  holds := h.holds
  resets rest hrest := by
    rcases List.mem_or_eq_of_mem_set hrest with hrest | hrest
    · exact h.resets rest hrest
    · exact hr' rest hrest.symm

theorem Inv.reset (h : s.Inv) (resetCounters : Bool) :
    Inv { s with resets := s.resets ++ [s.checkIdle resetCounters] } where
  admission := h.admission
  gauge := h.gauge
  tracker := h.tracker
  nodup := h.nodup
  holds := h.holds
  resets rest hrest := by
    rcases List.mem_append.mp hrest with hrest | hrest
    · exact h.resets rest hrest
    · have heq := List.mem_singleton.mp hrest
      rw [checkIdle] at heq
      split at heq <;> cases heq

theorem stores_afterAnswer {answered resetCounters : Bool} {rest : List MetricOp}
    (h : afterAnswer answered resetCounters = .storing rest) :
    ∀ op ∈ rest, ∃ m, op = .store m 0 := by
  obtain rfl := ResetPlace.storing.inj h
  intro op hop
  split at hop
  case isTrue =>
    obtain ⟨m, -, rfl⟩ := List.mem_map.mp hop
    exact ⟨m, rfl⟩
  case isFalse => cases hop

/-- A store of a reset, with the gauge at rest when it is the one that is cleared. -/
theorem Inv.resetNext (h : s.Inv) {id : ℕ} {op : MetricOp} {rest : List MetricOp}
    (hr : s.resets[id]? = some (.storing (op :: rest)))
    (hidle : s.StoresIdle (.resetNext id)) :
    Inv { s with metrics := op.run s.metrics, resets := s.resets.set id (.storing rest) } := by
  have hstores := h.resets _ (List.mem_of_getElem? hr)
  refine h.setReset ?_ ?_
  · rintro rest' hrest' op' hop'
    obtain rfl := ResetPlace.storing.inj hrest'
    exact hstores op' (List.mem_cons_of_mem _ hop')
  · obtain ⟨m, rfl⟩ := hstores op List.mem_cons_self
    by_cases hm : m = .requestsActive
    · subst hm
      have hzero : s.inProgress = 0 := hidle (by rw [nextOp, hr]; rfl)
      rw [h.gauge, hzero]
      exact MetricOp.counters_run_self s.metrics (.store .requestsActive 0)
    · exact MetricOp.counters_run_of_ne hm

theorem Inv.step? (h : s.Inv) {op : TelemetryOp} (hidle : s.StoresIdle op)
    {s' : ActiveRequests} (hstep : s.step? op = some s') : s'.Inv := by
  cases op with
  | admission op =>
    rw [ActiveRequests.step?] at hstep
    split at hstep
    case isTrue => cases hstep
    case isFalse hop =>
      obtain rfl := Option.some.inj hstep
      exact h.admissionStep hop
  | new permit isVlm imageCount =>
    rw [ActiveRequests.step?] at hstep
    split at hstep
    case isTrue hmay =>
      obtain rfl := Option.some.inj hstep
      exact h.new hmay isVlm imageCount
    case isFalse => cases hstep
  | next id =>
    obtain ⟨t, ht, hstep⟩ := Option.bind_eq_some_iff.mp hstep
    exact h.next ht hstep
  | finish id outcome =>
    obtain ⟨t, ht, hstep⟩ := Option.bind_eq_some_iff.mp hstep
    split at hstep
    case isTrue hlive =>
      obtain rfl := Option.some.inj hstep
      exact h.finish ht hlive outcome
    case isFalse => cases hstep
  | finishNext id =>
    obtain ⟨t, ht, hstep⟩ := Option.bind_eq_some_iff.mp hstep
    exact h.finishNext ht hstep
  | drop id =>
    obtain ⟨t, ht, hstep⟩ := Option.bind_eq_some_iff.mp hstep
    split at hstep
    case isTrue hdrop =>
      obtain rfl := Option.some.inj hstep
      exact h.drop ht hdrop.1 hdrop.2
    case isFalse => cases hstep
  | reset resetCounters =>
    obtain rfl := Option.some.inj hstep
    exact h.reset resetCounters
  | answer id answered =>
    obtain ⟨r, hr, hstep⟩ := Option.bind_eq_some_iff.mp hstep
    cases r with
    | refused => cases hstep
    | storing rest => cases hstep
    | asking resetCounters =>
      obtain rfl := Option.some.inj hstep
      exact h.setReset (fun _ => stores_afterAnswer) rfl
  | resetNext id =>
    obtain ⟨r, hr, hstep⟩ := Option.bind_eq_some_iff.mp hstep
    cases r with
    | refused => cases hstep
    | asking resetCounters => cases hstep
    | storing rest =>
      cases rest with
      | nil => cases hstep
      | cons op rest =>
        obtain rfl := Option.some.inj hstep
        exact h.resetNext hr hidle

theorem Inv.step (h : s.Inv) {op : TelemetryOp} (hidle : s.StoresIdle op) :
    (s.step op).2.Inv := by
  rw [ActiveRequests.step]
  split
  case h_1 s' hstep => exact h.step? hidle hstep
  case h_2 => exact h

/-! ## The number of trackers -/

/-- A list counted by its places. -/
theorem countP_range {α : Type} (l : List α) (p : α → Bool) :
    ((List.range l.length).countP fun i => l[i]?.any p) = l.countP p := by
  induction l using List.reverseRecOn with
  | nil => rfl
  | append_singleton l x ih =>
    have hbefore : ((List.range l.length).countP fun i => (l ++ [x])[i]?.any p) =
        (List.range l.length).countP fun i => l[i]?.any p := by
      refine List.countP_congr fun i hi => ?_
      rw [List.getElem?_append_left (List.mem_range.mp hi)]
    rw [List.length_append, List.length_singleton, List.range_succ, List.countP_append,
      List.countP_append, hbefore, ih, List.countP_singleton, List.countP_singleton]
    simp

/-- Every counted tracker has a permit of its own. -/
theorem Inv.inProgress_le (h : s.Inv) : s.inProgress ≤ s.admission.permits := by
  have hcounted : ∀ t : Tracker, t.inProgress = true → t.place ≠ .dropped := by
    rintro t ht hplace
    rw [Tracker.inProgress, hplace] at ht
    cases ht
  have hsub : ((s.trackers.filter Tracker.inProgress).map Tracker.permit).Subperm
      ((List.range s.admission.calls.length).filter fun i =>
        s.admission.calls[i]?.any AdmissionCall.holds) := by
    refine List.subperm_of_subset ?_ ?_
    · exact h.nodup.sublist (List.filter_sublist.map Tracker.permit)
    · intro permit hpermit
      obtain ⟨t, ht, rfl⟩ := List.mem_map.mp hpermit
      obtain ⟨hmem, hprogress⟩ := List.mem_filter.mp ht
      have hholds := h.holds t hmem (hcounted t hprogress)
      refine List.mem_filter.mpr ⟨List.mem_range.mpr ?_, hholds⟩
      by_contra hlt
      rw [List.getElem?_eq_none (Nat.le_of_not_lt hlt)] at hholds
      cases hholds
  have hlen := hsub.length_le
  rw [List.length_map, ← List.countP_eq_length_filter, ← List.countP_eq_length_filter] at hlen
  rwa [countP_range] at hlen

theorem Inv.toNat_requestsActive (h : s.Inv)
    (hmax : s.admission.admission.maxActiveRequests < 2 ^ 64) :
    s.requestsActive.toNat = s.inProgress := by
  have hle := h.admission.active_le
  rw [h.admission.active_eq] at hle
  have hlt := Nat.lt_of_le_of_lt (Nat.le_trans h.inProgress_le hle) hmax
  rw [h.gauge, UInt64.toNat_ofNat_of_lt' hlt]

/-- Between its operations, a tracker is counted while it is alive and not finished. -/
theorem inProgress_of_resting {t : Tracker} (h : t.resting = true) :
    t.inProgress = t.unfinished := by
  obtain ⟨permit, place, finished, finishing⟩ := t
  rw [Tracker.resting, Bool.and_eq_true, Bool.or_eq_true, List.isEmpty_iff] at h
  obtain ⟨hplace, rfl⟩ := h
  rcases hplace with hplace | hplace
  · obtain rfl := of_decide_eq_true hplace
    simp [Tracker.inProgress, Tracker.unfinished]
  · obtain rfl := of_decide_eq_true hplace
    simp [Tracker.inProgress, Tracker.unfinished]

/-- Who takes a request out of the gauge has counted it. -/
theorem Inv.inProgress_pos (h : s.Inv) {op : TelemetryOp}
    (hop : s.nextOp op = some (.fetchSub .requestsActive 1)) : 0 < s.inProgress := by
  have hpos : ∀ {id : ℕ} {t : Tracker}, s.trackers[id]? = some t → t.inProgress = true →
      0 < s.inProgress := fun ht hprogress =>
    List.countP_pos_iff.mpr ⟨_, List.mem_of_getElem? ht, hprogress⟩
  cases op with
  | next id =>
    obtain ⟨⟨permit, place, finished, finishing⟩, ht, hhead⟩ := Option.bind_eq_some_iff.mp hop
    have hinv := h.tracker _ (List.mem_of_getElem? ht)
    cases place with
    | constructing rest =>
      cases rest with
      | nil => cases hhead
      | cons op rest =>
        obtain rfl := Option.some.inj hhead
        rcases hinv.2.2.cases with ⟨heq, -⟩ | ⟨hne, -⟩
        · cases heq
        · exact absurd rfl hne
    | dropping rest =>
      cases rest with
      | nil => cases hhead
      | cons op rest =>
        obtain rfl := Option.some.inj hhead
        exact hpos ht rfl
    | live => cases hhead
    | dropped => cases hhead
  | finishNext id =>
    obtain ⟨⟨permit, place, finished, finishing⟩, ht, hhead⟩ := Option.bind_eq_some_iff.mp hop
    have hinv := h.tracker _ (List.mem_of_getElem? ht)
    cases finishing with
    | nil => cases hhead
    | cons op rest =>
      obtain rfl := Option.some.inj hhead
      cases place with
      | constructing left => exact absurd hinv.2.1 (by simp)
      | dropping left => exact absurd hinv.1 (by simp)
      | dropped => exact absurd hinv (by simp [TrackerInv])
      | live =>
        refine hpos ht ?_
        rw [Tracker.inProgress]
        simp [Tracker.onGauge, MetricOp.metric]
  | resetNext id =>
    obtain ⟨r, hr, hhead⟩ := Option.bind_eq_some_iff.mp hop
    cases r with
    | refused => cases hhead
    | asking resetCounters => cases hhead
    | storing rest =>
      cases rest with
      | nil => cases hhead
      | cons op rest =>
        obtain rfl := Option.some.inj hhead
        obtain ⟨m, hm⟩ := h.resets _ (List.mem_of_getElem? hr) _ List.mem_cons_self
        cases hm
  | admission | new | finish | drop | reset | answer => cases hop

theorem admission_step? {op : TelemetryOp} (h : s.Inv) {s' : ActiveRequests}
    (hstep : s.step? op = some s') : s'.admission.admission = s.admission.admission := by
  cases op with
  | admission op =>
    rw [ActiveRequests.step?] at hstep
    split at hstep
    case isTrue => cases hstep
    case isFalse =>
      obtain rfl := Option.some.inj hstep
      exact AdmissionQueue.admission_step h.admission op
  | new permit isVlm imageCount =>
    rw [ActiveRequests.step?] at hstep
    split at hstep
    case isTrue => obtain rfl := Option.some.inj hstep; rfl
    case isFalse => cases hstep
  | reset resetCounters => obtain rfl := Option.some.inj hstep; rfl
  | next id =>
    obtain ⟨t, ht, hstep⟩ := Option.bind_eq_some_iff.mp hstep
    rw [stepPlace] at hstep
    split at hstep <;> cases hstep <;> rfl
  | finish id outcome =>
    obtain ⟨t, ht, hstep⟩ := Option.bind_eq_some_iff.mp hstep
    split at hstep <;> cases hstep
    rfl
  | finishNext id =>
    obtain ⟨t, ht, hstep⟩ := Option.bind_eq_some_iff.mp hstep
    rw [stepFinish] at hstep
    split at hstep <;> cases hstep
    rfl
  | drop id =>
    obtain ⟨t, ht, hstep⟩ := Option.bind_eq_some_iff.mp hstep
    split at hstep <;> cases hstep
    rfl
  | answer id answered =>
    obtain ⟨r, hr, hstep⟩ := Option.bind_eq_some_iff.mp hstep
    split at hstep <;> cases hstep
    rfl
  | resetNext id =>
    obtain ⟨r, hr, hstep⟩ := Option.bind_eq_some_iff.mp hstep
    split at hstep <;> cases hstep
    rfl

/-- **The invariant** of every run in which the gauge is cleared at rest. -/
theorem inv_exec {a : RequestAdmission} {ops : List TelemetryOp}
    (hops : Run.Each step StoresIdle (start a) ops) :
    (Run.exec step (start a) ops).Inv ∧
      (Run.exec step (start a) ops).admission.admission = a := by
  have hstep : ∀ (s : ActiveRequests) op, s.Inv ∧ s.admission.admission = a →
      s.StoresIdle op → (s.step op).2.Inv ∧ (s.step op).2.admission.admission = a := by
    rintro s op ⟨h, ha⟩ hidle
    refine ⟨h.step hidle, ?_⟩
    rw [step]
    split
    case h_1 s' hs' => exact (admission_step? h hs').trans ha
    case h_2 => exact ha
  exact Run.exec_invariant hstep ⟨inv_start a, rfl⟩ hops

/-- In every interleaving in which a reset clears the gauge only while no request is in
progress, the gauge is the number of trackers that are not finished: of those that are alive
and whose `finish` was not called, whenever no tracker is in the middle of an operation.  It
is never taken below zero. -/
theorem requestsActive_exact (a : RequestAdmission) (ha : a.maxActiveRequests < 2 ^ 64)
    {ops : List TelemetryOp} (hops : Run.Each step StoresIdle (start a) ops) :
    (Run.exec step (start a) ops).requestsActive.toNat =
        (Run.exec step (start a) ops).inProgress ∧
      ((∀ t ∈ (Run.exec step (start a) ops).trackers, t.resting = true) →
        (Run.exec step (start a) ops).requestsActive.toNat =
          (Run.exec step (start a) ops).trackers.countP Tracker.unfinished) ∧
      ∀ op, (Run.exec step (start a) ops).nextOp op = some (.fetchSub .requestsActive 1) →
        0 < (Run.exec step (start a) ops).requestsActive.toNat := by
  obtain ⟨hinv, hadmission⟩ := inv_exec hops
  have hexact := hinv.toNat_requestsActive (by rwa [hadmission])
  refine ⟨hexact, ?_, ?_⟩
  · intro hresting
    rw [hexact, inProgress]
    exact List.countP_congr fun t ht => by rw [inProgress_of_resting (hresting t ht)]
  · intro op hop
    rw [hexact]
    exact hinv.inProgress_pos hop

/-- A request that is admitted, counted, finished without an error, and dropped. -/
def requestOps : List TelemetryOp :=
  [.admission (.call false 0), .admission (.enter 0 false 0), .new 0 false 0, .next 0, .next 0,
    .next 0]

/-- The idle check of a reset and the answer of the worker, and its first store. -/
def resetStartOps : List TelemetryOp := [.reset true, .answer 0 true, .resetNext 0]

/-- The first half of the call of `finish`. -/
def finishCallOps : List TelemetryOp :=
  [.finish 0 ⟨3, 5, some "stop", false, none⟩, .finishNext 0]

theorem requestsActive_exact_request :
    (Run.exec step (start ⟨64, 1, 300000⟩)
      (resetStartOps ++ [.resetNext 0] ++ requestOps ++ finishCallOps)).requestsActive.toNat =
    (Run.exec step (start ⟨64, 1, 300000⟩)
      (resetStartOps ++ [.resetNext 0] ++ requestOps ++ finishCallOps)).inProgress :=
  (requestsActive_exact ⟨64, 1, 300000⟩ (by decide) (by decide)).1

/-- A request is admitted after the idle check, and counted before the reset clears the
gauge: its `finish` takes the gauge below zero. -/
theorem requestsActive_wraps :
    (Run.exec step (start ⟨64, 1, 300000⟩)
      (resetStartOps ++ requestOps ++ [.resetNext 0] ++ finishCallOps)).inProgress = 0 ∧
    (Run.exec step (start ⟨64, 1, 300000⟩)
      (resetStartOps ++ requestOps ++ [.resetNext 0] ++ finishCallOps)).requestsActive.toNat =
        2 ^ 64 - 1 := by decide

end ActiveRequests
end MlxRuntime
