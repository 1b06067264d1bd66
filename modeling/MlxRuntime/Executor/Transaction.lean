import MlxRuntime.Cache.Store
import MlxRuntime.Executor.Dispatch

/-!
# Executor steps as transactions

An executor over its store, with the step it has in flight.  Between two steps, and
while one is in flight, caches are created, forked and released in any order; any
library call of a step may raise.

A step should be a transaction: if it raises or is discarded the reserved pages, the
pins, the tables and the lengths are those it started from, and if it returns a
result its reservation was committed once.  It is one unless it raises after it has
reserved its pages and outside the handlers that abort the reservation, which is what
`Strands` says.

## Main definitions

* `ExecutorState`, `ExecutorOp`, `ExecutorState.step` — the transition system.
* `CommittedOnce`, `ExecutorState.Transactional` — what a step should do.
* `ExecutorState.transactional_iff_not_strands` — when it does.
-/

namespace MlxRuntime

open MlxGenerationExecutor

variable {ρ κ L : Type}

/-- An executor's store and the step in flight on it.  The second component of a step
in flight is the store its dispatch began with; no method reads it. -/
structure ExecutorState (ρ κ : Type) where
  backend : PagedKVCacheBackend ρ κ
  inFlight : Option (InFlightStep ρ κ × PagedKVCacheBackend ρ κ)

/-- A call on the store or on its executor.  `dispatchBatch` and
`executePreparedSerial` get the step `prepare_batch` makes of their batch. -/
inductive ExecutorOp (ρ κ L : Type)
  | create (requestId : ρ)
  | fork (handle : Handle) (requestId : ρ) (length : Option ℤ)
  | release (handle : Option Handle)
  | reset (resetCounters : Bool)
  | executeBatch (model : MlxModel κ L) (batch : ExecutionBatch ρ) (faults : StepFaults)
  | executePreparedSerial (model : MlxModel κ L) (batch : ExecutionBatch ρ)
      (faults : StepFaults)
  | dispatchBatch (model : MlxModel κ L) (batch : ExecutionBatch ρ) (faults : StepFaults)
  | resolveBatch (faults : StepFaults)
  | discardBatch (faults : StepFaults)

/-- What a call answers. -/
inductive ExecutorReply (ρ : Type)
  | notIssued
  | raised (error : PyError)
  | done
  | dispatched
  | result (result : StepResult ρ)

/-- The reply to a method's result. -/
def ExecutorReply.ofResult {α : Type} (ok : α → ExecutorReply ρ) :
    Except PyError α → ExecutorReply ρ
  | .error e => .raised e
  | .ok a => ok a

/-- The store after a commit that grew the cache of every request with a result by that
request's tokens, and no other cache. -/
structure CommittedOnce (start s : PagedKVCacheBackend ρ κ)
    (results : List (StepRequestResult ρ)) : Prop where
  reserved_eq : s.reservedPages = start.reservedPages
  pins_eq : s.pinCounts = start.pinCounts
  grown : ∀ x ∈ results, x.errorCode = none → ∃ h, x.cacheHandle = some h ∧ h ∈ start.caches ∧
    (s.cacheOf h).length = (start.cacheOf h).length + x.tokenIds.length ∧
    x.cacheLength = (s.cacheOf h).length
  kept : ∀ h < start.nextHandle,
    (∀ x ∈ results, x.errorCode = none → x.cacheHandle ≠ some h) → s.cacheOf h = start.cacheOf h

/-- The count of failed allocations plays no part in a step. -/
theorem MlxGenerationExecutor.RolledBack.of_allocationFailed {start s : PagedKVCacheBackend ρ κ}
    {n : ℕ} (h : RolledBack (start.allocationFailed n) s) : RolledBack start s :=
  ⟨h.reserved_eq, h.pins_eq, h.cacheOf_eq⟩

theorem CommittedOnce.of_allocationFailed {start s : PagedKVCacheBackend ρ κ} {n : ℕ}
    {results : List (StepRequestResult ρ)}
    (h : CommittedOnce (start.allocationFailed n) s results) : CommittedOnce start s results :=
  ⟨h.reserved_eq, h.pins_eq, h.grown, h.kept⟩

/-! ## One step -/

namespace MlxGenerationExecutor

variable {s start : PagedKVCacheBackend ρ κ}

/-- How a step that was dispatched and resolved at once ends. -/
inductive Settles (strands : Prop) (start : PagedKVCacheBackend ρ κ) :
    Except PyError (StepResult ρ) → PagedKVCacheBackend ρ κ → Prop
  | rolledBack (hno : ¬ strands) (e : PyError) {s : PagedKVCacheBackend ρ κ}
      (h : RolledBack start s) : Settles strands start (.error e) s
  | stranded (hyes : strands) (e : PyError) {s : PagedKVCacheBackend ρ κ}
      (hheld : s.reservedPages ≠ start.reservedPages ∨ s.pinCounts ≠ start.pinCounts) :
      Settles strands start (.error e) s
  | committed (hno : ¬ strands) (result : StepResult ρ) {s : PagedKVCacheBackend ρ κ}
      (h : CommittedOnce start s result.results) : Settles strands start (.ok result) s

theorem not_rolledBack_of_held
    (h : s.reservedPages ≠ start.reservedPages ∨ s.pinCounts ≠ start.pinCounts) :
    ¬ RolledBack start s :=
  fun hback => h.elim (fun hne => hne hback.reserved_eq) fun hne => hne hback.pins_eq

variable [DecidableEq ρ] {batch : ExecutionBatch ρ} {prepared : PreparedStep ρ}
  {kept : List (ValidRequest ρ)} {step : InFlightStep ρ κ}

/-- A commit whose answers are written is one commit. -/
theorem InFlight.committedOnce (h : InFlight start batch kept step s)
    {xs : List (StepRequestResult ρ)} (hlength : xs.length = batch.requests.length)
    (hanswers : ∀ i request, batch.requests[i]? = some request → ∃ x, xs[i]? = some x ∧
      Answers start (s.committed step.reservation) kept step.nextTokens i request x) :
    CommittedOnce start (s.committed step.reservation) xs := by
  have hanswer : ∀ x ∈ xs, ∃ i request, Answers start (s.committed step.reservation) kept
      step.nextTokens i request x := by
    intro x hx
    obtain ⟨i, hi, rfl⟩ := List.getElem_of_mem hx
    obtain ⟨y, hy, hanswer⟩ :=
      hanswers i batch.requests[i] (List.getElem?_eq_getElem (hlength ▸ hi))
    obtain rfl : xs[i] = y := Option.some.inj ((List.getElem?_eq_getElem hi).symm.trans hy)
    exact ⟨i, _, hanswer⟩
  refine ⟨h.aborted.reserved_eq, h.aborted.pins_eq, ?_, ?_⟩
  · intro x hx hcode
    obtain ⟨i, request, hanswer⟩ := hanswer x hx
    cases hanswer with
    | ran hj hi hreq htoken =>
        have hv := List.mem_of_getElem? hj
        have haccepts := h.prepares.accepts hv
        exact ⟨_, haccepts.handle_eq, haccepts.live, h.committed_length hv, rfl⟩
    | rejected _ hrejected => exact absurd hcode hrejected.errorCode_ne_none
  · intro x hx hnone
    refine h.committed_of_notMem hx fun hmem => ?_
    obtain ⟨v, hv, rfl⟩ := List.mem_map.mp hmem
    obtain ⟨y, hy, hanswer⟩ := hanswers _ _ (h.prepares.kept_valid v hv).1
    generalize hrequest : v.request = request at hanswer
    generalize hindex : v.sourceIndex = i at hanswer
    cases hanswer with
    | ran hj hi hreq htoken =>
        refine hnone _ (List.mem_of_getElem? hy) rfl ?_
        rw [committedResult, hreq, ← hrequest]
        exact (h.prepares.accepts hv).handle_eq
    | rejected hi _ => exact hi (hindex ▸ List.mem_map_of_mem hv)

/-- A dispatched step that is resolved at once. -/
theorem settles_of_dispatches {strands : Prop}
    {d : Except PyError (InFlightStep ρ κ) × PagedKVCacheBackend ρ κ} {faults : StepFaults}
    {out : Except PyError (StepResult ρ) × PagedKVCacheBackend ρ κ}
    (hout : out = match d with
      | (.error e, s) => (.error e, s)
      | (.ok step, s) => resolveBatch s step faults)
    (h : Dispatches strands start batch kept d.1 d.2) :
    Settles strands start out.1 out.2 := by
  subst hout
  obtain ⟨result, s⟩ := d
  cases h with
  | rolledBack hno e h => exact .rolledBack hno e h
  | stranded hyes e hheld hcache => exact .stranded hyes e hheld
  | inFlight hno h =>
      dsimp only
      rcases resolveBatch_cases h faults with ⟨e, heq⟩ | ⟨xs, heq, hlength, hanswers⟩ <;> rw [heq]
      · exact .rolledBack hno e h.aborted
      · exact .committed hno _ (h.committedOnce hlength hanswers)

/-- A step with nothing to run answers with the errors of its requests. -/
theorem settles_emptyResult {strands : Prop} (hno : ¬ strands)
    (hp : Prepares start batch prepared kept) (hlayout : prepared.layout = none) :
    Settles strands start (emptyResult prepared) start := by
  have hkept : kept = [] := by
    rcases hp.layout with ⟨hnil, -⟩ | ⟨-, layout, hsome, -⟩
    · exact hnil
    · rw [hlayout] at hsome
      cases hsome
  cases hresult : emptyResult prepared with
  | error e => exact .rolledBack hno e (.refl _)
  | ok result =>
      refine .committed hno result ⟨rfl, rfl, fun x hx hcode => ?_, fun _ _ _ => rfl⟩
      rw [emptyResult] at hresult
      split at hresult
      · cases hresult
      · cases hresult
      case h_3 mode xs hmode hxs =>
      obtain rfl := Except.ok.inj hresult
      have hall := requireResults_eq_ok.mp hxs
      obtain ⟨i, hi, rfl⟩ := List.getElem_of_mem hx
      have hlt : i < batch.requests.length := by
        rw [← hp.results_length, hall, List.length_map]
        exact hi
      obtain ⟨y, hy, hrejected⟩ := hp.rejected i batch.requests[i]
        (List.getElem?_eq_getElem hlt) (by simp [hkept])
      rw [hall, List.getElem?_map, List.getElem?_eq_getElem hi] at hy
      obtain rfl : xs[i] = y := by simpa using hy
      exact absurd hcode hrejected.errorCode_ne_none

/-- The dispatch of either class. -/
theorem dispatches (c : ExecutorClass) (model : MlxModel κ L) (hs : start.InBounds)
    (hp : Prepares start batch prepared kept) (faults : StepFaults) :
    Dispatches (Strands (c = .overlap) model start prepared faults) start batch kept
      (c.dispatchBatch model start prepared faults).1
      (c.dispatchBatch model start prepared faults).2 := by
  cases c with
  | serial => exact dispatches_base model hs hp faults
  | overlap => exact dispatches_overlap model hs hp faults

theorem not_strands_of_layout {overlapped : Bool} {model : MlxModel κ L} {faults : StepFaults}
    (hlayout : prepared.layout = none) :
    ¬ Strands overlapped model start prepared faults := by
  rintro ⟨layout, hsome, -⟩
  rw [hlayout] at hsome
  cases hsome

/-- `execute_prepared` settles. -/
theorem settles_executePrepared (c : ExecutorClass) (model : MlxModel κ L)
    (hs : start.InBounds) (hp : Prepares start batch prepared kept) (faults : StepFaults) :
    Settles (Strands (c = .overlap) model start prepared faults) start
      (c.executePrepared model start prepared faults).1
      (c.executePrepared model start prepared faults).2 := by
  rw [ExecutorClass.executePrepared, PreparedStep.hasWork]
  cases hlayout : prepared.layout with
  | none => exact settles_emptyResult (not_strands_of_layout hlayout) hp hlayout
  | some layout => exact settles_of_dispatches rfl (dispatches c model hs hp faults)

/-- `execute_prepared_serial` settles. -/
theorem settles_executePreparedSerial (model : MlxModel κ L)
    (hs : start.InBounds) (hp : Prepares start batch prepared kept) (faults : StepFaults) :
    Settles (Strands false model start prepared faults) start
      (MlxOverlapGenerationExecutor.executePreparedSerial model start prepared faults).1
      (MlxOverlapGenerationExecutor.executePreparedSerial model start prepared faults).2 := by
  rw [MlxOverlapGenerationExecutor.executePreparedSerial, PreparedStep.hasWork]
  cases hlayout : prepared.layout with
  | none => exact settles_emptyResult (not_strands_of_layout hlayout) hp hlayout
  | some layout => exact settles_of_dispatches rfl (dispatches_base model hs hp faults)

/-- A dispatched step that is resolved at once keeps what every step keeps. -/
theorem steady_of_dispatches {strands : Prop}
    {d : Except PyError (InFlightStep ρ κ) × PagedKVCacheBackend ρ κ} {faults : StepFaults}
    {out : Except PyError (StepResult ρ) × PagedKVCacheBackend ρ κ}
    (hout : out = match d with
      | (.error e, s) => (.error e, s)
      | (.ok step, s) => resolveBatch s step faults)
    (h : Dispatches strands start batch kept d.1 d.2) (hsteady : Steady start d.2) :
    Steady start out.2 := by
  subst hout
  obtain ⟨result, s⟩ := d
  cases h with
  | rolledBack hno e h => exact hsteady
  | stranded hyes e hheld hcache => exact hsteady
  | inFlight hno h => exact hsteady.trans (steady_resolveBatch hsteady.in_bounds h faults)

omit [DecidableEq ρ] in
theorem steady_refl (hs : s.InBounds) : Steady s s := ⟨hs, rfl, rfl, fun _ => rfl⟩

theorem steady_dispatchBatch_class (c : ExecutorClass) (model : MlxModel κ L)
    (hs : start.InBounds) (hp : Prepares start batch prepared kept) (faults : StepFaults) :
    Steady start (c.dispatchBatch model start prepared faults).2 := by
  cases c with
  | serial => exact steady_dispatchBatch model hs hp faults
  | overlap =>
      rw [ExecutorClass.dispatchBatch, overlap_dispatchBatch_snd]
      exact steady_dispatchBatch model hs hp faults

theorem steady_executePrepared (c : ExecutorClass) (model : MlxModel κ L)
    (hs : start.InBounds) (hp : Prepares start batch prepared kept) (faults : StepFaults) :
    Steady start (c.executePrepared model start prepared faults).2 := by
  rw [ExecutorClass.executePrepared]
  split
  · exact steady_of_dispatches rfl (dispatches c model hs hp faults)
      (steady_dispatchBatch_class c model hs hp faults)
  · exact steady_refl hs

theorem steady_executePreparedSerial (model : MlxModel κ L)
    (hs : start.InBounds) (hp : Prepares start batch prepared kept) (faults : StepFaults) :
    Steady start
      (MlxOverlapGenerationExecutor.executePreparedSerial model start prepared faults).2 := by
  rw [MlxOverlapGenerationExecutor.executePreparedSerial]
  split
  · exact steady_of_dispatches rfl (dispatches_base model hs hp faults)
      (steady_dispatchBatch model hs hp faults)
  · exact steady_refl hs

end MlxGenerationExecutor

namespace ExecutorState

variable [DecidableEq ρ] {c : ExecutorClass} {w : ExecutorState ρ κ}

/-- `prepare_batch`, and `run` on the step it makes. -/
def prepareThen {α : Type} (s : PagedKVCacheBackend ρ κ) (batch : ExecutionBatch ρ)
    (faults : StepFaults)
    (run : PagedKVCacheBackend ρ κ → PreparedStep ρ → Except PyError α × PagedKVCacheBackend ρ κ) :
    Except PyError α × PagedKVCacheBackend ρ κ :=
  match prepareBatch s batch faults with
  | (.error e, s) => (.error e, s)
  | (.ok prepared, s) => run s prepared

/-- One call.  A step is issued while none is in flight; `execute_prepared_serial` is a
method of the overlap class. -/
def step (c : ExecutorClass) (w : ExecutorState ρ κ) :
    ExecutorOp ρ κ L → ExecutorReply ρ × ExecutorState ρ κ
  | .create requestId => (.done, { w with backend := (w.backend.create requestId).2 })
  | .fork handle requestId length =>
      let (result, s) := w.backend.fork handle requestId length
      (.ofResult (fun _ => .done) result, { w with backend := s })
  | .release handle =>
      let (result, s) := w.backend.release handle
      (.ofResult (fun _ => .done) result, { w with backend := s })
  | .reset resetCounters =>
      let (result, s) := w.backend.reset resetCounters
      (.ofResult (fun _ => .done) result, { w with backend := s })
  | .executeBatch model batch faults =>
      if w.inFlight.isSome then (.notIssued, w)
      else
        let (result, s) := c.executeBatch model w.backend batch faults
        (.ofResult .result result, { w with backend := s })
  | .executePreparedSerial model batch faults =>
      if w.inFlight.isSome ∨ c = .serial then (.notIssued, w)
      else
        let (result, s) := prepareThen w.backend batch faults fun s prepared =>
          MlxOverlapGenerationExecutor.executePreparedSerial model s prepared faults
        (.ofResult .result result, { w with backend := s })
  | .dispatchBatch model batch faults =>
      if w.inFlight.isSome then (.notIssued, w)
      else
        match prepareThen w.backend batch faults fun s prepared =>
            c.dispatchBatch model s prepared faults with
        | (.error e, s) => (.raised e, { w with backend := s })
        | (.ok step, s) => (.dispatched, ⟨s, some (step, w.backend)⟩)
  | .resolveBatch faults =>
      match w.inFlight with
      | none => (.notIssued, w)
      | some (step, _) =>
          let (result, s) := MlxGenerationExecutor.resolveBatch w.backend step faults
          (.ofResult .result result, ⟨s, none⟩)
  | .discardBatch faults =>
      match w.inFlight with
      | none => (.notIssued, w)
      | some (step, _) =>
          let (result, s) := MlxGenerationExecutor.discardBatch w.backend step faults
          (.ofResult (fun _ => .done) result, ⟨s, none⟩)

/-- The store the step an operation ends, or begins, started from. -/
def stepStart (w : ExecutorState ρ κ) : ExecutorOp ρ κ L → Option (PagedKVCacheBackend ρ κ)
  | .executeBatch _ _ _ | .executePreparedSerial _ _ _ | .dispatchBatch _ _ _ => some w.backend
  | .resolveBatch _ | .discardBatch _ => w.inFlight.map Prod.snd
  | .create _ | .fork _ _ _ | .release _ | .reset _ => none

/-- The executor call `op` is a transaction: if it raises, or a discard completes, the
step left nothing behind, and a result means one commit. -/
def Transactional (c : ExecutorClass) (w : ExecutorState ρ κ) (op : ExecutorOp ρ κ L) : Prop :=
  ∀ start ∈ w.stepStart op, match (step c w op).1 with
    | .raised _ | .done => RolledBack start (step c w op).2.backend
    | .result result => CommittedOnce start (step c w op).2.backend result.results
    | .notIssued | .dispatched => True

/-- The step a batch is prepared to strands its reservation. -/
def BatchStrands (overlapped : Bool) (model : MlxModel κ L) (s : PagedKVCacheBackend ρ κ)
    (batch : ExecutionBatch ρ) (faults : StepFaults) : Prop :=
  ∃ prepared s', prepareBatch s batch faults = (.ok prepared, s') ∧
    MlxGenerationExecutor.Strands overlapped model s' prepared faults

/-- The call raises between the reservation of its step and the handlers that would
abort it. -/
def Strands (c : ExecutorClass) (w : ExecutorState ρ κ) : ExecutorOp ρ κ L → Prop
  | .executeBatch model batch faults | .dispatchBatch model batch faults =>
      w.inFlight = none ∧ BatchStrands (c = .overlap) model w.backend batch faults
  | .executePreparedSerial model batch faults =>
      w.inFlight = none ∧ c = .overlap ∧ BatchStrands false model w.backend batch faults
  | .create _ | .fork _ _ _ | .release _ | .reset _ | .resolveBatch _ | .discardBatch _ => False

/-- The invariant of the runs. -/
structure Inv (w : ExecutorState ρ κ) : Prop where
  in_bounds : w.backend.InBounds
  flying : ∀ step start, w.inFlight = some (step, start) →
    ∃ n batch kept, InFlight (start.allocationFailed n) batch kept step w.backend

omit [DecidableEq ρ] in
/-- A step that settles is a transaction unless it strands its reservation. -/
theorem settles_iff {strands : Prop} {start s : PagedKVCacheBackend ρ κ}
    {result : Except PyError (StepResult ρ)} (h : Settles strands start result s) :
    (match ExecutorReply.ofResult .result result with
      | .raised _ | .done => RolledBack start s
      | .result result => CommittedOnce start s result.results
      | .notIssued | .dispatched => True) ↔ ¬ strands := by
  cases h with
  | rolledBack hno e h => exact ⟨fun _ => hno, fun _ => h⟩
  | stranded hyes e hheld =>
      exact ⟨fun h => absurd h (not_rolledBack_of_held hheld), fun hno => absurd hyes hno⟩
  | committed hno result h => exact ⟨fun _ => hno, fun _ => h⟩

theorem executeBatch_eq (model : MlxModel κ L) (s : PagedKVCacheBackend ρ κ)
    (batch : ExecutionBatch ρ) (faults : StepFaults) :
    c.executeBatch model s batch faults = prepareThen s batch faults fun s prepared =>
      c.executePrepared model s prepared faults := rfl

/-- The two ways through `prepareThen`. -/
theorem prepareThen_cases {α : Type} (s : PagedKVCacheBackend ρ κ) (batch : ExecutionBatch ρ)
    (faults : StepFaults)
    (run : PagedKVCacheBackend ρ κ → PreparedStep ρ →
      Except PyError α × PagedKVCacheBackend ρ κ) :
    (∃ e n, prepareThen s batch faults run = (.error e, s.allocationFailed n) ∧
      ∀ overlapped (model : MlxModel κ L), ¬ BatchStrands overlapped model s batch faults) ∨
    ∃ prepared kept n, Prepares (s.allocationFailed n) batch prepared kept ∧
      prepareThen s batch faults run = run (s.allocationFailed n) prepared ∧
      ∀ overlapped (model : MlxModel κ L), BatchStrands overlapped model s batch faults ↔
        MlxGenerationExecutor.Strands overlapped model (s.allocationFailed n) prepared faults := by
  rcases prepareBatch_cases s batch faults with ⟨e, n, -, heq⟩ | ⟨prepared, kept, n, hp, heq⟩
  · refine .inl ⟨e, n, by rw [prepareThen, heq], ?_⟩
    rintro overlapped model ⟨prepared, s', hok, -⟩
    rw [heq] at hok
    cases hok
  · refine .inr ⟨prepared, kept, n, hp.allocationFailed n, by rw [prepareThen, heq], ?_⟩
    intro overlapped model
    constructor
    · rintro ⟨prepared', s', hok, hstrands⟩
      rw [heq] at hok
      cases hok
      exact hstrands
    · exact fun hstrands => ⟨prepared, _, heq, hstrands⟩

omit [DecidableEq ρ] in
theorem settles_allocationFailed {strands strands' : Prop} {start s : PagedKVCacheBackend ρ κ}
    {result : Except PyError (StepResult ρ)} {n : ℕ} (hiff : strands' ↔ strands)
    (h : Settles strands (start.allocationFailed n) result s) : Settles strands' start result s := by
  cases h with
  | rolledBack hno e h => exact .rolledBack (mt hiff.mp hno) e h.of_allocationFailed
  | stranded hyes e hheld => exact .stranded (hiff.mpr hyes) e hheld
  | committed hno result h =>
      exact .committed (mt hiff.mp hno) result h.of_allocationFailed

theorem settles_executeBatch (hs : w.backend.InBounds) (model : MlxModel κ L)
    (batch : ExecutionBatch ρ) (faults : StepFaults) :
    Settles (BatchStrands (c = .overlap) model w.backend batch faults) w.backend
      (c.executeBatch model w.backend batch faults).1
      (c.executeBatch model w.backend batch faults).2 := by
  rw [executeBatch_eq]
  rcases prepareThen_cases w.backend batch faults fun s prepared =>
    c.executePrepared model s prepared faults with
    ⟨e, n, heq, hno⟩ | ⟨prepared, kept, n, hp, heq, hiff⟩ <;> rw [heq]
  · exact .rolledBack (hno _ model) e ⟨rfl, rfl, fun _ _ => rfl⟩
  · exact settles_allocationFailed (hiff _ model)
      (settles_executePrepared c model (hs.allocationFailed n) hp faults)

theorem settles_executePreparedSerial (hs : w.backend.InBounds) (model : MlxModel κ L)
    (batch : ExecutionBatch ρ) (faults : StepFaults) :
    let out := prepareThen w.backend batch faults fun s prepared =>
      MlxOverlapGenerationExecutor.executePreparedSerial model s prepared faults
    Settles (BatchStrands false model w.backend batch faults) w.backend out.1 out.2 := by
  intro out
  rcases prepareThen_cases w.backend batch faults fun s prepared =>
    MlxOverlapGenerationExecutor.executePreparedSerial model s prepared faults with
    ⟨e, n, heq, hno⟩ | ⟨prepared, kept, n, hp, heq, hiff⟩ <;> simp only [out, heq]
  · exact .rolledBack (hno _ model) e ⟨rfl, rfl, fun _ _ => rfl⟩
  · exact settles_allocationFailed (hiff _ model)
      (MlxGenerationExecutor.settles_executePreparedSerial model (hs.allocationFailed n) hp faults)

/-- **One step** is a transaction exactly when it does not strand its reservation. -/
theorem transactional_iff (hw : w.Inv) (op : ExecutorOp ρ κ L) :
    Transactional c w op ↔ ¬ Strands c w op := by
  cases op with
  | create | fork | release | reset =>
      exact ⟨fun _ h => h, fun _ start hstart => by cases hstart⟩
  | executeBatch model batch faults =>
      cases hflight : w.inFlight with
      | some x => simp [Transactional, Strands, step, hflight]
      | none =>
          have h := settles_iff (settles_executeBatch (c := c) hw.in_bounds model batch faults)
          simpa [Transactional, Strands, step, stepStart, hflight] using h
  | executePreparedSerial model batch faults =>
      cases hflight : w.inFlight with
      | some x => simp [Transactional, Strands, step, hflight]
      | none =>
          cases c with
          | serial => simp [Transactional, Strands, step]
          | overlap =>
              have h := settles_iff
                (settles_executePreparedSerial hw.in_bounds model batch faults)
              simpa [Transactional, Strands, step, stepStart, hflight] using h
  | dispatchBatch model batch faults =>
      cases hflight : w.inFlight with
      | some x => simp [Transactional, Strands, step, hflight]
      | none =>
          simp only [Transactional, Strands, step, stepStart, hflight, Option.isSome_none,
            Bool.false_eq_true, if_false, Option.mem_some_iff, forall_eq', true_and]
          rcases prepareThen_cases w.backend batch faults fun s prepared =>
            c.dispatchBatch model s prepared faults with
            ⟨e, n, heq, hno⟩ | ⟨prepared, kept, n, hp, heq, hiff⟩ <;> rw [heq]
          · exact ⟨fun _ => hno _ model, fun _ => ⟨rfl, rfl, fun _ _ => rfl⟩⟩
          · rw [hiff]
            have h := dispatches c model (hw.in_bounds.allocationFailed n) hp faults
            generalize c.dispatchBatch model (w.backend.allocationFailed n) prepared faults = d at h ⊢
            obtain ⟨result, s⟩ := d
            dsimp only at h
            cases h with
            | rolledBack hno e h =>
                exact ⟨fun _ => hno, fun _ => h.of_allocationFailed⟩
            | stranded hyes e hheld hcache =>
                exact ⟨fun h => absurd h (not_rolledBack_of_held hheld),
                  fun hno => absurd hyes hno⟩
            | inFlight hno h => exact ⟨fun _ => hno, fun _ => trivial⟩
  | resolveBatch faults =>
      refine ⟨fun _ h => h, fun _ start hstart => ?_⟩
      cases hflight : w.inFlight with
      | none => simp [stepStart, hflight] at hstart
      | some x =>
          obtain ⟨step', start'⟩ := x
          obtain rfl : start' = start := by simpa [stepStart, hflight] using hstart
          obtain ⟨n, batch, kept, h⟩ := hw.flying step' start' hflight
          simp only [step, hflight]
          rcases resolveBatch_cases h faults with ⟨e, heq⟩ | ⟨xs, heq, hlength, hanswers⟩ <;>
            rw [heq]
          · exact h.aborted.of_allocationFailed
          · exact (h.committedOnce hlength hanswers).of_allocationFailed
  | discardBatch faults =>
      refine ⟨fun _ h => h, fun _ start hstart => ?_⟩
      cases hflight : w.inFlight with
      | none => simp [stepStart, hflight] at hstart
      | some x =>
          obtain ⟨step', start'⟩ := x
          obtain rfl : start' = start := by simpa [stepStart, hflight] using hstart
          obtain ⟨n, batch, kept, h⟩ := hw.flying step' start' hflight
          have hstore := discardBatch_of_holds h.holds faults
          simp only [step, hflight]
          rcases hout : MlxGenerationExecutor.discardBatch w.backend step' faults with ⟨result, s⟩
          rw [hout] at hstore
          obtain rfl : s = w.backend.aborted step'.reservation := hstore
          cases result <;> exact h.aborted.of_allocationFailed

/-! ## Runs -/

theorem Inv.of_backend {s : PagedKVCacheBackend ρ κ} (hw : w.Inv) (hs : s.InBounds)
    (hholds : ∀ r, w.backend.Holds r → s.Holds r)
    (hreserved : s.reservedPages = w.backend.reservedPages)
    (hpins : s.pinCounts = w.backend.pinCounts) (hnext : w.backend.nextHandle ≤ s.nextHandle)
    (hcache : ∀ h < w.backend.nextHandle, s.cacheOf h = w.backend.cacheOf h) :
    Inv { w with backend := s } := by
  refine ⟨hs, fun step start hflight => ?_⟩
  obtain ⟨n, batch, kept, h⟩ := hw.flying step start hflight
  exact ⟨n, batch, kept, h.frame (hholds _ h.holds) hreserved hpins hnext hcache⟩

/-- With no step in flight there is only the store to look after. -/
theorem Inv.of_idle {w : ExecutorState ρ κ} (hs : w.backend.InBounds)
    (hidle : ¬ w.inFlight.isSome) : w.Inv :=
  ⟨hs, fun _ _ h => absurd (by rw [h]; rfl) hidle⟩

theorem Inv.of_addCache (hw : w.Inv) (requestId : ρ) {table : List Page} (length : ℕ)
    (htable : ∀ p ∈ table, p < w.backend.numPages) :
    Inv { w with backend := w.backend.addCache requestId table length } :=
  hw.of_backend (hw.in_bounds.addCache requestId length htable)
    (fun _ h => h.addCache requestId table length) rfl rfl (Nat.le_succ _)
    fun _ hlt => Function.update_of_ne (ne_of_lt hlt) _ _

theorem inBounds_prepareThen {α : Type} {s : PagedKVCacheBackend ρ κ} (hs : s.InBounds)
    (batch : ExecutionBatch ρ) (faults : StepFaults)
    {run : PagedKVCacheBackend ρ κ → PreparedStep ρ →
      Except PyError α × PagedKVCacheBackend ρ κ}
    (hrun : ∀ s prepared kept, s.InBounds → Prepares s batch prepared kept →
      (run s prepared).2.InBounds) : (prepareThen s batch faults run).2.InBounds := by
  rcases prepareBatch_cases s batch faults with ⟨e, n, -, heq⟩ | ⟨prepared, kept, n, hp, heq⟩ <;>
    rw [prepareThen, heq]
  · exact hs.allocationFailed n
  · exact hrun _ _ _ (hs.allocationFailed n) (hp.allocationFailed n)

/-- **The step lemma.** Every call keeps the invariant. -/
theorem inv_step (hw : w.Inv) (op : ExecutorOp ρ κ L) : (step c w op).2.Inv := by
  cases op with
  | create requestId =>
      rw [step, PagedKVCacheBackend.create_eq]
      exact hw.of_addCache requestId 0 (by simp)
  | fork handle requestId length =>
      rw [step]
      rcases w.backend.fork_cases handle requestId length with ⟨e, -, heq⟩ | ⟨-, -, heq⟩ <;>
        rw [heq]
      · exact hw
      · exact hw.of_addCache requestId _ fun p hp =>
          hw.in_bounds.table_lt _ p (List.mem_of_mem_take hp)
  | release handle =>
      obtain ⟨caches, refs, free, heq, -⟩ := w.backend.release_cases handle
      have hholds : ∀ r, w.backend.Holds r → (w.backend.release handle).2.Holds r :=
        fun _ h => h.release handle
      have hbounds := hw.in_bounds.release handle
      have hinv : Inv { w with backend := (w.backend.release handle).2 } := by
        rw [heq] at hholds hbounds ⊢
        exact hw.of_backend hbounds hholds rfl rfl le_rfl fun _ _ => rfl
      exact hinv
  | reset resetCounters =>
      have hbounds := hw.in_bounds.reset resetCounters
      refine ⟨hbounds, fun step' start' hflight => ?_⟩
      obtain ⟨n, batch, kept, h⟩ := hw.flying step' start' hflight
      rw [step, PagedKVCacheBackend.reset_of_holds h.holds]
      exact ⟨n, batch, kept, h⟩
  | executeBatch model batch faults =>
      rw [step]
      split
      case isTrue => exact hw
      case isFalse hflight =>
        exact .of_idle (inBounds_prepareThen hw.in_bounds batch faults fun s prepared kept hs hp =>
          (steady_executePrepared c model hs hp faults).in_bounds) hflight
  | executePreparedSerial model batch faults =>
      rw [step]
      split
      case isTrue => exact hw
      case isFalse hflight =>
        exact .of_idle (inBounds_prepareThen hw.in_bounds batch faults fun s prepared kept hs hp =>
          (steady_executePreparedSerial model hs hp faults).in_bounds)
          fun h => hflight (.inl h)
  | dispatchBatch model batch faults =>
      rw [step]
      split
      case isTrue => exact hw
      case isFalse hflight =>
        rcases prepareThen_cases (L := L) w.backend batch faults fun s prepared =>
          c.dispatchBatch model s prepared faults with
          ⟨e, n, heq, -⟩ | ⟨prepared, kept, n, hp, heq, -⟩ <;> rw [heq]
        · exact .of_idle (hw.in_bounds.allocationFailed n) hflight
        · have hs := hw.in_bounds.allocationFailed n
          have hsteady := steady_dispatchBatch_class c model hs hp faults
          have h := dispatches c model hs hp faults
          generalize c.dispatchBatch model (w.backend.allocationFailed n) prepared faults = d
            at h hsteady ⊢
          obtain ⟨result, s⟩ := d
          dsimp only at h
          cases h with
          | rolledBack hno e h => exact .of_idle hsteady.in_bounds hflight
          | stranded hyes e hheld hcache => exact .of_idle hsteady.in_bounds hflight
          | inFlight hno h =>
              refine ⟨hsteady.in_bounds, fun step' start' heq => ?_⟩
              cases heq
              exact ⟨n, batch, kept, h⟩
  | resolveBatch faults =>
      rw [step]
      cases hflight : w.inFlight with
      | none => exact hw
      | some x =>
          obtain ⟨n, batch, kept, h⟩ := hw.flying x.1 x.2 hflight
          exact .of_idle (steady_resolveBatch hw.in_bounds h faults).in_bounds (by simp)
  | discardBatch faults =>
      rw [step]
      cases hflight : w.inFlight with
      | none => exact hw
      | some x =>
          obtain ⟨n, batch, kept, h⟩ := hw.flying x.1 x.2 hflight
          have hbounds := (steady_aborted hw.in_bounds h.holds).in_bounds
          rw [← discardBatch_of_holds h.holds faults] at hbounds
          exact .of_idle hbounds (by simp)

/-- **Executor steps are transactions** except for those that strand their reservation:
in every state of a run, whatever was created, forked, released and executed before and
whatever raised, a call is a transaction exactly when it does not raise between the
reservation and the handlers that abort it. -/
theorem transactional_iff_not_strands {config : PagedKVConfig} {zero : κ} {noRequest : ρ}
    {s : PagedKVCacheBackend ρ κ} (hs : PagedKVCacheBackend.postInit config zero noRequest = .ok s)
    (c : ExecutorClass) (ops : List (ExecutorOp ρ κ L)) (op : ExecutorOp ρ κ L) :
    Transactional c (Run.exec (step c) ⟨s, none⟩ ops) op ↔
      ¬ Strands c (Run.exec (step c) ⟨s, none⟩ ops) op := by
  have hstart : Inv ⟨s, none⟩ := .of_idle (PagedKVCacheBackend.inBounds_postInit hs) (by simp)
  have hstep : ∀ (w : ExecutorState ρ κ) (op : ExecutorOp ρ κ L), w.Inv → True →
      (step c w op).2.Inv := fun w op hw _ => inv_step hw op
  exact transactional_iff (Run.exec_invariant hstep hstart (Run.each_true _ _)) op

/-- A model of one layer that always answers `7`. -/
def sevens : MlxModel ℕ Unit where
  call := fun _ _ _ =>
    .stageLayer 0 (KVStore.numberedRows 1) (KVStore.numberedRows 1) fun _ => .logits ()
  argmaxAt := fun _ _ _ => 7

/-- The first token of request `0`, for the cache created first. -/
def firstToken : ExecutionBatch ℕ := ⟨[⟨0, .prefill, [5], [0], some 0⟩]⟩

/-- A dispatched step whose evaluation raises is rolled back. -/
theorem transactional_of_failed_eval : ∃ s : PagedKVCacheBackend ℕ ℕ,
    PagedKVCacheBackend.postInit KVStore.threePages 0 0 = .ok s ∧
      Transactional .overlap (Run.exec (step .overlap) ⟨s, none⟩
        [.create 0, .dispatchBatch sevens firstToken {}])
        (.resolveBatch { eval := some "device lost" } : ExecutorOp ℕ ℕ Unit) := by
  refine ⟨_, rfl, ?_⟩
  have hs : PagedKVCacheBackend.postInit KVStore.threePages 0 0 =
    .ok (_ : PagedKVCacheBackend ℕ ℕ) := rfl
  exact (transactional_iff_not_strands hs .overlap _ _).mpr id

/-- Three raises that leave a page reserved for good: in the arrays of the reservation,
in the attention contexts, and in `mx.async_eval` after the graph was built. -/
theorem not_transactional_of_unhandled : ∃ s : PagedKVCacheBackend ℕ ℕ,
    PagedKVCacheBackend.postInit KVStore.threePages 0 0 = .ok s ∧
      let created : ExecutorState ℕ ℕ :=
        Run.exec (step .serial) ⟨s, none⟩ [(.create 0 : ExecutorOp ℕ ℕ Unit)]
      ¬ Transactional .serial created
          (.executeBatch sevens firstToken { reservationArrays := some "out of memory" }) ∧
        ¬ Transactional .serial created
          (.executeBatch sevens firstToken { contexts := some "unsupported mode" }) ∧
        ¬ Transactional .overlap created
          (.dispatchBatch sevens firstToken { asyncEval := some "device lost" }) := by
  refine ⟨_, rfl, fun h => ?_, fun h => ?_, fun h => ?_⟩
  · have hback : RolledBack _ _ := h _ rfl
    exact absurd hback.reserved_eq (by decide)
  · have hback : RolledBack _ _ := h _ rfl
    exact absurd hback.reserved_eq (by decide)
  · have hback : RolledBack _ _ := h _ rfl
    exact absurd hback.reserved_eq (by decide)

end ExecutorState
end MlxRuntime
