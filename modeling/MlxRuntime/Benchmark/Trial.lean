import Mathlib.Algebra.GroupWithZero.Nat
import Mathlib.Data.List.Sort
import Mathlib.Data.List.Range
import MlxRuntime.Lib.Run
import MlxRuntime.Python

/-!
# A trial of the load generator

`_execute_trial` submits a declared number of requests, one after the other, all at once, or
so that a fixed number of them is in flight.  A request is a task of its own.  A task ends, or
the trial goes on, in any order; what a request comes to, when, and in which order
`asyncio.wait` gives the tasks that are done are inputs.

The payload of a request and the rates of a trial, which are floats, are left out.

## Main definitions

* `Workload`, `PromptGroup` — a validated workload and its prompts.
* `TrialRun`, `TrialRun.step` — a trial under any order of events.
* `executeWorkloads` — the trials one after the other.
* `TrialRun.Inv` — what holds at every event.
-/

namespace MlxRuntime.Benchmark

/-- `load_mode`. -/
inductive LoadMode
  | sequential
  | burst
  | closedLoop
  deriving DecidableEq

/-- A workload, as its validation leaves it. -/
structure Workload where
  name : String
  loadMode : LoadMode
  requestsPerTrial : ℕ
  concurrency : ℕ
  streaming : Bool
  trials : ℕ
  requests_pos : 1 ≤ requestsPerTrial
  concurrency_pos : 1 ≤ concurrency

/-- `Prompt`. -/
structure Prompt where
  group : String
  name : String
  index : ℕ
  targetTokens : ℕ
  sha256 : String

/-- The prompts of a group. -/
structure PromptGroup where
  prompts : List Prompt
  nonempty : 0 < prompts.length

/-- An exception: `type(error).__name__` and `str(error)`. -/
structure Raised where
  typeName : String
  message : String

/-- `_response_record`. -/
structure ResponseRecord where
  firstByteNs : ℕ
  firstTokenNs : ℕ
  finalTokenNs : ℕ
  completedNs : ℕ
  promptTokens : ℤ
  completionTokens : ℤ
  totalTokens : ℤ
  cachedTokens : ℤ
  outputSha256 : String
  finishReason : Option String

inductive RequestStatus
  | running
  | succeeded
  | failed
  deriving DecidableEq

/-- The record of a request. -/
structure RequestRecord where
  workloadName : String
  trialIndex : ℕ
  requestIndex : ℕ
  prompt : Prompt
  requestOrder : ℕ
  streaming : Bool
  submittedNs : ℕ
  submissionGapNs : Option ℤ
  inFlightAtSubmission : ℤ
  firstByteNs : Option ℕ := none
  firstTokenNs : Option ℕ := none
  finalTokenNs : Option ℕ := none
  completedNs : Option ℕ := none
  promptTokens : ℤ := 0
  completionTokens : ℤ := 0
  totalTokens : ℤ := 0
  cachedTokens : ℤ := 0
  outputSha256 : Option String := none
  finishReason : Option String := none
  status : RequestStatus := .running
  error : Option String := none

namespace RequestRecord

/-- `record.update(response)`. -/
def update (record : RequestRecord) (response : ResponseRecord) : RequestRecord :=
  { record with
    firstByteNs := some response.firstByteNs
    firstTokenNs := some response.firstTokenNs
    finalTokenNs := some response.finalTokenNs
    completedNs := some response.completedNs
    promptTokens := response.promptTokens
    completionTokens := response.completionTokens
    totalTokens := response.totalTokens
    cachedTokens := response.cachedTokens
    outputSha256 := some response.outputSha256
    finishReason := response.finishReason }

/-- `value or now`. -/
def orNow (now : ℕ) : Option ℕ → ℕ
  | none | some 0 => now
  | some value => value

/-- `hashlib.sha256(b"").hexdigest()`. -/
def emptySha256 : String := "e3b0c44298fc1c149afbf4c8996fb92427ae41e4649b934ca495991b7852b855"

/-- The handler of `_execute_request`. -/
def fail (record : RequestRecord) (now : ℕ) (error : Raised) : RequestRecord :=
  { record with
    firstByteNs := some (orNow now record.firstByteNs)
    firstTokenNs := some (orNow now record.firstTokenNs)
    finalTokenNs := some (orNow now record.finalTokenNs)
    completedNs := some now
    outputSha256 := some emptySha256
    status := .failed
    error := some (error.typeName ++ ": " ++ error.message) }

/-- `_execute_request` after `pool.post_json` gave a response or raised. -/
def execute (record : RequestRecord) (now : ℕ) : Except Raised ResponseRecord → RequestRecord
  | .error error => record.fail now error
  | .ok response =>
      let record := record.update response
      if record.promptTokens + record.completionTokens ≠ record.totalTokens then
        record.fail now ⟨"LoadGenerationError", "response usage token total is inconsistent"⟩
      else if record.completionTokens ≤ 0 then
        record.fail now ⟨"LoadGenerationError", "response contains no completion tokens"⟩
      else { record with status := .succeeded }

end RequestRecord

/-- An observation of a trial. -/
structure Observation where
  submitted : Bool
  requestIndex : ℕ
  monotonicNs : ℕ
  inFlight : ℤ

/-- `_TrialState`. -/
structure TrialState where
  workloadName : String
  trialIndex : ℕ
  inFlight : ℤ := 0
  maximumInFlight : ℤ := 0
  lastSubmissionNs : Option ℕ := none
  observations : List Observation := []

namespace TrialState

/-- `submitted`, without its answer: the gap, and `in_flight` after it. -/
def submitted (s : TrialState) (requestIndex now : ℕ) : TrialState :=
  { s with
    lastSubmissionNs := some now
    inFlight := s.inFlight + 1
    maximumInFlight := max s.maximumInFlight (s.inFlight + 1)
    observations := s.observations ++ [⟨true, requestIndex, now, s.inFlight + 1⟩] }

/-- `completed`. -/
def completed (s : TrialState) (requestIndex now : ℕ) : TrialState :=
  { s with
    inFlight := s.inFlight - 1
    observations := s.observations ++ [⟨false, requestIndex, now, s.inFlight - 1⟩] }

end TrialState

/-- The result of a trial. -/
structure TrialRecord where
  workloadName : String
  trialIndex : ℕ
  loadMode : LoadMode
  submissionPolicy : String
  streaming : Bool
  configuredConcurrency : ℕ
  requestCount : ℕ
  startedNs : ℕ
  completedNs : ℕ
  maximumObservedInFlight : ℤ
  inFlightObservations : List Observation
  submissionGapsNs : List (Option ℤ)
  successCount : ℕ
  errorCount : ℕ
  requests : List RequestRecord

/-- A task of `_execute_request`; the record is its result when it is done. -/
structure RequestTask where
  record : RequestRecord
  done : Bool := false

/-- Where `_execute_trial` is: it awaits one task, or all, or the first of some, or is back. -/
inductive Position
  | awaiting (task : ℕ)
  | gathering
  | waiting (active : List ℕ)
  | returned (trial : TrialRecord)
  | raised (e : PyError)

/-- A trial with its tasks, in the order of their creation; the number of a task is its place
there. -/
structure TrialRun where
  state : TrialState
  requestOrder : ℕ
  nextIndex : ℕ := 0
  tasks : List RequestTask := []
  requests : List RequestRecord := []
  position : Position

/-- A task ends, with what `post_json` gave it and the time, or the trial goes on; `order` is
that of the set of tasks that are done. -/
inductive TrialEvent
  | complete (task : ℕ) (result : Except Raised ResponseRecord) (now : ℕ)
  | resume (order : List ℕ)

namespace TrialRun

variable (clock : ℕ → ℕ) (workload : Workload) (group : PromptGroup)

/-- The prompt of a request. -/
def promptOf (trialIndex requestIndex : ℕ) : Prompt :=
  group.prompts.get ⟨(trialIndex * workload.requestsPerTrial + requestIndex) % group.prompts.length,
    Nat.mod_lt _ group.nonempty⟩

/-- `submit`; `clock k` is the time of the `k`-th submission. -/
def submit (r : TrialRun) (requestIndex : ℕ) : TrialRun :=
  let now := clock r.tasks.length
  let state := r.state.submitted requestIndex now
  let record : RequestRecord := {
    workloadName := workload.name
    trialIndex := r.state.trialIndex
    requestIndex := requestIndex
    prompt := promptOf workload group r.state.trialIndex requestIndex
    requestOrder := r.requestOrder
    streaming := workload.streaming
    submittedNs := now
    submissionGapNs := r.state.lastSubmissionNs.map fun (last : ℕ) => (now : ℤ) - last
    inFlightAtSubmission := state.inFlight }
  { r with
    state := state
    requestOrder := r.requestOrder + 1
    tasks := r.tasks ++ [{ record := record }] }

/-- `submit(next_index)`, and `next_index += 1`. -/
def submitNext (r : TrialRun) : TrialRun :=
  { submit clock workload group r r.nextIndex with nextIndex := r.nextIndex + 1 }

/-- `submission_policy`. -/
def policy : LoadMode → String
  | .sequential => "submit-one-after-previous-completes"
  | .burst => "submit-declared-count-at-once"
  | .closedLoop => "replace-each-completed-request"

/-- `requests.sort(key=…)`. -/
def sortedRequests (r : TrialRun) : List RequestRecord :=
  r.requests.insertionSort fun a b => a.requestIndex ≤ b.requestIndex

/-- The end of `_execute_trial`. -/
def finish (r : TrialRun) : TrialRun :=
  match r.sortedRequests with
  | [] => { r with position := .raised (.valueError "min() iterable argument is empty") }
  | first :: rest => { r with
      requests := first :: rest
      position := .returned {
        workloadName := workload.name
        trialIndex := r.state.trialIndex
        loadMode := workload.loadMode
        submissionPolicy := policy workload.loadMode
        streaming := workload.streaming
        configuredConcurrency := workload.concurrency
        requestCount := workload.requestsPerTrial
        startedNs := (rest.map RequestRecord.submittedNs).foldl min first.submittedNs
        completedNs := ((first :: rest).map fun q => q.completedNs.getD 0).foldl max 0
        maximumObservedInFlight := r.state.maximumInFlight
        inFlightObservations := r.state.observations
        submissionGapsNs := (first :: rest).map RequestRecord.submissionGapNs
        successCount := (first :: rest).countP (·.status = .succeeded)
        errorCount := (first :: rest).countP (·.status = .failed)
        requests := first :: rest } }

/-- A result is taken, and the next request is submitted, if there is one.  The tasks awaited
are those of `active` and the new one. -/
def replace (r : TrialRun) (active : List ℕ) (result : RequestRecord) : TrialRun × List ℕ :=
  let r := { r with requests := r.requests ++ [result] }
  if r.nextIndex < workload.requestsPerTrial then
    (submitNext clock workload group r, active ++ [r.tasks.length])
  else (r, active)

/-- The loop over a group of completions. -/
def replaceEach : TrialRun → List ℕ → List RequestRecord → TrialRun × List ℕ
  | r, active, [] => (r, active)
  | r, active, result :: results =>
      let (r, active) := replace clock workload group r active result
      replaceEach r active results

/-- The first `count` requests are submitted at once. -/
def submitFirst (r : TrialRun) : ℕ → TrialRun
  | 0 => r
  | count + 1 => submitNext clock workload group (submitFirst r count)

/-- A trial before its first submission. -/
def blank (trialIndex requestOrder : ℕ) : TrialRun where
  state := { workloadName := workload.name, trialIndex := trialIndex }
  requestOrder := requestOrder
  position := .gathering

/-- How many requests are submitted before the first `await`, and where that is. -/
def opening : ℕ × Position :=
  match workload.loadMode with
  | .sequential => (1, .awaiting 0)
  | .burst => (workload.requestsPerTrial, .gathering)
  | .closedLoop =>
      let count := min workload.concurrency workload.requestsPerTrial
      (count, .waiting (List.range count))

/-- `_execute_trial` up to its first `await`. -/
def start (trialIndex requestOrder : ℕ) : TrialRun :=
  { submitFirst clock workload group (blank workload trialIndex requestOrder)
      (opening workload).1 with
    position := (opening workload).2 }

/-- The result of a task that is done. -/
def result? (r : TrialRun) (task : ℕ) : Option RequestRecord :=
  (r.tasks[task]?).bind fun t => if t.done then some t.record else none

/-- The trial goes on. -/
def resume (r : TrialRun) (order : List ℕ) : Option TrialRun :=
  match r.position with
  | .awaiting task =>
      (r.result? task).map fun result =>
        let (r, active) := replace clock workload group r [] result
        match active with
        | task :: _ => { r with position := .awaiting task }
        | [] => finish workload r
  | .gathering =>
      if r.tasks.all RequestTask.done then
        some (finish workload { r with requests := r.tasks.map RequestTask.record })
      else none
  | .waiting active =>
      let completed := active.filter fun task => (r.result? task).isSome
      if completed ≠ [] ∧ order.Perm completed then
        let results := (order.filterMap r.result?).insertionSort fun a b =>
          a.completedNs.getD 0 ≤ b.completedNs.getD 0
        let (r, active) := replaceEach clock workload group r
          (active.filter fun task => (r.result? task).isNone) results
        some (if active = [] then finish workload r else { r with position := .waiting active })
      else none
  | .returned _ | .raised _ => none

/-- A task ends. -/
def complete (r : TrialRun) (task : ℕ) (result : Except Raised ResponseRecord) (now : ℕ) :
    Option TrialRun :=
  (r.tasks[task]?).bind fun t =>
    if t.done then none
    else
      let record := t.record.execute now result
      some { r with
        tasks := r.tasks.set task { record := record, done := true }
        state := r.state.completed t.record.requestIndex (record.completedNs.getD 0) }

/-- An event, where it can happen. -/
def step? (r : TrialRun) : TrialEvent → Option TrialRun
  | .complete task result now => r.complete task result now
  | .resume order => resume clock workload group r order

/-- An event, answered with whether it could happen. -/
def step (r : TrialRun) (event : TrialEvent) : Bool × TrialRun :=
  match step? clock workload group r event with
  | some r' => (true, r')
  | none => (false, r)

/-- A trial of a workload, with its clock and its events. -/
structure PlannedTrial where
  workload : Workload
  group : PromptGroup
  trialIndex : ℕ
  clock : ℕ → ℕ
  events : List TrialEvent

/-- A trial from its start. -/
def run (requestOrder : ℕ) (trial : PlannedTrial) : TrialRun :=
  Run.exec (step trial.clock trial.workload trial.group)
    (start trial.clock trial.workload trial.group trial.trialIndex requestOrder) trial.events

/-- The loop of `execute_workloads`, without its callbacks: the records of the trials, and the
next request order; nothing if a trial does not come back. -/
def executeWorkloads : ℕ → List PlannedTrial → Option (List TrialRecord × ℕ)
  | requestOrder, [] => some ([], requestOrder)
  | requestOrder, trial :: trials =>
      match (run requestOrder trial).position with
      | .returned record =>
          (executeWorkloads (run requestOrder trial).requestOrder trials).map fun rest =>
            (record :: rest.1, rest.2)
      | _ => none

/-! ## Bookkeeping -/

/-- The tasks that have not ended. -/
def unfinished (r : TrialRun) : ℕ := r.tasks.countP fun t => !t.done

/-- The tasks that have ended. -/
def finished (r : TrialRun) : ℕ := r.tasks.countP RequestTask.done

/-- The task has not ended. -/
def isRunning (r : TrialRun) (task : ℕ) : Bool := (r.tasks[task]?).any fun t => !t.done

/-- The requests submitted, in order. -/
def submissions (r : TrialRun) : List ℕ :=
  (r.state.observations.filter Observation.submitted).map Observation.requestIndex

/-- Task `i` is request `i`, and the counters agree with the tasks. -/
structure Core (order : ℕ) (r : TrialRun) : Prop where
  numbered : ∀ i t, r.tasks[i]? = some t →
    t.record.requestIndex = i ∧ t.record.requestOrder = order + i
  next : r.nextIndex = r.tasks.length
  order : r.requestOrder = order + r.tasks.length
  submitted : r.submissions = List.range r.tasks.length
  inFlight : r.state.inFlight = r.unfinished

/-- Every task is a request that was taken, a result still to take, or one of `active`; and as
many are out as the width allows. -/
structure Awaits (width count : ℕ) (r : TrialRun) (results : List RequestRecord)
    (active : List ℕ) : Prop where
  all : (((r.requests ++ results).map RequestRecord.requestIndex) ++ active).Perm
    (List.range r.tasks.length)
  taken : ∀ q ∈ r.requests ++ results, r.tasks[q.requestIndex]? = some { record := q, done := true }
  full : results.length + active.length = min width (count - r.requests.length)
  bounded : r.requests.length + results.length ≤ count
  peak : r.state.maximumInFlight ≤ width

variable {clock workload group} {order width count : ℕ} {r : TrialRun}

theorem submitNext_spec (clock : ℕ → ℕ) (workload : Workload) (group : PromptGroup)
    (r : TrialRun) : ∃ record,
    (submitNext clock workload group r).tasks = r.tasks ++ [{ record := record }] ∧
      record.requestIndex = r.nextIndex ∧ record.requestOrder = r.requestOrder :=
  ⟨_, rfl, rfl, rfl⟩

@[simp] theorem requests_submitNext :
    (submitNext clock workload group r).requests = r.requests := rfl

/-- The next request is submitted. -/
theorem Core.submitNext (h : Core order r) : Core order (submitNext clock workload group r) := by
  obtain ⟨record, htasks, hindex, horder⟩ := submitNext_spec clock workload group r
  have hlength : (TrialRun.submitNext clock workload group r).tasks.length =
      r.tasks.length + 1 := by
    rw [htasks, List.length_append, List.length_singleton]
  refine ⟨fun i t hi => ?_, ?_, ?_, ?_, ?_⟩
  · rw [htasks, List.getElem?_append] at hi
    split at hi
    case isTrue => exact h.numbered i t hi
    case isFalse hge =>
      obtain ⟨hlt, rfl⟩ := List.getElem?_eq_some_iff.mp hi
      obtain rfl : i = r.tasks.length := by
        rw [List.length_singleton] at hlt
        omega
      simp only [Nat.sub_self, List.getElem_cons_zero]
      exact ⟨hindex.trans h.next, by rw [horder, h.order]⟩
  · rw [hlength]
    exact congrArg (· + 1) h.next
  · rw [hlength, ← Nat.add_assoc, ← h.order]
    rfl
  · have hsubmissions : (TrialRun.submitNext clock workload group r).submissions =
        r.submissions ++ [r.nextIndex] := by
      simp [submissions, TrialRun.submitNext, submit, TrialState.submitted]
    rw [hsubmissions, hlength, h.submitted, h.next, List.range_succ]
  · have hunfinished : (TrialRun.submitNext clock workload group r).unfinished =
        r.unfinished + 1 := by
      rw [unfinished, htasks, List.countP_append]
      rfl
    rw [hunfinished, Int.natCast_add, ← h.inFlight]
    rfl

theorem Core.with_requests (h : Core order r) (requests : List RequestRecord)
    (position : Position) : Core order { r with requests := requests, position := position } :=
  ⟨h.numbered, h.next, h.order, h.submitted, h.inFlight⟩

/-- The tasks are as many as the requests taken, the results to take, and the active ones. -/
theorem Awaits.length {results : List RequestRecord} {active : List ℕ}
    (h : Awaits width count r results active) :
    r.tasks.length = r.requests.length + results.length + active.length := by
  simpa [Nat.add_assoc] using h.all.length_eq.symm

/-- What is unfinished is active. -/
theorem Awaits.unfinished_eq {results : List RequestRecord} {active : List ℕ}
    (h : Awaits width count r results active) :
    r.unfinished = active.countP r.isRunning := by
  have hrange : r.unfinished = (List.range r.tasks.length).countP r.isRunning := by
    have hmap : r.tasks.map some = (List.range r.tasks.length).map fun i => r.tasks[i]? := by
      refine List.ext_getElem (by simp) fun i hi _ => ?_
      simp only [List.getElem_map, List.getElem_range]
      rw [List.getElem?_eq_getElem]
    have hcount := congrArg (List.countP fun t : Option RequestTask => t.any fun t => !t.done) hmap
    simp only [List.countP_map, Function.comp_def, Option.any_some] at hcount
    exact hcount
  have hdone : ((r.requests ++ results).map RequestRecord.requestIndex).countP r.isRunning = 0 := by
    rw [List.countP_eq_zero]
    intro i hi
    obtain ⟨q, hq, rfl⟩ := List.mem_map.mp hi
    simp [isRunning, h.taken q hq]
  rw [hrange, ← h.all.countP_eq, List.countP_append, hdone, Nat.zero_add]

/-- At most the active tasks are in flight. -/
theorem Awaits.unfinished_le {results : List RequestRecord} {active : List ℕ}
    (h : Awaits width count r results active) :
    r.unfinished ≤ active.length := by
  rw [h.unfinished_eq]
  exact List.countP_le_length

/-- A result is taken, and its place is filled if a request is left. -/
theorem Awaits.replace (clock : ℕ → ℕ) (group : PromptGroup) {q : RequestRecord}
    {results : List RequestRecord} {active : List ℕ}
    (h : Awaits width workload.requestsPerTrial r (q :: results) active) (hcore : Core order r) :
    Core order (TrialRun.replace clock workload group r active q).1 ∧
    Awaits width workload.requestsPerTrial (TrialRun.replace clock workload group r active q).1
      results (TrialRun.replace clock workload group r active q).2 := by
  have hlength := h.length
  have hfull := h.full
  have hbounded := h.bounded
  have hpeak := h.peak
  have hle := h.unfinished_le
  rw [List.length_cons] at hlength hfull hbounded
  have hcore' : Core order { r with requests := r.requests ++ [q] } := hcore.with_requests _ _
  have htaken : ∀ p ∈ (r.requests ++ [q]) ++ results,
      r.tasks[p.requestIndex]? = some { record := p, done := true } := by
    simpa using h.taken
  have hall : ((((r.requests ++ [q]) ++ results).map RequestRecord.requestIndex) ++ active).Perm
      (List.range r.tasks.length) := by simpa using h.all
  rw [TrialRun.replace]
  split
  case isTrue hnext =>
    obtain ⟨record, htasks, -, -⟩ :=
      submitNext_spec clock workload group { r with requests := r.requests ++ [q] }
    have hlt : r.tasks.length < workload.requestsPerTrial := by
      rw [← hcore.next]
      exact hnext
    refine ⟨hcore'.submitNext, ⟨?_, fun p hp => ?_, ?_, ?_, ?_⟩⟩
    · rw [htasks, List.length_append, List.length_singleton, List.range_succ, ← List.append_assoc]
      exact hall.append_right _
    · rw [htasks]
      have hp' := htaken p hp
      rw [List.getElem?_append_left (List.getElem?_eq_some_iff.mp hp').1, hp']
    · simp only [requests_submitNext, List.length_append, List.length_singleton]
      omega
    · simp only [requests_submitNext, List.length_append, List.length_singleton]
      omega
    · change max r.state.maximumInFlight (r.state.inFlight + 1) ≤ (width : ℤ)
      rw [hcore.inFlight]
      omega
  case isFalse hnext =>
    have hge : workload.requestsPerTrial ≤ r.tasks.length := by
      rw [← hcore.next]
      exact Nat.le_of_not_lt hnext
    refine ⟨hcore', ⟨hall, htaken, ?_, ?_, hpeak⟩⟩ <;>
      simp only [List.length_append, List.length_singleton] <;> omega

theorem finished_replace {active : List ℕ} {q : RequestRecord} :
    (TrialRun.replace clock workload group r active q).1.finished = r.finished := by
  rw [TrialRun.replace]
  split
  case isTrue =>
    obtain ⟨record, htasks, -, -⟩ :=
      submitNext_spec clock workload group { r with requests := r.requests ++ [q] }
    rw [finished, htasks, List.countP_append]
    rfl
  case isFalse => rfl

theorem finished_replaceEach (clock : ℕ → ℕ) (workload : Workload) (group : PromptGroup)
    (r : TrialRun) (active : List ℕ) (results : List RequestRecord) :
    (TrialRun.replaceEach clock workload group r active results).1.finished = r.finished := by
  induction results generalizing r active with
  | nil => rfl
  | cons q results ih => rw [TrialRun.replaceEach, ih, finished_replace]

theorem finished_finish : (finish workload r).finished = r.finished := by
  unfold finish
  split <;> rfl

/-- No active task has ended. -/
def Fresh (r : TrialRun) (active : List ℕ) : Prop := ∀ i ∈ active, r.isRunning i

theorem Fresh.replace {q : RequestRecord} {active : List ℕ} (h : Fresh r active) :
    Fresh (TrialRun.replace clock workload group r active q).1
      (TrialRun.replace clock workload group r active q).2 := by
  rw [TrialRun.replace]
  split
  case isTrue =>
    obtain ⟨record, htasks, -, -⟩ :=
      submitNext_spec clock workload group { r with requests := r.requests ++ [q] }
    intro i hi
    rcases List.mem_append.mp hi with hi | hi
    · obtain ⟨t, ht, hdone⟩ := (Option.any_eq_true _ _).mp (h i hi)
      have hlt := (List.getElem?_eq_some_iff.mp ht).1
      rw [isRunning, htasks, List.getElem?_append_left hlt, ht]
      exact hdone
    · obtain rfl := List.mem_singleton.mp hi
      simp [isRunning, htasks]
  case isFalse => exact h

/-- What the loop over a group of completions keeps, result by result. -/
theorem Awaits.replaceEach (clock : ℕ → ℕ) (group : PromptGroup)
    {results : List RequestRecord} {active : List ℕ}
    (h : Awaits width workload.requestsPerTrial r results active) (hcore : Core order r)
    (hfresh : Fresh r active) :
    Core order (TrialRun.replaceEach clock workload group r active results).1 ∧
    Awaits width workload.requestsPerTrial
      (TrialRun.replaceEach clock workload group r active results).1 []
      (TrialRun.replaceEach clock workload group r active results).2 ∧
    Fresh (TrialRun.replaceEach clock workload group r active results).1
      (TrialRun.replaceEach clock workload group r active results).2 ∧
    (TrialRun.replaceEach clock workload group r active results).1.requests.length =
      r.requests.length + results.length := by
  induction results generalizing r active with
  | nil => exact ⟨hcore, h, hfresh, rfl⟩
  | cons q results ih =>
    obtain ⟨hcore', h'⟩ := h.replace clock group hcore
    obtain ⟨hcore'', h'', hfresh'', hlength⟩ := ih h' hcore' hfresh.replace
    refine ⟨hcore'', h'', hfresh'', ?_⟩
    have hone : (TrialRun.replace clock workload group r active q).1.requests.length =
        r.requests.length + 1 := by
      rw [TrialRun.replace]
      split <;> simp
    rw [TrialRun.replaceEach, hlength, hone, List.length_cons]
    omega

/-- The active tasks are in flight when none of them has ended. -/
theorem Awaits.unfinished_fresh {active : List ℕ} (h : Awaits width count r [] active)
    (hfresh : Fresh r active) : r.unfinished = active.length := by
  rw [h.unfinished_eq, List.countP_eq_length]
  exact hfresh

/-! ## The start and the end -/

theorem core_blank (trialIndex : ℕ) : Core order (blank workload trialIndex order) where
  numbered i t h := by simp [blank] at h
  next := rfl
  order := rfl
  submitted := rfl
  inFlight := rfl

theorem isRunning_submitNext {i : ℕ} (h : r.isRunning i ∨ i = r.tasks.length) :
    (submitNext clock workload group r).isRunning i := by
  obtain ⟨record, htasks, -, -⟩ := submitNext_spec clock workload group r
  rcases h with h | rfl
  · obtain ⟨t, ht, hdone⟩ := (Option.any_eq_true _ _).mp h
    have hlt := (List.getElem?_eq_some_iff.mp ht).1
    rw [isRunning, htasks, List.getElem?_append_left hlt, ht]
    exact hdone
  · simp [isRunning, htasks]

theorem submitFirst_spec (clock : ℕ → ℕ) (workload : Workload) (group : PromptGroup)
    (trialIndex order k : ℕ) :
    Core order (submitFirst clock workload group (blank workload trialIndex order) k) ∧
    (submitFirst clock workload group (blank workload trialIndex order) k).requests = [] ∧
    (submitFirst clock workload group (blank workload trialIndex order) k).tasks.length = k ∧
    Fresh (submitFirst clock workload group (blank workload trialIndex order) k)
      (List.range k) ∧
    (submitFirst clock workload group (blank workload trialIndex order) k).state.maximumInFlight =
      (submitFirst clock workload group (blank workload trialIndex order) k).state.inFlight := by
  induction k with
  | zero => exact ⟨core_blank trialIndex, rfl, rfl, nofun, rfl⟩
  | succ k ih =>
    obtain ⟨hcore, hrequests, hlength, hfresh, hpeak⟩ := ih
    obtain ⟨record, htasks, -, -⟩ := submitNext_spec clock workload group
      (submitFirst clock workload group (blank workload trialIndex order) k)
    refine ⟨hcore.submitNext, hrequests, ?_, fun i hi => isRunning_submitNext ?_, ?_⟩
    · rw [submitFirst, htasks, List.length_append, hlength, List.length_singleton]
    · rw [List.range_succ, List.mem_append, List.mem_singleton] at hi
      rw [hlength]
      exact hi.imp_left (hfresh i)
    · exact max_eq_right (by rw [hpeak]; exact Int.le_add_one (Int.le_refl _))

/-- All requests are taken. -/
structure Complete (count : ℕ) (r : TrialRun) : Prop where
  length : r.tasks.length = count
  all : (r.requests.map RequestRecord.requestIndex).Perm (List.range count)
  taken : ∀ q ∈ r.requests, r.tasks[q.requestIndex]? = some { record := q, done := true }

theorem Awaits.complete (h : Awaits width count r [] []) (hwidth : 1 ≤ width) :
    Complete count r := by
  have hlength := h.length
  have hfull := h.full
  have hbounded := h.bounded
  simp only [List.length_nil, Nat.add_zero] at hlength hfull hbounded
  have hcount : r.tasks.length = count := by omega
  refine ⟨hcount, ?_, ?_⟩
  · simpa [hcount] using h.all
  · simpa using h.taken

/-- Sorted by their index, the requests are the records of the tasks. -/
theorem Complete.tasks_eq (h : Complete count r) :
    r.tasks = r.sortedRequests.map fun q => { record := q, done := true } := by
  have hindex : r.sortedRequests.map RequestRecord.requestIndex = List.range count := by
    rw [sortedRequests, List.map_insertionSort _ (· ≤ ·) _ _ fun _ _ _ _ => Iff.rfl]
    refine List.Perm.eq_of_sortedLE List.sortedLE_insertionSort
      (List.pairwise_le_range).sortedLE ?_
    exact (List.perm_insertionSort _ _).trans h.all
  have hlookup : r.sortedRequests.map (fun q => r.tasks[q.requestIndex]?) =
      r.sortedRequests.map fun q => some { record := q, done := true } := by
    refine List.map_congr_left fun q hq => h.taken q ?_
    exact (List.mem_insertionSort _).mp hq
  have hall : r.tasks.map some = r.sortedRequests.map fun q => r.tasks[q.requestIndex]? := by
    have hmap := congrArg (List.map fun i => r.tasks[i]?) hindex
    rw [List.map_map] at hmap
    rw [show r.sortedRequests.map (fun q => r.tasks[q.requestIndex]?) = _ from hmap]
    refine List.ext_getElem (by simp [h.length]) fun i hi _ => ?_
    simp only [List.getElem_map, List.getElem_range]
    rw [List.getElem?_eq_getElem]
  have hsome : r.tasks.map some =
      (r.sortedRequests.map fun q => { record := q, done := true }).map some := by
    rw [hall, hlookup, List.map_map]
    rfl
  exact List.map_injective_iff.mpr (Option.some_injective _) hsome

/-- What `_execute_trial` returns, when all requests are taken. -/
theorem Complete.finish (h : Complete workload.requestsPerTrial r) :
    ∃ trial, TrialRun.finish workload r =
        { r with requests := r.sortedRequests, position := .returned trial } ∧
      trial.requests = r.sortedRequests := by
  have hlength : r.sortedRequests.length = workload.requestsPerTrial := by
    rw [← h.length, h.tasks_eq, List.length_map]
  have hpos := workload.requests_pos
  unfold TrialRun.finish
  split
  case h_1 hnil =>
    rw [hnil] at hlength
    simp only [List.length_nil] at hlength
    omega
  case h_2 first rest hcons =>
    rw [hcons]
    exact ⟨_, rfl, rfl⟩

/-! ## The invariant -/

/-- How many requests a mode keeps in flight. -/
def widthOf (workload : Workload) : ℕ :=
  match workload.loadMode with
  | .sequential => 1
  | .burst => workload.requestsPerTrial
  | .closedLoop => workload.concurrency

theorem one_le_widthOf (workload : Workload) : 1 ≤ widthOf workload := by
  rw [widthOf]
  cases workload.loadMode with
  | sequential => exact Nat.le_refl 1
  | burst => exact workload.requests_pos
  | closedLoop => exact workload.concurrency_pos

/-- The tasks that the trial awaits. -/
def awaited (r : TrialRun) : List ℕ :=
  match r.position with
  | .awaiting task => [task]
  | .gathering => List.range r.tasks.length
  | .waiting active => active
  | .returned _ | .raised _ => []

/-- The trial awaits what its mode says, or is back with a record for every task. -/
def Placed (workload : Workload) (r : TrialRun) : Prop :=
  match r.position with
  | .awaiting _ => workload.loadMode = .sequential
  | .gathering => workload.loadMode = .burst ∧ r.requests = []
  | .waiting active => workload.loadMode = .closedLoop ∧ active ≠ []
  | .returned trial => trial.requests = r.tasks.map RequestTask.record
  | .raised _ => False

/-- The invariant of a trial. -/
structure Inv (workload : Workload) (order : ℕ) (r : TrialRun) : Prop where
  core : Core order r
  awaits : Awaits (widthOf workload) workload.requestsPerTrial r [] r.awaited
  placed : Placed workload r

theorem Inv.length_le (h : Inv workload order r) : r.tasks.length ≤ workload.requestsPerTrial := by
  have hlength := h.awaits.length
  have hfull := h.awaits.full
  have hbounded := h.awaits.bounded
  simp only [List.length_nil, Nat.add_zero] at hlength hfull hbounded
  omega

/-- A trial that goes on: it is somewhere, and what it awaits is running. -/
theorem inv_finish (hcore : Core order r)
    (h : Awaits (widthOf workload) workload.requestsPerTrial r [] []) :
    Inv workload order (finish workload r) ∧ Fresh (finish workload r) (finish workload r).awaited ∧
      (finish workload r).requests.length = r.requests.length ∧
      ∃ trial, (finish workload r).position = .returned trial := by
  have hcomplete := h.complete (one_le_widthOf workload)
  obtain ⟨trial, hfinish, htrial⟩ := hcomplete.finish
  have htasks : r.tasks.map RequestTask.record = r.sortedRequests := by
    rw [hcomplete.tasks_eq, List.map_map]
    exact List.map_id _
  have hperm : r.sortedRequests.Perm r.requests := List.perm_insertionSort _ _
  rw [hfinish]
  refine ⟨⟨hcore.with_requests _ _, ⟨?_, fun q hq => ?_, ?_, ?_, h.peak⟩,
    htrial.trans htasks.symm⟩, nofun, hperm.length_eq, trial, rfl⟩
  · simpa [awaited] using (hperm.map _).trans (by simpa using h.all)
  · refine h.taken q ?_
    simpa using hperm.mem_iff.mp (by simpa using hq)
  · have hfull := h.full
    rw [← hperm.length_eq] at hfull
    exact hfull
  · have hbounded := h.bounded
    rw [← hperm.length_eq] at hbounded
    exact hbounded

/-- The first submissions are as many as the mode keeps in flight, and all of them are awaited. -/
theorem inv_start (trialIndex order : ℕ) :
    Inv workload order (start clock workload group trialIndex order) ∧
      Fresh (start clock workload group trialIndex order)
        (start clock workload group trialIndex order).awaited := by
  have hpos := workload.requests_pos
  have hcpos := workload.concurrency_pos
  obtain ⟨hcore, hrequests, hlength, hfresh, hpeak⟩ := submitFirst_spec clock workload group
    trialIndex order (opening workload).1
  have hsum : (submitFirst clock workload group (blank workload trialIndex order)
      (opening workload).1).unfinished ≤ (opening workload).1 := by
    exact Nat.le_trans List.countP_le_length (Nat.le_of_eq hlength)
  have hopening : (opening workload).1 = min (widthOf workload) workload.requestsPerTrial ∧
      Placed workload (start clock workload group trialIndex order) ∧
      (start clock workload group trialIndex order).awaited = List.range (opening workload).1 := by
    cases hmode : workload.loadMode with
    | sequential =>
      have hopening : opening workload = (1, .awaiting 0) := by simp only [opening, hmode]
      refine ⟨?_, ?_, ?_⟩
      · simp only [hopening, widthOf, hmode]
        omega
      · simp only [Placed, start, hopening, hmode]
      · simp only [awaited, start, hopening]
        rfl
    | burst =>
      have hopening : opening workload = (workload.requestsPerTrial, .gathering) := by
        simp only [opening, hmode]
      refine ⟨?_, ?_, ?_⟩
      · simp only [hopening, widthOf, hmode, min_self]
      · simp only [Placed, start, hopening, hmode, true_and]
        rw [hopening] at hrequests
        exact hrequests
      · simp only [awaited, start, hopening]
        rw [hopening] at hlength
        rw [hlength]
    | closedLoop =>
      have hopening : opening workload = (min workload.concurrency workload.requestsPerTrial,
          .waiting (List.range (min workload.concurrency workload.requestsPerTrial))) := by
        simp only [opening, hmode]
      refine ⟨?_, ?_, ?_⟩
      · simp only [hopening, widthOf, hmode]
      · simp only [Placed, start, hopening, hmode, true_and, ne_eq, List.range_eq_nil]
        omega
      · simp only [awaited, start, hopening]
  obtain ⟨hcount, hplaced, hawaited⟩ := hopening
  refine ⟨⟨hcore.with_requests _ _, ?_, hplaced⟩, ?_⟩
  · rw [hawaited]
    have hnone : (start clock workload group trialIndex order).requests = [] := hrequests
    have hmany : (start clock workload group trialIndex order).tasks.length =
        (opening workload).1 := hlength
    refine ⟨?_, ?_, ?_, ?_, ?_⟩
    · simp [hnone, hmany]
    · simp [hnone]
    · simp [hnone, hcount]
    · simp [hnone]
    · change (submitFirst clock workload group (blank workload trialIndex order)
        (opening workload).1).state.maximumInFlight ≤ (widthOf workload : ℤ)
      rw [hcore.inFlight] at hpeak
      omega
  · rw [hawaited]
    exact hfresh

/-! ## The events -/

@[simp] theorem execute_numbers (record : RequestRecord) (now : ℕ)
    (result : Except Raised ResponseRecord) :
    (record.execute now result).requestIndex = record.requestIndex ∧
      (record.execute now result).requestOrder = record.requestOrder := by
  rcases result with error | response
  · exact ⟨rfl, rfl⟩
  · simp only [RequestRecord.execute]
    split
    · exact ⟨rfl, rfl⟩
    · split <;> exact ⟨rfl, rfl⟩

/-- A task that is done changes neither its place nor what the trial awaits. -/
theorem awaited_set {task : ℕ} {t : RequestTask} {state : TrialState} :
    awaited { r with tasks := r.tasks.set task t, state := state } = r.awaited := by
  simp only [awaited]
  cases r.position with
  | gathering => rw [List.length_set]
  | awaiting _ | waiting _ | returned _ | raised _ => rfl

/-- A task ends. -/
theorem Inv.complete {task now : ℕ} {result : Except Raised ResponseRecord} {r' : TrialRun}
    (h : Inv workload order r) (hop : r.complete task result now = some r') :
    Inv workload order r' ∧ r'.unfinished + 1 = r.unfinished ∧ r'.tasks.length = r.tasks.length ∧
      r'.requests = r.requests ∧ r'.position = r.position := by
  obtain ⟨t, ht, hsome⟩ := Option.bind_eq_some_iff.mp hop
  obtain ⟨hindex, horder⟩ := h.core.numbered task t ht
  obtain ⟨hlt, hget⟩ := List.getElem?_eq_some_iff.mp ht
  split at hsome
  case isTrue => cases hsome
  case isFalse hrunning =>
    have hnot : t.done = false := by simpa using hrunning
    have hpos : 0 < r.unfinished :=
      List.countP_pos_iff.mpr ⟨t, List.mem_of_getElem? ht, by simp [hnot]⟩
    obtain ⟨hindex', horder'⟩ := execute_numbers t.record now result
    obtain rfl := Option.some.inj hsome
    generalize t.record.execute now result = record at hindex' horder' ⊢
    have hcount : ((r.tasks.set task { record := record, done := true }).countP
        fun t => !t.done) + 1 = r.unfinished := by
      rw [List.countP_set hlt, hget]
      simp only [hnot, Bool.not_false, if_true, Bool.not_true, Bool.false_eq_true, if_false]
      exact Nat.succ_pred_eq_of_pos hpos
    refine ⟨⟨⟨fun i t' hi => ?_, ?_, ?_, ?_, ?_⟩,
      ⟨?_, fun q hq => ?_, ?_, h.awaits.bounded, h.awaits.peak⟩, ?_⟩, hcount,
      List.length_set, rfl, rfl⟩
    · by_cases hi' : task = i
      · subst hi'
        rw [List.getElem?_set_self hlt] at hi
        obtain rfl := Option.some.inj hi
        exact ⟨hindex'.trans hindex, horder'.trans horder⟩
      · rw [List.getElem?_set_ne hi'] at hi
        exact h.core.numbered i t' hi
    · rw [List.length_set]
      exact h.core.next
    · rw [List.length_set]
      exact h.core.order
    · rw [List.length_set, ← h.core.submitted]
      simp [submissions, TrialState.completed]
    · change r.state.inFlight - 1 = (((r.tasks.set task { record := record, done := true }).countP
        fun t => !t.done : ℕ) : ℤ)
      rw [h.core.inFlight, ← hcount]
      omega
    · rw [awaited_set, List.length_set]
      exact h.awaits.all
    · have htaken := h.awaits.taken q hq
      rw [List.getElem?_set_ne, htaken]
      rintro rfl
      rw [ht] at htaken
      rw [Option.some.inj htaken] at hnot
      cases hnot
    · rw [awaited_set]
      exact h.awaits.full
    · have hplaced := h.placed
      have hle := h.awaits.unfinished_le
      simp only [Placed, awaited] at hplaced hle ⊢
      cases hposition : r.position with
      | returned trial =>
        rw [hposition] at hle
        exact absurd hle (Nat.not_le.mpr hpos)
      | raised e =>
        rw [hposition] at hplaced
        exact hplaced
      | awaiting _ | gathering | waiting _ =>
        rw [hposition] at hplaced
        exact hplaced

/-- The results of tasks that are done are to be taken. -/
theorem Awaits.take {active rest : List ℕ} {results : List RequestRecord}
    (h : Awaits width count r [] active)
    (hactive : (results.map RequestRecord.requestIndex ++ rest).Perm active)
    (htaken : ∀ q ∈ results, r.tasks[q.requestIndex]? = some { record := q, done := true }) :
    Awaits width count r results rest := by
  have hlength := hactive.length_eq
  have hfull := h.full
  have hbounded := h.bounded
  simp only [List.length_append, List.length_map, List.length_nil] at hlength hfull hbounded
  refine ⟨?_, fun q hq => ?_, by omega, by omega, h.peak⟩
  · have hall := h.all
    simp only [List.append_nil] at hall
    rw [List.map_append, List.append_assoc]
    exact (hactive.append_left _).trans hall
  · rcases List.mem_append.mp hq with hq | hq
    · exact h.taken q (List.mem_append_left _ hq)
    · exact htaken q hq

theorem result?_eq_some {task : ℕ} {q : RequestRecord} (hcore : Core order r)
    (h : r.result? task = some q) :
    q.requestIndex = task ∧ r.tasks[q.requestIndex]? = some { record := q, done := true } := by
  obtain ⟨t, ht, hsome⟩ := Option.bind_eq_some_iff.mp h
  split at hsome
  case isFalse => cases hsome
  case isTrue hdone =>
    obtain rfl := Option.some.inj hsome
    obtain ⟨hindex, -⟩ := hcore.numbered task t ht
    rw [hindex, ht]
    exact ⟨rfl, by rw [← hdone]⟩

theorem isRunning_of_result? {active : List ℕ} {task : ℕ} (h : Awaits width count r [] active)
    (hmem : task ∈ active) (hnone : r.result? task = none) : r.isRunning task := by
  have hlt : task < r.tasks.length := by
    have hrange := h.all.mem_iff.mp (List.mem_append_right _ hmem)
    exact List.mem_range.mp hrange
  simpa [result?, isRunning, List.getElem?_eq_getElem hlt] using hnone

/-- A group of completions is taken, and replaced. -/
theorem Inv.replaceEach {active rest : List ℕ} {results : List RequestRecord}
    (h : Awaits (widthOf workload) workload.requestsPerTrial r [] active) (hcore : Core order r)
    (hactive : (results.map RequestRecord.requestIndex ++ rest).Perm active)
    (htaken : ∀ q ∈ results, r.tasks[q.requestIndex]? = some { record := q, done := true })
    (hfresh : Fresh r rest) {r' : TrialRun} {active' : List ℕ}
    (hr : TrialRun.replaceEach clock workload group r rest results = (r', active')) :
    Core order r' ∧ Awaits (widthOf workload) workload.requestsPerTrial r' [] active' ∧
      Fresh r' active' ∧ r'.requests.length = r.requests.length + results.length ∧
      r'.finished = r.finished := by
  obtain ⟨hcore', hawaits, hfresh', hlength⟩ :=
    (h.take hactive htaken).replaceEach clock group hcore hfresh
  have hfinished := finished_replaceEach clock workload group r rest results
  rw [hr] at hcore' hawaits hfresh' hlength hfinished
  exact ⟨hcore', hawaits, hfresh', hlength, hfinished⟩

/-- What comes of an event that takes results. -/
structure Resumed (workload : Workload) (order : ℕ) (r r' : TrialRun) : Prop where
  inv : Inv workload order r'
  fresh : Fresh r' r'.awaited
  more : r.requests.length < r'.requests.length
  finished : r'.finished = r.finished

theorem resumed_of_active {r' : TrialRun} {active : List ℕ} {position : Position}
    (hcore : Core order r')
    (h : Awaits (widthOf workload) workload.requestsPerTrial r' [] active)
    (hfresh : Fresh r' active) (hmore : r.requests.length < r'.requests.length)
    (hfinished : r'.finished = r.finished)
    (hactive : awaited { r' with position := position } = active)
    (hplaced : Placed workload { r' with position := position }) :
    Resumed workload order r { r' with position := position } := by
  refine ⟨⟨hcore.with_requests _ _, ?_, hplaced⟩, ?_, hmore, hfinished⟩
  · rw [hactive]
    exact ⟨h.all, h.taken, h.full, h.bounded, h.peak⟩
  · rw [hactive]
    exact hfresh

theorem resumed_of_finish {r' : TrialRun} (hcore : Core order r')
    (h : Awaits (widthOf workload) workload.requestsPerTrial r' [] [])
    (hmore : r.requests.length < r'.requests.length) (hfinished : r'.finished = r.finished) :
    Resumed workload order r (finish workload r') := by
  obtain ⟨hinv, hfresh, hlength, -⟩ := inv_finish hcore h
  exact ⟨hinv, hfresh, hlength ▸ hmore, finished_finish.trans hfinished⟩

/-- The trial goes on. -/
theorem Inv.resume {ordering : List ℕ} {r' : TrialRun} (h : Inv workload order r)
    (hop : TrialRun.resume clock workload group r ordering = some r') :
    Resumed workload order r r' := by
  have hplaced := h.placed
  have hawaits := h.awaits
  simp only [Placed] at hplaced
  simp only [awaited] at hawaits
  unfold TrialRun.resume at hop
  cases hposition : r.position with
  | awaiting task =>
    rw [hposition] at hop hplaced hawaits
    obtain ⟨q, hq, hsome⟩ := Option.map_eq_some_iff.mp hop
    obtain ⟨hindex, htask⟩ := result?_eq_some h.core hq
    have hgroup : TrialRun.replaceEach clock workload group r [] [q] =
        TrialRun.replace clock workload group r [] q := rfl
    generalize TrialRun.replace clock workload group r [] q = next at hsome hgroup
    obtain ⟨r₁, active⟩ := next
    have hactive : ([q].map RequestRecord.requestIndex ++ []).Perm [task] := by simp [hindex]
    obtain ⟨hcore, hnext, hfresh, hlength, hfinished⟩ :=
      Inv.replaceEach hawaits h.core hactive (by simpa using htask) nofun hgroup
    have hmore : r.requests.length < r₁.requests.length := by
      rw [hlength]
      exact Nat.lt_succ_self _
    rcases active with _ | ⟨task', active⟩
    · obtain rfl := hsome
      exact resumed_of_finish hcore hnext hmore hfinished
    · have hone : active = [] := by
        have hfull := hnext.full
        have hwidth : widthOf workload = 1 := by simp only [widthOf, hplaced]
        rw [hwidth] at hfull
        simp only [List.length_nil, List.length_cons] at hfull
        exact List.length_eq_zero_iff.mp (by omega)
      subst hone
      obtain rfl := hsome
      exact resumed_of_active hcore hnext hfresh hmore hfinished rfl hplaced
  | gathering =>
    simp only [hposition] at hop hplaced hawaits
    split at hop
    case isFalse => cases hop
    case isTrue hall =>
      obtain rfl := Option.some.inj hop
      obtain ⟨hmode, hnone⟩ := hplaced
      have hlength : r.tasks.length = workload.requestsPerTrial := by
        have hfull := hawaits.full
        simpa [hnone, widthOf, hmode] using hfull
      have hpos := workload.requests_pos
      have hindex : (r.tasks.map RequestTask.record).map RequestRecord.requestIndex =
          List.range r.tasks.length := by
        refine List.ext_getElem (by simp) fun i hi _ => ?_
        simp only [List.length_map] at hi
        simp only [List.getElem_map, List.getElem_range]
        exact (h.core.numbered i _ (List.getElem?_eq_getElem hi)).1
      refine resumed_of_finish (h.core.with_requests _ _) ⟨?_, fun q hq => ?_, ?_, ?_,
        hawaits.peak⟩ ?_ rfl
      · rw [List.append_nil, List.append_nil, hindex]
      · rw [List.append_nil] at hq
        obtain ⟨t, ht, rfl⟩ := List.mem_map.mp hq
        obtain ⟨i, hi⟩ := List.mem_iff_getElem?.mp ht
        have hdone : t.done = true := List.all_eq_true.mp hall t ht
        rw [(h.core.numbered i t hi).1, hi, ← hdone]
      · simp [hlength]
      · simp [hlength]
      · simp only [hnone, List.length_nil, List.length_map]
        omega
  | waiting active =>
    simp only [hposition] at hop hplaced hawaits
    split at hop
    case isFalse => cases hop
    case isTrue hgroup =>
      obtain ⟨hmode, -⟩ := hplaced
      obtain ⟨hne, hordering⟩ := hgroup
      -- the results are those of the tasks that are done, each with its own number
      obtain ⟨results, hresults⟩ : ∃ results, results = (ordering.filterMap r.result?).insertionSort
        fun a b => a.completedNs.getD 0 ≤ b.completedNs.getD 0 := ⟨_, rfl⟩
      rw [← hresults] at hop
      have hperm : results.Perm (ordering.filterMap r.result?) := by
        rw [hresults]
        exact List.perm_insertionSort _ _
      have hmem {task : ℕ} (htask : task ∈ ordering) : (r.result? task).isSome := by
        have hfilter := hordering.mem_iff.mp htask
        exact (List.mem_filter.mp hfilter).2
      have hindex : (results.map RequestRecord.requestIndex).Perm ordering := by
        refine (hperm.map _).trans ?_
        have hsome : ∀ task ∈ ordering,
            (r.result? task).map RequestRecord.requestIndex = some task := by
          intro task htask
          obtain ⟨q, hq⟩ := Option.isSome_iff_exists.mp (hmem htask)
          rw [hq, Option.map_some, (result?_eq_some h.core hq).1]
        rw [List.map_filterMap, List.filterMap_congr hsome, List.filterMap_some]
      have htaken : ∀ q ∈ results,
          r.tasks[q.requestIndex]? = some { record := q, done := true } := by
        intro q hq
        obtain ⟨task, -, htask⟩ := List.mem_filterMap.mp (hperm.mem_iff.mp hq)
        exact (result?_eq_some h.core htask).2
      have hactive : (results.map RequestRecord.requestIndex ++
          active.filter fun task => (r.result? task).isNone).Perm active := by
        refine ((hindex.trans hordering).append_right _).trans ?_
        simpa using List.filter_append_perm (fun task => (r.result? task).isSome) active
      have hfresh : Fresh r (active.filter fun task => (r.result? task).isNone) := by
        intro task htask
        obtain ⟨hmem, hnone⟩ := List.mem_filter.mp htask
        exact isRunning_of_result? hawaits hmem (by simpa using hnone)
      have hpos : 0 < results.length := by
        rw [← List.length_map RequestRecord.requestIndex, (hindex.trans hordering).length_eq]
        exact List.length_pos_iff.mpr hne
      generalize hnext : TrialRun.replaceEach clock workload group r _ results = next at hop
      obtain ⟨r₁, active'⟩ := next
      obtain ⟨hcore, hawaits', hfresh', hlength, hfinished⟩ :=
        Inv.replaceEach hawaits h.core hactive htaken hfresh hnext
      have hmore : r.requests.length < r₁.requests.length := by
        rw [hlength]
        omega
      by_cases hempty : active' = []
      · simp only [hempty, if_true, Option.some.injEq] at hop
        rw [← hop]
        exact resumed_of_finish hcore (hempty ▸ hawaits') hmore hfinished
      · simp only [hempty, if_false, Option.some.injEq] at hop
        rw [← hop]
        exact resumed_of_active hcore hawaits' hfresh' hmore hfinished rfl ⟨hmode, hempty⟩
  | returned _ | raised _ =>
    rw [hposition] at hop
    cases hop

/-! ## The declared load -/

theorem finished_add_unfinished (r : TrialRun) : r.finished + r.unfinished = r.tasks.length := by
  rw [finished, unfinished, List.length_eq_countP_add_countP RequestTask.done]
  simp only [Bool.not_eq_true, Bool.decide_eq_false]

/-- The declared load of a trial, and what it has come to. -/
structure DeclaredLoad (workload : Workload) (order : ℕ) (r : TrialRun) : Prop where
  /-- The requests are submitted in order, each once. -/
  submitted : r.submissions = List.range r.tasks.length ∧
    r.tasks.length ≤ workload.requestsPerTrial
  /-- The counter is the number of requests that are out. -/
  counted : r.state.inFlight = r.unfinished
  bounded : workload.loadMode = .closedLoop → r.state.inFlight ≤ workload.concurrency ∧
    r.state.maximumInFlight ≤ workload.concurrency
  /-- At the end there is a record for every request, in order, and nothing is out. -/
  returned : ∀ trial, r.position = .returned trial →
    r.submissions = List.range workload.requestsPerTrial ∧
    trial.requests.map RequestRecord.requestIndex = List.range workload.requestsPerTrial ∧
    trial.requests.map RequestRecord.requestOrder =
      List.range' order workload.requestsPerTrial ∧
    r.requestOrder = order + workload.requestsPerTrial ∧ r.state.inFlight = 0

theorem Inv.declaredLoad (h : Inv workload order r) : DeclaredLoad workload order r := by
  have hle := h.awaits.unfinished_le
  have hfull := h.awaits.full
  refine ⟨⟨h.core.submitted, h.length_le⟩, h.core.inFlight, fun hmode => ?_, fun trial htrial => ?_⟩
  · have hwidth : widthOf workload = workload.concurrency := by simp only [widthOf, hmode]
    have hpeak := h.awaits.peak
    rw [hwidth] at hfull hpeak
    rw [List.length_nil, Nat.zero_add] at hfull
    refine ⟨?_, hpeak⟩
    rw [h.core.inFlight]
    omega
  · have hawaited : r.awaited = [] := by simp only [awaited, htrial]
    have hplaced := h.placed
    simp only [Placed, htrial] at hplaced
    have hlength : r.tasks.length = workload.requestsPerTrial :=
      ((hawaited ▸ h.awaits).complete (one_le_widthOf workload)).length
    have hnumber (i : ℕ) (hi : i < r.tasks.length) :
        (r.tasks[i]).record.requestIndex = i ∧ (r.tasks[i]).record.requestOrder = order + i :=
      h.core.numbered i _ (List.getElem?_eq_getElem hi)
    refine ⟨hlength ▸ h.core.submitted, ?_, ?_, hlength ▸ h.core.order, ?_⟩
    · rw [hplaced]
      refine List.ext_getElem (by simp [hlength]) fun i hi _ => ?_
      simp only [List.length_map] at hi
      simpa using (hnumber i hi).1
    · rw [hplaced]
      refine List.ext_getElem (by simp [hlength]) fun i hi _ => ?_
      simp only [List.length_map] at hi
      simpa using (hnumber i hi).2
    · rw [hawaited] at hle
      rw [h.core.inFlight, Nat.le_zero.mp hle]
      rfl

/-- When a trial has gone on, as many requests are out as it may have. -/
theorem Inv.refilled (h : Inv workload order r) (hfresh : Fresh r r.awaited) :
    r.state.inFlight =
      (min (widthOf workload) (workload.requestsPerTrial - r.finished) : ℕ) := by
  have hunfinished := h.awaits.unfinished_fresh hfresh
  have hlength := h.awaits.length
  have hfull := h.awaits.full
  have hsum := r.finished_add_unfinished
  simp only [List.length_nil, Nat.add_zero, Nat.zero_add] at hlength hfull
  have hfinished : r.finished = r.requests.length := by omega
  rw [h.core.inFlight, hunfinished, hfull, hfinished]

theorem step_fst (r : TrialRun) (event : TrialEvent) :
    (step clock workload group r event).1 = (step? clock workload group r event).isSome := by
  rw [step]
  cases step? clock workload group r event <;> rfl

/-- A trial that is not back can go on, or one of its requests can end. -/
theorem Inv.progress (h : Inv workload order r)
    (hback : ∀ trial, r.position ≠ .returned trial) :
    ∃ event, (step clock workload group r event).1 = true := by
  simp only [step_fst]
  by_cases hrunning : ∃ task, r.isRunning task
  · obtain ⟨task, htask⟩ := hrunning
    obtain ⟨t, ht, hdone⟩ := (Option.any_eq_true _ _).mp htask
    refine ⟨.complete task (.error ⟨"TimeoutError", ""⟩) 0, ?_⟩
    rw [TrialRun.step?, TrialRun.complete, ht, Option.bind_some, if_neg (by simpa using hdone)]
    rfl
  · have hdone {active : List ℕ} {task : ℕ} (hactive : r.awaited = active) (hmem : task ∈ active) :
        (r.result? task).isSome := by
      refine Option.isSome_iff_ne_none.mpr fun hnone => hrunning ⟨task, ?_⟩
      exact isRunning_of_result? h.awaits (hactive ▸ hmem) hnone
    have hplaced := h.placed
    cases hposition : r.position with
    | awaiting task =>
      have htask := hdone (by simp only [awaited, hposition]) (List.mem_singleton_self task)
      refine ⟨.resume [], ?_⟩
      simp only [TrialRun.step?, TrialRun.resume, hposition, Option.isSome_map, htask]
    | gathering =>
      have hall : r.tasks.all RequestTask.done = true := by
        refine List.all_eq_true.mpr fun t ht => ?_
        obtain ⟨i, hi⟩ := List.mem_iff_getElem?.mp ht
        by_contra hnot
        exact hrunning ⟨i, by simpa [isRunning, hi] using hnot⟩
      refine ⟨.resume [], ?_⟩
      simp only [TrialRun.step?, TrialRun.resume, hposition, hall, if_true, Option.isSome_some]
    | waiting active =>
      have hfilter : (active.filter fun task => (r.result? task).isSome) = active :=
        List.filter_eq_self.mpr fun task htask => hdone (by simp only [awaited, hposition]) htask
      simp only [Placed, hposition] at hplaced
      refine ⟨.resume active, ?_⟩
      simp only [TrialRun.step?, TrialRun.resume, hposition, hfilter]
      rw [if_pos ⟨hplaced.2, .refl _⟩]
      rfl
    | returned trial => exact absurd hposition (hback trial)
    | raised e => simp only [Placed, hposition] at hplaced

theorem Inv.step? {event : TrialEvent} {r' : TrialRun} (h : Inv workload order r)
    (hop : TrialRun.step? clock workload group r event = some r') :
    Inv workload order r' ∧ r.finished + r.requests.length < r'.finished + r'.requests.length := by
  cases event with
  | complete task result now =>
    obtain ⟨hinv, hunfinished, hlength, hrequests, -⟩ := h.complete hop
    have hsum := r.finished_add_unfinished
    have hsum' := r'.finished_add_unfinished
    rw [hrequests]
    exact ⟨hinv, by omega⟩
  | resume ordering =>
    have hresumed := h.resume hop
    have hmore := hresumed.more
    have hfinished := hresumed.finished
    exact ⟨hresumed.inv, by omega⟩

theorem Inv.step (h : Inv workload order r) (event : TrialEvent) :
    Inv workload order (TrialRun.step clock workload group r event).2 := by
  rw [TrialRun.step]
  cases hop : TrialRun.step? clock workload group r event with
  | some r' => exact (h.step? hop).1
  | none => exact h

theorem Inv.exec (h : Inv workload order r) (events : List TrialEvent) :
    Inv workload order (Run.exec (TrialRun.step clock workload group) r events) := by
  have hstep : ∀ (r : TrialRun) event, Inv workload order r → True →
      Inv workload order (TrialRun.step clock workload group r event).2 :=
    fun r event h _ => h.step event
  exact Run.exec_invariant hstep h (Run.each_true _ _)

/-- The event can happen. -/
def Happens (clock : ℕ → ℕ) (workload : Workload) (group : PromptGroup) (r : TrialRun)
    (event : TrialEvent) : Prop := (TrialRun.step clock workload group r event).1 = true

instance (r : TrialRun) : DecidablePred (Happens clock workload group r) := fun event =>
  inferInstanceAs (Decidable ((TrialRun.step clock workload group r event).1 = true))

/-- Every event that happens uses up one of two for each request. -/
theorem Inv.length_le_of_each {events : List TrialEvent} (h : Inv workload order r)
    (hevents : Run.Each (TrialRun.step clock workload group) (Happens clock workload group) r
      events) :
    events.length + (r.finished + r.requests.length) ≤ 2 * workload.requestsPerTrial := by
  induction events generalizing r with
  | nil =>
    have hsum := r.finished_add_unfinished
    have hlength := h.length_le
    have hbounded := h.awaits.bounded
    simp only [List.length_nil] at hbounded ⊢
    omega
  | cons event events ih =>
    obtain ⟨hhappens, hrest⟩ := hevents
    rw [Happens, step_fst] at hhappens
    obtain ⟨r', hop⟩ := Option.isSome_iff_exists.mp hhappens
    have hnext : (TrialRun.step clock workload group r event).2 = r' := by
      rw [TrialRun.step, hop]
    rw [hnext] at hrest
    obtain ⟨hinv, hmore⟩ := h.step? hop
    have hle := ih hinv hrest
    rw [List.length_cons]
    omega

/-- The trials one after the other number their requests without a gap. -/
theorem requestOrder_consecutive {trials : List PlannedTrial} {order order' : ℕ}
    {records : List TrialRecord} (h : executeWorkloads order trials = some (records, order')) :
    order' = order + (trials.map fun t => t.workload.requestsPerTrial).sum ∧
    records.flatMap (fun record => record.requests.map RequestRecord.requestOrder) =
      List.range' order (order' - order) := by
  induction trials generalizing order records with
  | nil =>
    obtain ⟨rfl, rfl⟩ := Prod.mk.inj (Option.some.inj h)
    simp
  | cons trial trials ih =>
    have hinv : Inv trial.workload order (run order trial) :=
      (inv_start trial.trialIndex order).1.exec trial.events
    rw [executeWorkloads] at h
    split at h
    case h_2 => cases h
    case h_1 record hrecord =>
      obtain ⟨⟨records', order''⟩, hrest, heq⟩ := Option.map_eq_some_iff.mp h
      obtain ⟨rfl, rfl⟩ := Prod.mk.inj heq
      obtain ⟨-, -, horders, hnext, -⟩ := hinv.declaredLoad.returned record hrecord
      rw [hnext] at hrest
      obtain ⟨hend, hconsecutive⟩ := ih hrest
      refine ⟨?_, ?_⟩
      · rw [hend, List.map_cons, List.sum_cons, Nat.add_assoc]
      · rw [List.flatMap_cons, horders, hconsecutive]
        rw [hend, Nat.add_sub_cancel_left, Nat.add_assoc, Nat.add_sub_cancel_left,
          List.range'_append_1]

/-- **Every trial submits its declared load.** In every order of events: the requests are
submitted in order, each once, and the counter of a trial in closed loop never exceeds the
concurrency; whenever it has gone on, as many are out as the concurrency and the requests left
allow.  A trial that is not back can go on or one of its requests can end, and it is back after
at most two events for each request.  The order of requests has no gap over all trials. -/
theorem submits_declared_load (clock : ℕ → ℕ) (workload : Workload) (group : PromptGroup)
    (trialIndex order : ℕ) :
    (∀ events r, Run.exec (TrialRun.step clock workload group)
        (start clock workload group trialIndex order) events = r →
      DeclaredLoad workload order r ∧
      (∀ ordering, Happens clock workload group r (.resume ordering) →
        workload.loadMode = .closedLoop → ∀ r', (TrialRun.step clock workload group r
          (.resume ordering)).2 = r' →
          r'.state.inFlight = (min workload.concurrency
            (workload.requestsPerTrial - r'.finished) : ℕ)) ∧
      ((∀ trial, r.position ≠ .returned trial) → ∃ event, Happens clock workload group r event)) ∧
    (∀ events, Run.Each (TrialRun.step clock workload group) (Happens clock workload group)
        (start clock workload group trialIndex order) events →
      events.length ≤ 2 * workload.requestsPerTrial) ∧
    ∀ trials records order', executeWorkloads order trials = some (records, order') →
      order' = order + (trials.map fun t => t.workload.requestsPerTrial).sum ∧
      records.flatMap (fun record => record.requests.map RequestRecord.requestOrder) =
        List.range' order (order' - order) := by
  have hstart : Inv workload order (start clock workload group trialIndex order) :=
    (inv_start trialIndex order).1
  refine ⟨fun events r hr => ?_, fun events hevents => ?_,
    fun trials records order' h => requestOrder_consecutive h⟩
  · have hinv : Inv workload order r := hr ▸ hstart.exec events
    refine ⟨hinv.declaredLoad, fun ordering hhappens hmode r' hr' => ?_, hinv.progress⟩
    rw [Happens, step_fst] at hhappens
    obtain ⟨r'', hop⟩ := Option.isSome_iff_exists.mp hhappens
    obtain rfl : r'' = r' := by rw [← hr', TrialRun.step, hop]
    have hresumed := hinv.resume hop
    have hwidth : widthOf workload = workload.concurrency := by simp only [widthOf, hmode]
    rw [hresumed.inv.refilled hresumed.fresh, hwidth]
  · exact Nat.le_of_add_right_le (hstart.length_le_of_each hevents)

/-- Three requests, two at a time. -/
def twoOfThree : Workload where
  name := "decode"
  loadMode := .closedLoop
  requestsPerTrial := 3
  concurrency := 2
  streaming := false
  trials := 1
  requests_pos := by decide
  concurrency_pos := by decide

def onePrompt : PromptGroup where
  prompts := [⟨"decode", "decode-0", 0, 16, RequestRecord.emptySha256⟩]
  nonempty := by decide

/-- The requests time out, the last two of them together. -/
def timeouts : List TrialEvent :=
  [.complete 1 (.error ⟨"TimeoutError", ""⟩) 5, .resume [1],
    .complete 0 (.error ⟨"TimeoutError", ""⟩) 7, .complete 2 (.error ⟨"TimeoutError", ""⟩) 7,
    .resume [2, 0]]

def timeoutTrial : PlannedTrial where
  workload := twoOfThree
  group := onePrompt
  trialIndex := 0
  clock := id
  events := timeouts

/-- After the first timeout two requests are out again, five events end the trial, and the
next trial begins with number 13. -/
theorem submits_declared_load_timeouts :
    (Run.exec (TrialRun.step id twoOfThree onePrompt) (start id twoOfThree onePrompt 0 10)
      (timeouts.take 2)).state.inFlight = 2 ∧
    timeouts.length ≤ 2 * 3 ∧
    ∃ records order', executeWorkloads 10 [timeoutTrial] = some (records, order') ∧
      order' = 13 := by
  obtain ⟨hruns, hlength, htrials⟩ := submits_declared_load id twoOfThree onePrompt 0 10
  refine ⟨?_, hlength timeouts ?_, ?_⟩
  · exact (hruns (timeouts.take 1) _ rfl).2.1 [1] (by decide) rfl _ rfl
  · refine ⟨?_, ?_, ?_, ?_, ?_, trivial⟩ <;> decide
  · have hback : ∃ records order', executeWorkloads 10 [timeoutTrial] = some (records, order') :=
      ⟨_, _, rfl⟩
    obtain ⟨records, order', hexec⟩ := hback
    exact ⟨records, order', hexec, (htrials _ records order' hexec).1⟩

end TrialRun
end MlxRuntime.Benchmark
