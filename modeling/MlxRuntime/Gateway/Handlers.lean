import MlxRuntime.Gateway.Telemetry
import MlxRuntime.Gateway.WorkerClient

/-!
# What the handlers account for

`handle_chat_completion` and `stream_chat_completion_with_disconnect`, from the tracker of the
request to its drop.  The backend, the moment in which the client goes away and the success
of a write are inputs.  A client is gone from the moment in which that is seen, by the monitor
of its connection or by the failed write of a delta; a handler reads it from a flag, if it was
given one, and only after the backend has returned.  The answers to the client are left out.

## Main definitions

* `Exchange` — the inputs of a handler.
* `handleChatCompletion`, `streamChatCompletionWithDisconnect` — the handlers.
* `Accounted` — a request that is accounted for as its outcome says.
-/

namespace MlxRuntime

/-- `to_string` of an error. -/
def GatewayError.display : GatewayError → String
  | .io message => "io error: " ++ message
  | .workerStartup message => "worker startup error: " ++ message
  | .invalidRequest message => "invalid request: " ++ message
  | .benchmarkBusy message => "benchmark busy: " ++ message
  | .protocol message => "protocol error: " ++ message

/-- What becomes of the call of the backend; without a backend there is no call. -/
inductive BackendOutcome
  | poisoned
  | unavailable
  | response (r : ChatCompletionResponse)
  | failed (e : GatewayError)

/-- What a handler meets after it made its tracker: the backend, whether there is a flag, the
moment from which the client is gone, the moments in which the backend has returned and in
which the flag is read, how many deltas were streamed, and whether the headers of a stream
without a delta can be written. -/
structure Exchange where
  backend : BackendOutcome
  monitored : Bool
  goneAt : Option ℕ
  returnedAt : ℕ
  checkedAt : ℕ
  deltas : ℕ
  headersWritten : Bool
  returned_le : returnedAt ≤ checkedAt

namespace Exchange

/-- The client is gone at a moment. -/
def gone (x : Exchange) (moment : ℕ) : Bool := x.goneAt.any (· ≤ moment)

/-- `disconnected.as_ref().is_some_and(|flag| flag.load(..))`. -/
def flag (x : Exchange) (moment : ℕ) : Bool := x.monitored && x.gone moment

end Exchange

/-- The outcome of a response. -/
def responseOutcome (r : ChatCompletionResponse) (cancelled : Bool) : RequestOutcome where
  promptTokens := .ofNat r.promptTokens.toNat
  completionTokens := .ofNat r.completionTokens.toNat
  finishReason := some r.finishReason
  cancelled := cancelled
  error := none

/-- The outcome of a failure. -/
def errorOutcome (error : String) : RequestOutcome where
  promptTokens := 0
  completionTokens := 0
  finishReason := none
  cancelled := false
  error := some error

/-- The outcome of a client that is gone. -/
def cancelledOutcome : RequestOutcome where
  promptTokens := 0
  completionTokens := 0
  finishReason := none
  cancelled := true
  error := none

/-- `handle_chat_completion`, from its tracker on. -/
def handleChatCompletion (x : Exchange) (t : TrackedRequest) : TrackedRequest :=
  match x.backend with
  | .poisoned => (t.finish (errorOutcome "worker client lock poisoned")).drop
  | .unavailable => (t.finish (errorOutcome "backend unavailable")).drop
  | .response r =>
      let t := t.finish (responseOutcome r false)
      (if x.flag x.checkedAt then t.finish cancelledOutcome else t).drop
  | .failed e =>
      let t := t.finish (errorOutcome e.display)
      (if x.flag x.checkedAt then t.finish cancelledOutcome else t).drop

/-- `ensure_sse_stream_started`: the headers are there, or are written. -/
def ensureSseStreamStarted (x : Exchange) : Bool := 0 < x.deltas || x.headersWritten

/-- `stream_chat_completion_with_disconnect`, from its tracker on. -/
def streamChatCompletionWithDisconnect (x : Exchange) (t : TrackedRequest) : TrackedRequest :=
  match x.backend with
  | .poisoned => (t.finish (errorOutcome "worker client lock poisoned")).drop
  | .unavailable => (t.finish (errorOutcome "backend unavailable")).drop
  | .response r =>
      if x.flag x.checkedAt then (t.finish (responseOutcome r true)).drop
      else if ensureSseStreamStarted x then (t.finish (responseOutcome r false)).drop
      -- the error of the write is returned before `finish`
      else t.drop
  | .failed e =>
      if x.flag x.checkedAt then (t.finish cancelledOutcome).drop
      else (t.finish (errorOutcome e.display)).drop

/-! ## The account -/

namespace BackendOutcome

/-- There is no response. -/
def isFailure : BackendOutcome → Bool
  | .response _ => false
  | .poisoned | .unavailable | .failed _ => true

/-- The tokens of the prompt and of the completion. -/
def tokens : BackendOutcome → UInt64 × UInt64
  | .response r => (.ofNat r.promptTokens.toNat, .ofNat r.completionTokens.toNat)
  | .poisoned | .unavailable | .failed _ => (0, 0)

end BackendOutcome

/-- A flag as a number to count with. -/
def countOf (b : Bool) : UInt64 := if b then 1 else 0

/-- A request that went through a handler is counted once, and as this. -/
structure Counted (cancelled failed : Bool) (tokens : UInt64 × UInt64)
    (before : MetricsRegistry) (after : TrackedRequest) : Prop where
  total : after.metrics.counters .requestsTotal = before.counters .requestsTotal + 1
  active : after.metrics.counters .requestsActive = before.counters .requestsActive
  logged : after.logs.length = 1
  cancelled : after.metrics.counters .requestsCancelledTotal =
    before.counters .requestsCancelledTotal + countOf cancelled
  failed : after.metrics.counters .requestsFailedTotal =
    before.counters .requestsFailedTotal + countOf failed
  prompt : after.metrics.counters .promptTokensTotal =
    before.counters .promptTokensTotal + tokens.1
  completion : after.metrics.counters .completionTokensTotal =
    before.counters .completionTokensTotal + tokens.2

/-- The request is counted as cancelled when the client was gone by the time the backend
returned, as failed when the backend failed and the client was not gone, and with its
tokens. -/
def Accounted (x : Exchange) (before : MetricsRegistry) (after : TrackedRequest) : Prop :=
  Counted (x.gone x.returnedAt) (x.backend.isFailure && !x.gone x.returnedAt) x.backend.tokens
    before after

variable {before : MetricsRegistry} {tracker : RequestTracker} {isVlm : Bool}
  {imageCount : UInt64}

theorem countOf_inj {b b' : Bool} (h : countOf b = countOf b') : b = b' := by
  cases b <;> cases b' <;> first | rfl | cases h

/-- A request is counted in one way. -/
theorem Counted.unique {cancelled cancelled' failed failed' : Bool}
    {tokens tokens' : UInt64 × UInt64} {after : TrackedRequest}
    (h : Counted cancelled failed tokens before after)
    (h' : Counted cancelled' failed' tokens' before after) :
    cancelled = cancelled' ∧ failed = failed' :=
  ⟨countOf_inj ((UInt64.add_right_inj _).mp (h.cancelled.symm.trans h'.cancelled)),
    countOf_inj ((UInt64.add_right_inj _).mp (h.failed.symm.trans h'.failed))⟩

/-- The counters of images aside, `new` counts a request and makes it active. -/
theorem filter_newOps {m : Metric} (hm : m ≠ .vlmRequestsTotal) (hm' : m ≠ .vlmImageCountTotal) :
    (newOps isVlm imageCount).filter (fun op => op.metric = m) =
      [.fetchAdd .requestsTotal 1, .fetchAdd .requestsActive 1].filter fun op =>
        op.metric = m := by
  rw [newOps, List.filter_append]
  refine List.append_right_eq_self.mpr ?_
  split
  · split <;> simp [MetricOp.metric, hm.symm, hm'.symm]
  · rfl

/-- The first call of `finish` counts the request. -/
theorem counted_finish (outcome : RequestOutcome) :
    Counted outcome.cancelled outcome.error.isSome
      (outcome.promptTokens, outcome.completionTokens) before
      (((TrackedRequest.new tracker isVlm imageCount before).finish outcome).drop) := by
  have hlogs : (((TrackedRequest.new tracker isVlm imageCount before).finish
      outcome).drop).logs.length = 1 := by
    rw [TrackedRequest.drop_finish, TrackedRequest.finish, TrackedRequest.new]
    rfl
  have hcounter : ∀ m, m ≠ .vlmRequestsTotal → m ≠ .vlmImageCountTotal →
      (((TrackedRequest.new tracker isVlm imageCount before).finish
        outcome).drop).metrics.counters m =
      ((([.fetchAdd .requestsTotal 1, .fetchAdd .requestsActive 1].filter fun op =>
        MetricOp.metric op = m) ++
        (finishOps outcome).filter fun op => op.metric = m)).foldl MetricOp.apply
          (before.counters m) := by
    intro m hm hm'
    have hmetrics : (((TrackedRequest.new tracker isVlm imageCount before).finish
        outcome).drop).metrics =
        before.runAll (newOps isVlm imageCount ++ finishOps outcome) := by
      rw [TrackedRequest.drop_finish, TrackedRequest.finish, TrackedRequest.new,
        MetricsRegistry.runAll_append]
      rfl
    rw [hmetrics, MetricsRegistry.counters_runAll, List.filter_append, filter_newOps hm hm']
  refine ⟨?_, ?_, hlogs, ?_, ?_, ?_, ?_⟩ <;> rw [hcounter _ (by decide) (by decide), finishOps]
  · cases outcome.cancelled <;> cases outcome.error <;> rfl
  · cases outcome.cancelled <;> cases outcome.error <;>
      exact UInt64.add_sub_cancel ..
  · cases outcome.cancelled <;> cases outcome.error <;>
      simp [MetricOp.metric, MetricOp.apply, countOf]
  · cases outcome.cancelled <;> cases outcome.error <;>
      simp [MetricOp.metric, MetricOp.apply, countOf]
  · cases outcome.cancelled <;> cases outcome.error <;> rfl
  · cases outcome.cancelled <;> cases outcome.error <;> rfl

/-- A request that is finished with an outcome is accounted for if that is what happened. -/
theorem accounted_finish_iff {x : Exchange} {outcome : RequestOutcome}
    (htokens : (outcome.promptTokens, outcome.completionTokens) = x.backend.tokens) :
    Accounted x before (((TrackedRequest.new tracker isVlm imageCount before).finish
        outcome).drop) ↔
      outcome.cancelled = x.gone x.returnedAt ∧
        outcome.error.isSome = (x.backend.isFailure && !x.gone x.returnedAt) := by
  have hcounted : Counted outcome.cancelled outcome.error.isSome x.backend.tokens before
      (((TrackedRequest.new tracker isVlm imageCount before).finish outcome).drop) :=
    htokens ▸ counted_finish outcome
  constructor
  · intro h
    exact hcounted.unique h
  · rintro ⟨hcancelled, hfailed⟩
    rw [Accounted, ← hfailed, ← hcancelled]
    exact hcounted

/-- A request that is dropped without `finish` is not counted. -/
theorem not_accounted_drop {x : Exchange} :
    ¬ Accounted x before (TrackedRequest.new tracker isVlm imageCount before).drop :=
  fun h => Nat.zero_ne_one h.logged

/-! ## The handlers -/

/-- The outcome that the handler of a whole response reports, whatever the flag says. -/
def completeOutcome (x : Exchange) : RequestOutcome :=
  match x.backend with
  | .poisoned => errorOutcome "worker client lock poisoned"
  | .unavailable => errorOutcome "backend unavailable"
  | .response r => responseOutcome r false
  | .failed e => errorOutcome e.display

/-- The second call of `finish`, for a client that is gone, comes too late. -/
theorem handleChatCompletion_eq (x : Exchange) (t : TrackedRequest) :
    handleChatCompletion x t = (t.finish (completeOutcome x)).drop := by
  rw [handleChatCompletion, completeOutcome]
  cases x.backend with
  | poisoned => rfl
  | unavailable => rfl
  | response r =>
    dsimp only
    rw [TrackedRequest.finish_finish, ite_self]
  | failed e =>
    dsimp only
    rw [TrackedRequest.finish_finish, ite_self]

/-- What the stream handler reads from the flag is what happened before the backend returned,
and the headers of a response without deltas are written. -/
def Exchange.Settles (x : Exchange) : Prop :=
  match x.backend with
  | .poisoned | .unavailable => x.gone x.returnedAt = false
  | .response _ => x.flag x.checkedAt = x.gone x.returnedAt ∧
      (x.flag x.checkedAt = false → ensureSseStreamStarted x = true)
  | .failed _ => x.flag x.checkedAt = x.gone x.returnedAt

/-- The handler of a whole response accounts for the requests whose client was still there
when the backend returned, and for no others.  The stream handler does, as long as the flag is
right about the moment of the return and the headers are written. -/
theorem accounted_iff (x : Exchange) (before : MetricsRegistry) (tracker : RequestTracker)
    (isVlm : Bool) (imageCount : UInt64) :
    (Accounted x before
        (handleChatCompletion x (.new tracker isVlm imageCount before)) ↔
      x.gone x.returnedAt = false) ∧
    (Accounted x before
        (streamChatCompletionWithDisconnect x (.new tracker isVlm imageCount before)) ↔
      x.Settles) := by
  have hreads : ∀ b : Bool, (false = b ∧ true = !b) ↔ b = false := by decide
  have hreads' : ∀ b : Bool, (false = b ∧ false = false) ↔ b = false := by decide
  constructor
  · rw [handleChatCompletion_eq, completeOutcome]
    cases hbackend : x.backend with
    | poisoned | unavailable | failed e =>
      rw [accounted_finish_iff (by rw [hbackend]; rfl), hbackend]
      exact hreads _
    | response r =>
      rw [accounted_finish_iff (by rw [hbackend]; rfl), hbackend]
      exact hreads' _
  · rw [streamChatCompletionWithDisconnect, Exchange.Settles]
    cases hbackend : x.backend with
    | poisoned | unavailable =>
      dsimp only
      rw [accounted_finish_iff (by rw [hbackend]; rfl), hbackend]
      exact hreads _
    | response r =>
      dsimp only
      cases hflag : x.flag x.checkedAt with
      | true =>
        rw [if_pos rfl, accounted_finish_iff (by rw [hbackend]; rfl), hbackend]
        simp [responseOutcome, BackendOutcome.isFailure]
      | false =>
        rw [if_neg Bool.false_ne_true]
        cases hheaders : ensureSseStreamStarted x with
        | true =>
          rw [if_pos rfl, accounted_finish_iff (by rw [hbackend]; rfl), hbackend]
          simp [responseOutcome, BackendOutcome.isFailure]
        | false => simp [not_accounted_drop]
    | failed e =>
      dsimp only
      cases hflag : x.flag x.checkedAt with
      | true =>
        rw [if_pos rfl, accounted_finish_iff (by rw [hbackend]; rfl), hbackend]
        cases x.gone x.returnedAt <;> simp [cancelledOutcome, BackendOutcome.isFailure]
      | false =>
        rw [if_neg Bool.false_ne_true, accounted_finish_iff (by rw [hbackend]; rfl), hbackend]
        cases x.gone x.returnedAt <;> simp [errorOutcome, BackendOutcome.isFailure]

/-- A response for a client that was gone before the backend returned. -/
def goneExchange : Exchange where
  backend := .response ⟨"r", "m", "hi", "stop", 3, 5, fun _ => none⟩
  monitored := true
  goneAt := some 1
  returnedAt := 2
  checkedAt := 3
  deltas := 0
  headersWritten := true
  returned_le := by decide

/-- The tracker of that request. -/
def exchangeTracker : RequestTracker where
  requestId := "r"
  model := "m"
  maxTokens := 16
  stream := false

/-- The handler of a whole response does not count it as cancelled, and the stream handler
counts nothing at all when the headers of a response without deltas cannot be written. -/
theorem not_accounted_gone :
    ¬ Accounted goneExchange {} (handleChatCompletion goneExchange
        (.new exchangeTracker false 0 {})) ∧
    ¬ Accounted { goneExchange with goneAt := none, headersWritten := false } {}
        (streamChatCompletionWithDisconnect
          { goneExchange with goneAt := none, headersWritten := false }
          (.new exchangeTracker false 0 {})) := by
  refine ⟨?_, not_accounted_drop⟩
  rw [handleChatCompletion_eq, accounted_finish_iff rfl]
  decide

end MlxRuntime
