import MlxRuntime.Lib.Run
import MlxRuntime.Lib.Dict
import MlxRuntime.Protocol.Events

/-!
# The gateway's client of a worker

Any number of calls (`execute_chat`, `benchmark_reset`) and one reader thread share a socket,
the map of calls in flight and the flag `closed`.  A step is one load or store of the flag,
one section under the lock of the map or of the socket, one read of a line, or one send or
receive on the channel of a call.  No section panics, so no lock is poisoned.

What the socket gives, how a line decodes, whether a write succeeds and what the callback
of a stream answers are inputs of the steps.  Request ids may repeat.  The metrics that the
reader and the calls record are left out, and so is `cancel_chat`, which only writes.

## Main definitions

* `WorkerClient`, `ClientOp`, `WorkerClient.step` — the client under any interleaving.
* `WorkerClient.Stranded` — a call that nothing will wake.
* `WorkerClient.KeepsUp` — the steps after which no call is stranded.
* `WorkerClient.Inv` — the invariant: the map, the channels and the reader agree.
-/

namespace MlxRuntime

/-- The errors a call can end with. -/
inductive GatewayError
  | io (message : String)
  | workerStartup (message : String)
  | invalidRequest (message : String)
  | benchmarkBusy (message : String)
  | protocol (message : String)
  deriving DecidableEq

/-- `RoutedWorkerEvent`. -/
inductive RoutedWorkerEvent
  | event (e : WorkerEvent)
  | failure (message : String)

/-- The event in a message. -/
def RoutedWorkerEvent.event? : RoutedWorkerEvent → Option WorkerEvent
  | .event e => some e
  | .failure _ => none

/-- The request id an event is routed by; the metrics have none. -/
def WorkerEvent.requestId? : WorkerEvent → Option String
  | .schedulerMetrics _ => none
  | .benchmarkReset state => some state.requestId
  | .chatCompletionDelta delta => some delta.requestId
  | .chatCompletion response _ => some response.requestId
  | .error _ requestId _ => some requestId

/-- Which function a call is of. -/
inductive CallKind
  | executeChat (stream : Bool)
  | benchmarkReset
  deriving DecidableEq

/-- What a call returns. -/
inductive CallResult
  | completed (response : ChatCompletionResponse)
  | reset (state : BenchmarkResetState Wire)
  | failed (error : GatewayError)

/-- Where a call is: before it loads `closed`, before it takes the lock of the map, before it
writes its command, in `recv`, before it takes itself out of the map, or back. -/
inductive Place
  | called
  | loaded
  | registered
  | receiving
  | unregistering (result : CallResult)
  | returned (result : CallResult)

/-- A call, with what was sent to it and not yet received.  `taken` is history. -/
structure ClientCall where
  requestId : String
  kind : CallKind
  place : Place := .called
  channel : List RoutedWorkerEvent := []
  taken : List RoutedWorkerEvent := []

/-- Where the reader thread is: in `read_line`, before it looks up a sender, before it sends,
before `fail_all`, before it stores `closed`, or gone. -/
inductive Reader
  | reading
  | routing (event : WorkerEvent)
  | sending (target : ℕ) (event : WorkerEvent)
  | failing (message : String)
  | drained
  | ended

/-- `WorkerClient`, with all its calls.  A sender in the map is the number of its call.
`frames` is history: the events read, in order. -/
structure WorkerClient where
  inflight : Dict String ℕ := .empty
  closed : Bool := false
  reader : Reader := .reading
  calls : List ClientCall := []
  frames : List WorkerEvent := []

/-- The result of `read_line`; the end of the stream is an empty line. -/
inductive ReadResult
  | line (text : List Char)
  | failed (error : String)

/-- The steps. -/
inductive ClientOp
  | call (requestId : String) (kind : CallKind)
  | load (id : ℕ)
  | insert (id : ℕ)
  | write (id : ℕ) (result : Except GatewayError Unit)
  | recv (id : ℕ) (onDelta : Except GatewayError Unit)
  | unregister (id : ℕ)
  | read (result : ReadResult)
  | route
  | send
  | failAll
  | store

/-- The message of a socket that is closed. -/
def closedSocket : String := "worker closed the inference socket"

/-- What `execute_chat` makes of a message: a result, or the next `recv`. -/
def executeChat (requestId : String) (stream : Bool) (onDelta : Except GatewayError Unit) :
    RoutedWorkerEvent → Option CallResult
  | .failure message => some (.failed (.protocol message))
  | .event (.schedulerMetrics _) | .event (.benchmarkReset _) => none
  | .event (.chatCompletionDelta _) =>
      if stream then
        match onDelta with
        | .ok _ => none
        | .error error => some (.failed error)
      else some (.failed (.protocol "received unexpected stream delta"))
  | .event (.chatCompletion response _) =>
      if response.requestId = requestId then some (.completed response) else none
  | .event (.error code rid message) =>
      if rid ≠ requestId then none
      else if code = "INVALID_REQUEST" then some (.failed (.invalidRequest message))
      else some (.failed (.protocol message))

/-- What `benchmark_reset` makes of a message. -/
def benchmarkReset (requestId : String) : RoutedWorkerEvent → Option CallResult
  | .failure message => some (.failed (.protocol message))
  | .event (.benchmarkReset state) =>
      if state.requestId = requestId then some (.reset state) else none
  | .event (.error code rid message) =>
      if rid ≠ requestId then none
      else if code = "BENCHMARK_BUSY" then some (.failed (.benchmarkBusy message))
      else some (.failed (.protocol message))
  | .event _ => none

namespace ClientCall

/-- What a call makes of a message. -/
def handle (call : ClientCall) (onDelta : Except GatewayError Unit)
    (message : RoutedWorkerEvent) : Option CallResult :=
  match call.kind with
  | .executeChat stream => executeChat call.requestId stream onDelta message
  | .benchmarkReset => benchmarkReset call.requestId message

/-- A call after it received a message. -/
def receive (call : ClientCall) (onDelta : Except GatewayError Unit)
    (message : RoutedWorkerEvent) (rest : List RoutedWorkerEvent) : ClientCall :=
  let call := { call with channel := rest, taken := call.taken ++ [message] }
  match call.handle onDelta message with
  | some result => { call with place := .unregistering result }
  | none => call

/-- A message sent to a call; the receiver of a call that returned is gone. -/
def deliver (call : ClientCall) (message : RoutedWorkerEvent) : ClientCall :=
  match call.place with
  | .returned _ => call
  | _ => { call with channel := call.channel ++ [message] }

/-- The call after its command was written, or not. -/
def written (call : ClientCall) : Except GatewayError Unit → ClientCall
  | .ok _ => { call with place := .receiving }
  | .error error =>
      match call.kind with
      | .executeChat _ => { call with place := .returned (.failed error) }
      | .benchmarkReset => { call with place := .unregistering (.failed error) }

end ClientCall

namespace WorkerClient

variable (decode : List Char → Except String WorkerEvent)

/-- The reader after a line, and the event on it. -/
def readLine : ReadResult → Reader × Option WorkerEvent
  | .failed error => (.failing ("worker read failed: " ++ error), none)
  | .line [] => (.failing closedSocket, none)
  | .line text =>
      match decode text with
      | .error error => (.failing ("decode worker event failed: " ++ error), none)
      | .ok (.schedulerMetrics metrics) => (.reading, some (.schedulerMetrics metrics))
      | .ok e => (.routing e, some e)

/-- A call is replaced. -/
def setCall (w : WorkerClient) (id : ℕ) (call : ClientCall) : WorkerClient :=
  { w with calls := w.calls.set id call }

/-- The map or the reader has a sender of the call. -/
def HasSender (w : WorkerClient) (id : ℕ) : Prop :=
  id ∈ w.inflight.values ∨ ∃ event, w.reader = .sending id event

/-- A step of a call. -/
def stepCall (w : WorkerClient) (id : ℕ) (call : ClientCall) : ClientOp → Option WorkerClient
  | .load _ =>
      match call.place with
      | .called =>
          if w.closed then
            some (w.setCall id
              { call with place := .returned (.failed (.protocol closedSocket)) })
          else some (w.setCall id { call with place := .loaded })
      | _ => none
  | .insert _ =>
      match call.place with
      | .loaded =>
          some { w.setCall id { call with place := .registered } with
            inflight := w.inflight.set call.requestId id }
      | _ => none
  | .write _ result =>
      match call.place with
      | .registered => some (w.setCall id (call.written result))
      | _ => none
  | .recv _ onDelta =>
      match call.place, call.channel with
      | .receiving, message :: rest => some (w.setCall id (call.receive onDelta message rest))
      | .receiving, [] =>
          match w.reader with
          | .sending target _ =>
              if id ∈ w.inflight.values ∨ target = id then none
              else some (w.setCall id
                { call with place := .unregistering (.failed (.protocol closedSocket)) })
          | _ =>
              if id ∈ w.inflight.values then none
              else some (w.setCall id
                { call with place := .unregistering (.failed (.protocol closedSocket)) })
      | _, _ => none
  | .unregister _ =>
      match call.place with
      | .unregistering result =>
          some { w.setCall id { call with place := .returned result } with
            inflight := w.inflight.pop call.requestId }
      | _ => none
  | _ => none

/-- A step of the reader. -/
def stepReader (w : WorkerClient) : ClientOp → Option WorkerClient
  | .read result =>
      match w.reader with
      | .reading =>
          let (reader, event) := readLine decode result
          some { w with reader := reader, frames := w.frames ++ event.toList }
      | _ => none
  | .route =>
      match w.reader with
      | .routing event =>
          match event.requestId?.bind w.inflight.get? with
          | some target => some { w with reader := .sending target event }
          | none => some { w with reader := .reading }
      | _ => none
  | .send =>
      match w.reader with
      | .sending target event =>
          some { w with
            reader := .reading, calls := w.calls.modify target (·.deliver (.event event)) }
      | _ => none
  | .failAll =>
      match w.reader with
      | .failing message =>
          some { w with
            reader := .drained
            inflight := .empty
            calls := w.calls.mapIdx fun id call =>
              if id ∈ w.inflight.values then call.deliver (.failure message) else call }
      | _ => none
  | .store =>
      match w.reader with
      | .drained => some { w with reader := .ended, closed := true }
      | _ => none
  | _ => none

/-- A step, where it is enabled. -/
def step? (w : WorkerClient) : ClientOp → Option WorkerClient
  | .call requestId kind =>
      some { w with calls := w.calls ++ [{ requestId := requestId, kind := kind }] }
  | .load id => w.calls[id]?.bind fun call => w.stepCall id call (.load id)
  | .insert id => w.calls[id]?.bind fun call => w.stepCall id call (.insert id)
  | .write id result => w.calls[id]?.bind fun call => w.stepCall id call (.write id result)
  | .recv id onDelta => w.calls[id]?.bind fun call => w.stepCall id call (.recv id onDelta)
  | .unregister id => w.calls[id]?.bind fun call => w.stepCall id call (.unregister id)
  | op => w.stepReader decode op

/-- A step, answered with whether it was enabled. -/
def step (w : WorkerClient) (op : ClientOp) : Bool × WorkerClient :=
  match w.step? decode op with
  | some w' => (true, w')
  | none => (false, w)

end WorkerClient

/-! ## The invariant -/

/-- The reader will not look into the map again. -/
def Reader.done : Reader → Bool
  | .drained | .ended => true
  | _ => false

/-- The event in the hands of the reader. -/
def Reader.pending : Reader → List WorkerEvent
  | .routing e | .sending _ e => [e]
  | _ => []

namespace ClientCall

/-- The call has been in the map. -/
def Registered (call : ClientCall) : Prop := call.place ≠ .called ∧ call.place ≠ .loaded

/-- The events sent to a call, in order. -/
def received (call : ClientCall) : List WorkerEvent :=
  (call.taken ++ call.channel).filterMap RoutedWorkerEvent.event?

@[simp] theorem requestId_written (call : ClientCall) (result : Except GatewayError Unit) :
    (call.written result).requestId = call.requestId := by
  rcases result with error | _ <;> simp only [written]
  split <;> rfl

@[simp] theorem requestId_deliver (call : ClientCall) (message : RoutedWorkerEvent) :
    (call.deliver message).requestId = call.requestId := by
  simp only [deliver]
  split <;> rfl

@[simp] theorem place_deliver (call : ClientCall) (message : RoutedWorkerEvent) :
    (call.deliver message).place = call.place := by
  simp only [deliver]
  split <;> rfl

@[simp] theorem requestId_receive (call : ClientCall) (onDelta : Except GatewayError Unit)
    (message : RoutedWorkerEvent) (rest : List RoutedWorkerEvent) :
    (call.receive onDelta message rest).requestId = call.requestId := by
  simp only [receive]
  split <;> rfl

@[simp] theorem channel_receive (call : ClientCall) (onDelta : Except GatewayError Unit)
    (message : RoutedWorkerEvent) (rest : List RoutedWorkerEvent) :
    (call.receive onDelta message rest).channel = rest := by
  simp only [receive]
  split <;> rfl

theorem place_receive (call : ClientCall) (onDelta : Except GatewayError Unit)
    (message : RoutedWorkerEvent) (rest : List RoutedWorkerEvent) :
    (call.receive onDelta message rest).place = call.place ∨
      ∃ result, (call.receive onDelta message rest).place = .unregistering result := by
  simp only [receive]
  split
  · exact .inr ⟨_, rfl⟩
  · exact .inl rfl

/-- Receiving moves a message; what was sent is the same. -/
theorem received_receive (call : ClientCall) (onDelta : Except GatewayError Unit)
    {message : RoutedWorkerEvent} {rest : List RoutedWorkerEvent}
    (hchannel : call.channel = message :: rest) :
    (call.receive onDelta message rest).received = call.received := by
  have htaken : (call.receive onDelta message rest).taken = call.taken ++ [message] := by
    simp only [receive]
    split <;> rfl
  rw [received, received, htaken, channel_receive, hchannel, List.append_assoc]
  rfl

@[simp] theorem channel_written (call : ClientCall) (result : Except GatewayError Unit) :
    (call.written result).channel = call.channel := by
  rcases result with error | _ <;> simp only [written]
  split <;> rfl

@[simp] theorem received_written (call : ClientCall) (result : Except GatewayError Unit) :
    (call.written result).received = call.received := by
  rcases result with error | _ <;> simp only [written]
  · split <;> rfl
  · rfl

theorem registered_written (call : ClientCall) (result : Except GatewayError Unit) :
    (call.written result).Registered := by
  rcases result with error | _ <;> simp only [written]
  · split <;> simp [Registered]
  · simp [Registered]

/-- A delivery adds the event, unless the receiver is gone. -/
theorem received_deliver (call : ClientCall) (message : RoutedWorkerEvent) :
    List.Sublist (call.deliver message).received (call.received ++ message.event?.toList) := by
  simp only [deliver]
  split
  · exact List.sublist_append_left ..
  · simp only [received, List.filterMap_append, List.append_assoc]
    cases message <;> exact .refl _

end ClientCall

namespace WorkerClient

variable {decode : List Char → Except String WorkerEvent} {w : WorkerClient}

/-- A call waits for ever: the reader is gone, nothing is in the channel, and the map still
holds its sender. -/
def Stranded (w : WorkerClient) : Prop :=
  w.reader = .ended ∧ w.closed = true ∧ ∃ id call, w.calls[id]? = some call ∧
    call.place = .receiving ∧ call.channel = [] ∧ w.inflight.get? call.requestId = some id

/-- Every event sent to a call has its request id, and they come in the order of the socket. -/
def Routed (w : WorkerClient) : Prop :=
  ∀ call ∈ w.calls, List.Sublist call.received
    (w.frames.filter fun e => e.requestId? = some call.requestId)

/-- The step does not write the command of a call that got into the map after `fail_all`. -/
def KeepsUp (w : WorkerClient) : ClientOp → Prop
  | .write id (.ok _) => ∀ call, w.calls[id]? = some call → call.place = .registered →
      w.reader.done → w.inflight.get? call.requestId ≠ some id
  | _ => True

/-- The map, the channels and the reader agree. -/
structure Inv (w : WorkerClient) : Prop where
  /-- A sender in the map is that of a call with this id, and after `fail_all` nothing was
  sent to it. -/
  held : ∀ k id, w.inflight.get? k = some id → ∃ call, w.calls[id]? = some call ∧
    call.requestId = k ∧ call.Registered ∧ (w.reader.done → call.channel = [])
  /-- Nothing is sent to a call that was not in the map yet. -/
  fresh : ∀ call ∈ w.calls, ¬ call.Registered → call.channel = []
  /-- The reader sends an event to a call with its request id. -/
  target : ∀ id e, w.reader = .sending id e → ∃ call, w.calls[id]? = some call ∧
    e.requestId? = some call.requestId ∧ call.Registered
  closed : w.closed = true ↔ w.reader = .ended
  /-- What was sent is in order, and comes before the event in the hands of the reader. -/
  sent : ∃ done, w.frames = done ++ w.reader.pending ∧ ∀ call ∈ w.calls,
    List.Sublist call.received (done.filter fun e => e.requestId? = some call.requestId)

theorem inv_init : Inv {} where
  held _ _ h := nomatch h
  fresh _ h := nomatch h
  target _ _ h := nomatch h
  closed := by simp
  sent := ⟨[], rfl, fun _ h => nomatch h⟩

/-- The flag stays down until the reader is gone. -/
theorem Inv.closed_iff {reader : Reader} (h : Inv w) (hne : w.reader ≠ .ended)
    (hne' : reader ≠ .ended) : w.closed = true ↔ reader = .ended :=
  ⟨fun hclosed => absurd (h.closed.mp hclosed) hne, fun he => absurd he hne'⟩

theorem Inv.routed (h : Inv w) : Routed w := by
  intro call hcall
  obtain ⟨done, hframes, hsent⟩ := h.sent
  rw [hframes, List.filter_append]
  exact (hsent call hcall).trans (List.sublist_append_left ..)

/-- A call moves without a change of what was sent to it. -/
theorem Inv.setCall {id : ℕ} {call call' : ClientCall} (h : Inv w)
    (hcall : w.calls[id]? = some call) (hid : call'.requestId = call.requestId)
    (hreceived : call'.received = call.received)
    (hregistered : call.Registered → call'.Registered)
    (hchannel : call.channel = [] → call'.channel = []) :
    Inv (w.setCall id call') := by
  have hlt : id < w.calls.length := (List.getElem?_eq_some_iff.mp hcall).1
  have hmem : call ∈ w.calls := List.mem_of_getElem? hcall
  have hlookup (j : ℕ) (c : ClientCall) (hc : w.calls[j]? = some c) :
      ∃ c', (w.setCall id call').calls[j]? = some c' ∧ c'.requestId = c.requestId ∧
        (c.Registered → c'.Registered) ∧ (c.channel = [] → c'.channel = []) := by
    by_cases hj : id = j
    · subst hj
      obtain rfl := Option.some.inj (hcall.symm.trans hc)
      exact ⟨call', by simp [WorkerClient.setCall, hlt], hid, hregistered, hchannel⟩
    · exact ⟨c, by simp [WorkerClient.setCall, List.getElem?_set_ne hj, hc], rfl, fun hreg => hreg,
        fun hempty => hempty⟩
  refine ⟨fun k j hj => ?_, fun c hc hfresh => ?_, fun j e hj => ?_, h.closed, ?_⟩
  · obtain ⟨c, hc, rfl, hreg, hempty⟩ := h.held k j hj
    obtain ⟨c', hc', hid', hreg', hempty'⟩ := hlookup j c hc
    exact ⟨c', hc', hid', hreg' hreg, fun hdone => hempty' (hempty hdone)⟩
  · rcases List.mem_or_eq_of_mem_set hc with hc | rfl
    · exact h.fresh c hc hfresh
    · exact hchannel (h.fresh call hmem fun hreg => hfresh (hregistered hreg))
  · obtain ⟨c, hc, he, hreg⟩ := h.target j e hj
    obtain ⟨c', hc', hid', hreg', -⟩ := hlookup j c hc
    exact ⟨c', hc', hid' ▸ he, hreg' hreg⟩
  · obtain ⟨done, hframes, hsent⟩ := h.sent
    refine ⟨done, hframes, fun c hc => ?_⟩
    rcases List.mem_or_eq_of_mem_set hc with hc | rfl
    · exact hsent c hc
    · rw [hreceived, hid]
      exact hsent call hmem

/-- The map changes, and its entries are as they must be. -/
theorem Inv.withMap {inflight : Dict String ℕ} (h : Inv w)
    (hheld : ∀ k id, inflight.get? k = some id → ∃ call, w.calls[id]? = some call ∧
      call.requestId = k ∧ call.Registered ∧ (w.reader.done → call.channel = [])) :
    Inv { w with inflight := inflight } :=
  ⟨hheld, h.fresh, h.target, h.closed, h.sent⟩

/-- A call gets into the map; its channel is still empty. -/
theorem Inv.insert {id : ℕ} {call : ClientCall} (h : Inv w) (hcall : w.calls[id]? = some call)
    (hplace : call.place = .loaded) :
    Inv { w.setCall id { call with place := .registered } with
      inflight := w.inflight.set call.requestId id } := by
  have hlt : id < w.calls.length := (List.getElem?_eq_some_iff.mp hcall).1
  have hempty : call.channel = [] :=
    h.fresh call (List.mem_of_getElem? hcall) fun hreg => hreg.2 hplace
  have hset : Inv (w.setCall id { call with place := .registered }) :=
    h.setCall hcall rfl rfl (fun _ => by simp [ClientCall.Registered]) fun h => h
  refine hset.withMap fun k j hj => ?_
  rw [Dict.get?_set] at hj
  by_cases hk : k = call.requestId
  · rw [if_pos hk] at hj
    obtain rfl := Option.some.inj hj
    refine ⟨{ call with place := .registered }, by simp [WorkerClient.setCall, hlt], hk.symm, ?_,
      fun _ => hempty⟩
    simp [ClientCall.Registered]
  · rw [if_neg hk] at hj
    exact hset.held k j hj

/-- A step of a call keeps the invariant. -/
theorem Inv.stepCall {id : ℕ} {call : ClientCall} {op : ClientOp} {w' : WorkerClient}
    (h : Inv w) (hcall : w.calls[id]? = some call) (hop : w.stepCall id call op = some w') :
    Inv w' := by
  have hmem : call ∈ w.calls := List.mem_of_getElem? hcall
  cases op with
  | load _ =>
      simp only [WorkerClient.stepCall] at hop
      split at hop
      case h_1 hplace =>
          split at hop
          all_goals
            obtain rfl := Option.some.inj hop
            refine h.setCall hcall rfl rfl (fun hreg => ?_) fun hempty => hempty
            exact absurd hplace hreg.1
      case h_2 => cases hop
  | insert _ =>
      simp only [WorkerClient.stepCall] at hop
      split at hop
      case h_1 hplace =>
          obtain rfl := Option.some.inj hop
          exact h.insert hcall hplace
      case h_2 => cases hop
  | write _ result =>
      simp only [WorkerClient.stepCall] at hop
      split at hop
      case h_1 hplace =>
          obtain rfl := Option.some.inj hop
          exact h.setCall hcall (by simp) (by simp) (fun _ => call.registered_written result)
            (by simp)
      case h_2 => cases hop
  | recv _ onDelta =>
      simp only [WorkerClient.stepCall] at hop
      split at hop
      case h_1 message rest hplace hchannel =>
          obtain rfl := Option.some.inj hop
          refine h.setCall hcall (by simp) (call.received_receive onDelta hchannel) (fun _ => ?_)
            fun hempty => ?_
          · rcases call.place_receive onDelta message rest with hp | ⟨result, hp⟩ <;>
              simp [ClientCall.Registered, hp, hplace]
          · rw [hchannel] at hempty
            cases hempty
      case h_2 hplace hchannel =>
          have hdisconnected : Inv (w.setCall id { call with
              place := .unregistering (.failed (.protocol closedSocket)) }) :=
            h.setCall hcall rfl rfl (fun _ => by simp [ClientCall.Registered]) fun hempty => hempty
          split at hop <;> split at hop <;> cases hop <;> exact hdisconnected
      case h_3 => cases hop
  | unregister _ =>
      simp only [WorkerClient.stepCall] at hop
      split at hop
      case h_1 result hplace =>
          obtain rfl := Option.some.inj hop
          have hset : Inv (w.setCall id { call with place := .returned result }) :=
            h.setCall hcall rfl rfl (fun _ => by simp [ClientCall.Registered]) fun hempty => hempty
          exact hset.withMap fun k j hj => by
            rw [Dict.get?_pop] at hj
            split at hj
            · cases hj
            · exact hset.held k j hj
      case h_2 => cases hop
  | call _ _ | read _ | route | send | failAll | store => cases hop

/-- What `readLine` leaves in the hands of the reader is the last event it read. -/
theorem readLine_spec (decode : List Char → Except String WorkerEvent) (result : ReadResult) :
    (readLine decode result).1.done = false ∧ (readLine decode result).1 ≠ .ended ∧
      (∀ id e, (readLine decode result).1 ≠ .sending id e) ∧
      ∃ extra, (readLine decode result).2.toList = extra ++ (readLine decode result).1.pending := by
  unfold readLine
  split
  · exact ⟨rfl, nofun, nofun, [], rfl⟩
  · exact ⟨rfl, nofun, nofun, [], rfl⟩
  · split
    · exact ⟨rfl, nofun, nofun, [], rfl⟩
    · exact ⟨rfl, nofun, nofun, [_], rfl⟩
    · exact ⟨rfl, nofun, nofun, [], rfl⟩

theorem Inv.read (h : Inv w) (result : ReadResult) (hreader : w.reader = .reading) :
    Inv { w with
      reader := (readLine decode result).1
      frames := w.frames ++ (readLine decode result).2.toList } := by
  obtain ⟨hdone, hended, hsending, extra, hextra⟩ := readLine_spec decode result
  obtain ⟨done, hframes, hsent⟩ := h.sent
  refine ⟨fun k id hid => ?_, h.fresh, fun id e he => absurd he (hsending id e),
    h.closed_iff (by simp [hreader]) hended, done ++ extra, ?_, fun call hcall => ?_⟩
  · obtain ⟨call, hcall, hrid, hreg, -⟩ := h.held k id hid
    refine ⟨call, hcall, hrid, hreg, fun hd => ?_⟩
    rw [hdone] at hd
    cases hd
  · simp only [hframes, hreader, Reader.pending, List.append_nil, hextra, List.append_assoc]
  · rw [List.filter_append]
    exact (hsent call hcall).trans (List.sublist_append_left ..)

/-- The reader looks up a sender, or drops the event. -/
theorem Inv.route {e : WorkerEvent} (h : Inv w) (hreader : w.reader = .routing e) :
    (∀ target, e.requestId?.bind w.inflight.get? = some target →
      Inv { w with reader := .sending target e }) ∧ Inv { w with reader := .reading } := by
  have hopen (reader : Reader) : reader ≠ .ended → (w.closed = true ↔ reader = .ended) :=
    h.closed_iff (by simp [hreader])
  have hheld (reader : Reader) (hdone : reader.done = false) (k : String) (id : ℕ)
      (hid : w.inflight.get? k = some id) : ∃ call, w.calls[id]? = some call ∧
        call.requestId = k ∧ call.Registered ∧ (reader.done → call.channel = []) := by
    obtain ⟨call, hcall, hrid, hreg, -⟩ := h.held k id hid
    exact ⟨call, hcall, hrid, hreg, fun hd => by rw [hdone] at hd; cases hd⟩
  obtain ⟨done, hframes, hsent⟩ := h.sent
  rw [hreader] at hframes
  refine ⟨fun target htarget => ?_, hheld _ rfl, h.fresh, nofun, hopen _ nofun,
    done ++ [e], by simpa [Reader.pending] using hframes, fun call hcall => ?_⟩
  · refine ⟨hheld _ rfl, h.fresh, fun id e' hid => ?_, hopen _ nofun, done, hframes, hsent⟩
    injection hid with htid hee
    subst htid hee
    obtain ⟨rid, hrid, hget⟩ := Option.bind_eq_some_iff.mp htarget
    obtain ⟨call, hcall, rfl, hreg, -⟩ := h.held rid _ hget
    exact ⟨call, hcall, hrid, hreg⟩
  · rw [List.filter_append]
    exact (hsent call hcall).trans (List.sublist_append_left ..)

/-- The event is sent to the call it was routed to. -/
theorem Inv.send {target : ℕ} {e : WorkerEvent} (h : Inv w)
    (hreader : w.reader = .sending target e) :
    Inv { w with
      reader := .reading, calls := w.calls.modify target (·.deliver (.event e)) } := by
  obtain ⟨tcall, htcall, hrid, htreg⟩ := h.target target e hreader
  obtain ⟨done, hframes, hsent⟩ := h.sent
  -- a call of the new list is an old one, or the target after the delivery
  have hcases : ∀ call ∈ w.calls.modify target (·.deliver (.event e)),
      call ∈ w.calls ∨ call = tcall.deliver (.event e) := by
    intro call hcall
    obtain ⟨j, hj⟩ := List.mem_iff_getElem?.mp hcall
    rw [List.getElem?_modify] at hj
    by_cases ht : target = j
    · subst ht
      rw [htcall] at hj
      simp only [if_true, Option.map_eq_map, Option.map_some] at hj
      exact .inr (Option.some.inj hj).symm
    · simp only [if_neg ht, Option.map_eq_map, Option.map_id'] at hj
      exact .inl (List.mem_of_getElem? hj)
  refine ⟨fun k id hid => ?_, fun call hcall hfresh => ?_, nofun,
    h.closed_iff (by simp [hreader]) nofun, done ++ [e], ?_, fun call hcall => ?_⟩
  · obtain ⟨call, hcall, hk, hreg, -⟩ := h.held k id hid
    rw [List.getElem?_modify, hcall]
    by_cases ht : target = id
    · exact ⟨call.deliver (.event e), by simp [ht], by simpa using hk, by
        simpa [ClientCall.Registered] using hreg, nofun⟩
    · exact ⟨call, by simp [ht], hk, hreg, nofun⟩
  · rcases hcases call hcall with hcall | rfl
    · exact h.fresh call hcall hfresh
    · refine absurd ?_ hfresh
      simpa [ClientCall.Registered] using htreg
  · simpa [hreader, Reader.pending] using hframes
  · rw [List.filter_append]
    rcases hcases call hcall with hcall | rfl
    · exact (hsent call hcall).trans (List.sublist_append_left ..)
    · refine (tcall.received_deliver (.event e)).trans ?_
      rw [ClientCall.requestId_deliver]
      refine List.Sublist.append (hsent tcall (List.mem_of_getElem? htcall)) ?_
      simp [RoutedWorkerEvent.event?, hrid]

/-- Every call in the map is told of the failure, and the map is empty. -/
theorem Inv.failAll {message : String} (h : Inv w) (hreader : w.reader = .failing message) :
    Inv { w with
      reader := .drained
      inflight := .empty
      calls := w.calls.mapIdx fun id call =>
        if id ∈ w.inflight.values then call.deliver (.failure message) else call } := by
  obtain ⟨done, hframes, hsent⟩ := h.sent
  have hcases : ∀ call ∈ w.calls.mapIdx fun id call =>
        if id ∈ w.inflight.values then call.deliver (.failure message) else call,
      call ∈ w.calls ∨ ∃ c ∈ w.calls, c.Registered ∧ call = c.deliver (.failure message) := by
    intro call hcall
    obtain ⟨id, hid, rfl⟩ := List.mem_mapIdx.mp hcall
    split
    case isTrue hmem =>
        obtain ⟨k, hk⟩ := Dict.mem_values.mp hmem
        obtain ⟨c, hc, -, hreg, -⟩ := h.held k id (Dict.get?_eq_some.mpr hk)
        rw [List.getElem?_eq_getElem hid] at hc
        obtain rfl := Option.some.inj hc
        exact .inr ⟨_, List.getElem_mem hid, hreg, rfl⟩
    case isFalse => exact .inl (List.getElem_mem hid)
  refine ⟨nofun, fun call hcall hfresh => ?_, nofun, h.closed_iff (by simp [hreader]) nofun,
    done, ?_, fun call hcall => ?_⟩
  · rcases hcases call hcall with hcall | ⟨c, -, hreg, rfl⟩
    · exact h.fresh call hcall hfresh
    · refine absurd ?_ hfresh
      simpa [ClientCall.Registered] using hreg
  · simpa [hreader, Reader.pending] using hframes
  · rcases hcases call hcall with hcall | ⟨c, hc, -, rfl⟩
    · exact hsent call hcall
    · rw [ClientCall.requestId_deliver]
      refine (c.received_deliver (.failure message)).trans ?_
      simpa [RoutedWorkerEvent.event?] using hsent c hc

theorem Inv.store (h : Inv w) (hreader : w.reader = .drained) :
    Inv { w with reader := .ended, closed := true } := by
  obtain ⟨done, hframes, hsent⟩ := h.sent
  refine ⟨fun k id hid => ?_, h.fresh, nofun, by simp, done, ?_, hsent⟩
  · obtain ⟨call, hcall, hk, hreg, hempty⟩ := h.held k id hid
    exact ⟨call, hcall, hk, hreg, fun _ => hempty (by rw [hreader]; rfl)⟩
  · simpa [hreader, Reader.pending] using hframes

/-- A step of the reader keeps the invariant. -/
theorem Inv.stepReader {op : ClientOp} {w' : WorkerClient} (h : Inv w)
    (hop : w.stepReader decode op = some w') : Inv w' := by
  cases op with
  | read result =>
      simp only [WorkerClient.stepReader] at hop
      split at hop
      case h_1 hreader =>
          obtain rfl := Option.some.inj hop
          exact h.read result hreader
      case h_2 => cases hop
  | route =>
      simp only [WorkerClient.stepReader] at hop
      split at hop
      case h_1 e hreader =>
          obtain ⟨hsending, hreading⟩ := h.route hreader
          split at hop
          case h_1 target htarget =>
              obtain rfl := Option.some.inj hop
              exact hsending target htarget
          case h_2 =>
              obtain rfl := Option.some.inj hop
              exact hreading
      case h_2 => cases hop
  | send =>
      simp only [WorkerClient.stepReader] at hop
      split at hop
      case h_1 target e hreader =>
          obtain rfl := Option.some.inj hop
          exact h.send hreader
      case h_2 => cases hop
  | failAll =>
      simp only [WorkerClient.stepReader] at hop
      split at hop
      case h_1 message hreader =>
          obtain rfl := Option.some.inj hop
          exact h.failAll hreader
      case h_2 => cases hop
  | store =>
      simp only [WorkerClient.stepReader] at hop
      split at hop
      case h_1 hreader =>
          obtain rfl := Option.some.inj hop
          exact h.store hreader
      case h_2 => cases hop
  | call _ _ | load _ | insert _ | write _ _ | recv _ _ | unregister _ => cases hop

/-- A new call. -/
theorem Inv.call (h : Inv w) (requestId : String) (kind : CallKind) :
    Inv { w with calls := w.calls ++ [{ requestId := requestId, kind := kind }] } := by
  have hlookup {id : ℕ} {c : ClientCall} (hc : w.calls[id]? = some c) :
      (w.calls ++ [{ requestId := requestId, kind := kind }])[id]? = some c := by
    rw [List.getElem?_append_left (List.getElem?_eq_some_iff.mp hc).1, hc]
  obtain ⟨done, hframes, hsent⟩ := h.sent
  refine ⟨fun k id hid => ?_, fun c hc hfresh => ?_, fun id e hid => ?_, h.closed, done, hframes,
    fun c hc => ?_⟩
  · obtain ⟨c, hc, hk⟩ := h.held k id hid
    exact ⟨c, hlookup hc, hk⟩
  · rcases List.mem_append.mp hc with hc | hc
    · exact h.fresh c hc hfresh
    · obtain rfl := List.mem_singleton.mp hc
      rfl
  · obtain ⟨c, hc, he⟩ := h.target id e hid
    exact ⟨c, hlookup hc, he⟩
  · rcases List.mem_append.mp hc with hc | hc
    · exact hsent c hc
    · obtain rfl := List.mem_singleton.mp hc
      exact List.nil_sublist _

/-- A step that is enabled is one of a call, one of the reader, or a new call. -/
theorem step?_cases {op : ClientOp} {w' : WorkerClient} (hop : w.step? decode op = some w') :
    (∃ id call, w.calls[id]? = some call ∧ (∀ i result, op = .write i result → i = id) ∧
      w.stepCall id call op = some w') ∨
    w.stepReader decode op = some w' ∨
    ∃ requestId kind, op = .call requestId kind ∧
      w' = { w with calls := w.calls ++ [{ requestId := requestId, kind := kind }] } := by
  cases op with
  | call requestId kind => exact .inr (.inr ⟨requestId, kind, rfl, (Option.some.inj hop).symm⟩)
  | write id _ =>
      obtain ⟨call, hcall, hstep⟩ := Option.bind_eq_some_iff.mp hop
      exact .inl ⟨id, call, hcall, fun i _ h => by injection h with h; exact h.symm, hstep⟩
  | load id | insert id | recv id _ | unregister id =>
      obtain ⟨call, hcall, hstep⟩ := Option.bind_eq_some_iff.mp hop
      exact .inl ⟨id, call, hcall, nofun, hstep⟩
  | read _ | route | send | failAll | store => exact .inr (.inl hop)

/-- Only the last step of the reader stores `closed`. -/
theorem closed_step? {op : ClientOp} {w' : WorkerClient} (hop : w.step? decode op = some w')
    (hclosed : w'.closed = true) : w.closed = true ∨ op = .store ∧ w.reader = .drained := by
  rcases step?_cases hop with ⟨id, call, hcall, -, hstep⟩ | hstep | ⟨requestId, kind, -, rfl⟩
  · refine .inl ?_
    cases op <;> simp only [WorkerClient.stepCall] at hstep <;>
      (repeat' split at hstep) <;> cases hstep <;> exact hclosed
  · cases op with
    | store =>
        simp only [WorkerClient.stepReader] at hstep
        split at hstep
        case h_1 hreader => exact .inr ⟨rfl, hreader⟩
        case h_2 => cases hstep
    | _ =>
        refine .inl ?_
        simp only [WorkerClient.stepReader] at hstep
        (repeat' split at hstep) <;> cases hstep <;> exact hclosed
  · exact .inl hclosed

theorem Inv.step? (h : Inv w) {op : ClientOp} {w' : WorkerClient}
    (hop : w.step? decode op = some w') : Inv w' := by
  rcases step?_cases hop with ⟨id, call, hcall, -, hstep⟩ | hstep | ⟨requestId, kind, -, rfl⟩
  · exact h.stepCall hcall hstep
  · exact h.stepReader hstep
  · exact h.call requestId kind

theorem Inv.step (h : Inv w) (op : ClientOp) : Inv (w.step decode op).2 := by
  simp only [WorkerClient.step]
  split
  case h_1 w' hop => exact h.step? hop
  case h_2 => exact h

theorem inv_exec (decode : List Char → Except String WorkerEvent) (ops : List ClientOp) :
    Inv (Run.exec (step decode) {} ops) := by
  have hstep : ∀ (w : WorkerClient) (op : ClientOp), Inv w → True → Inv (w.step decode op).2 :=
    fun w op h _ => h.step op
  exact Run.exec_invariant hstep inv_init (Run.each_true _ _)

/-! ## Calls that nothing will wake -/

/-- After `fail_all` no call in the map waits. -/
def Quiet (w : WorkerClient) : Prop :=
  w.reader.done → ∀ id call, w.calls[id]? = some call → call.place = .receiving →
    w.inflight.get? call.requestId ≠ some id

theorem Quiet.not_stranded (h : Quiet w) : ¬ Stranded w := by
  rintro ⟨hreader, -, id, call, hcall, hplace, -, hheld⟩
  exact h (by rw [hreader]; rfl) id call hcall hplace hheld

/-- A call moves, and does not come to wait in vain. -/
theorem Quiet.setCall {id : ℕ} {call call' : ClientCall} (h : Quiet w)
    (hcall : w.calls[id]? = some call) (hid : call'.requestId = call.requestId)
    (hplace : call'.place = .receiving → w.reader.done →
      w.inflight.get? call.requestId ≠ some id) :
    Quiet (w.setCall id call') := by
  intro hdone j c hc hreceiving
  by_cases hj : id = j
  · subst hj
    have hlt : id < w.calls.length := (List.getElem?_eq_some_iff.mp hcall).1
    obtain rfl : call' = c := by simpa [WorkerClient.setCall, hlt] using hc
    rw [hid]
    exact hplace hreceiving hdone
  · refine h hdone j c ?_ hreceiving
    rwa [WorkerClient.setCall, List.getElem?_set_ne hj] at hc

theorem Quiet.stepCall {id : ℕ} {call : ClientCall} {op : ClientOp} {w' : WorkerClient}
    (h : Quiet w) (hcall : w.calls[id]? = some call)
    (hwrite : ∀ i result, op = .write i result → i = id) (hguard : KeepsUp w op)
    (hop : w.stepCall id call op = some w') : Quiet w' := by
  cases op with
  | load _ =>
      simp only [WorkerClient.stepCall] at hop
      split at hop
      case h_1 =>
          split at hop
          all_goals
            obtain rfl := Option.some.inj hop
            exact h.setCall hcall rfl fun hplace => by cases hplace
      case h_2 => cases hop
  | insert _ =>
      simp only [WorkerClient.stepCall] at hop
      split at hop
      case h_1 =>
          obtain rfl := Option.some.inj hop
          have hset : Quiet (w.setCall id { call with place := .registered }) :=
            h.setCall hcall rfl fun hplace => by cases hplace
          intro hdone j c hc hplace hheld
          rw [Dict.get?_set] at hheld
          split at hheld
          case isTrue =>
              obtain rfl := Option.some.inj hheld
              obtain ⟨hlt, rfl⟩ : id < w.calls.length ∧ { call with place := .registered } = c := by
                have hlt := (List.getElem?_eq_some_iff.mp hcall).1
                exact ⟨hlt, by simpa [WorkerClient.setCall, hlt] using hc⟩
              cases hplace
          case isFalse => exact hset hdone j c hc hplace hheld
      case h_2 => cases hop
  | write i result =>
      simp only [WorkerClient.stepCall] at hop
      split at hop
      case h_1 hplace =>
          obtain rfl := Option.some.inj hop
          refine h.setCall hcall (by simp) fun hwritten hdone => ?_
          rcases result with error | _
          · simp only [ClientCall.written] at hwritten
            split at hwritten <;> cases hwritten
          · obtain rfl := hwrite _ _ rfl
            exact hguard call hcall hplace hdone
      case h_2 => cases hop
  | recv _ onDelta =>
      simp only [WorkerClient.stepCall] at hop
      split at hop
      case h_1 message rest hplace hchannel =>
          obtain rfl := Option.some.inj hop
          exact h.setCall hcall (by simp) fun _ hdone => h hdone id call hcall hplace
      case h_2 =>
          have hdisconnected : Quiet (w.setCall id { call with
              place := .unregistering (.failed (.protocol closedSocket)) }) :=
            h.setCall hcall rfl fun hplace => by cases hplace
          split at hop <;> split at hop <;> cases hop <;> exact hdisconnected
      case h_3 => cases hop
  | unregister _ =>
      simp only [WorkerClient.stepCall] at hop
      split at hop
      case h_1 result hplace =>
          obtain rfl := Option.some.inj hop
          have hset : Quiet (w.setCall id { call with place := .returned result }) :=
            h.setCall hcall rfl fun hplace => by cases hplace
          intro hdone j c hc hreceiving hheld
          rw [Dict.get?_pop] at hheld
          split at hheld
          · cases hheld
          · exact hset hdone j c hc hreceiving hheld
      case h_2 => cases hop
  | call _ _ | read _ | route | send | failAll | store => cases hop

/-- The reader leaves no call behind: it empties the map when it is done. -/
theorem Quiet.stepReader {op : ClientOp} {w' : WorkerClient} (h : Quiet w)
    (hop : w.stepReader decode op = some w') : Quiet w' := by
  cases op with
  | read result =>
      simp only [WorkerClient.stepReader] at hop
      split at hop
      case h_1 =>
          obtain rfl := Option.some.inj hop
          intro hdone
          rw [(readLine_spec decode result).1] at hdone
          cases hdone
      case h_2 => cases hop
  | route =>
      simp only [WorkerClient.stepReader] at hop
      split at hop
      case h_1 =>
          split at hop
          all_goals
            obtain rfl := Option.some.inj hop
            intro hdone
            cases hdone
      case h_2 => cases hop
  | send =>
      simp only [WorkerClient.stepReader] at hop
      split at hop
      case h_1 =>
          obtain rfl := Option.some.inj hop
          intro hdone
          cases hdone
      case h_2 => cases hop
  | failAll =>
      simp only [WorkerClient.stepReader] at hop
      split at hop
      case h_1 =>
          obtain rfl := Option.some.inj hop
          intro _ _ _ _ _ hheld
          cases hheld
      case h_2 => cases hop
  | store =>
      simp only [WorkerClient.stepReader] at hop
      split at hop
      case h_1 hreader =>
          obtain rfl := Option.some.inj hop
          exact fun _ => h (by rw [hreader]; rfl)
      case h_2 => cases hop
  | call _ _ | load _ | insert _ | write _ _ | recv _ _ | unregister _ => cases hop

theorem Quiet.step (h : Quiet w) {op : ClientOp} (hguard : KeepsUp w op) :
    Quiet (w.step decode op).2 := by
  simp only [WorkerClient.step]
  split
  case h_1 w' hop =>
      rcases step?_cases hop with
        ⟨id, call, hcall, hwrite, hstep⟩ | hstep | ⟨requestId, kind, -, rfl⟩
      · exact h.stepCall hcall hwrite hguard hstep
      · exact h.stepReader hstep
      · intro hdone id c hc hplace
        rw [List.getElem?_append] at hc
        split at hc
        · exact h hdone id c hc hplace
        · obtain rfl := List.mem_singleton.mp (List.mem_of_getElem? hc)
          cases hplace
  case h_2 => exact h

/-- In a run whose steps keep up no call is ever stranded. -/
theorem quiet_exec {ops : List ClientOp} (hops : Run.Each (step decode) KeepsUp {} ops) :
    Quiet (Run.exec (step decode) {} ops) := by
  have hstep : ∀ (w : WorkerClient) (op : ClientOp), Quiet w → KeepsUp w op →
      Quiet (w.step decode op).2 := fun w op h hguard => h.step hguard
  exact Run.exec_invariant hstep (fun hdone => nomatch hdone) hops

/-- A step that does not keep up strands its call, at the latest when `closed` is stored. -/
theorem Inv.stranded (h : Inv w) {op : ClientOp} (henabled : (w.step decode op).1 = true)
    (hguard : ¬ KeepsUp w op) :
    Stranded ((w.step decode op).2.step decode .store).2 := by
  cases op with
  | write id result =>
      rcases result with error | _
      · exact absurd trivial hguard
      · simp only [KeepsUp, not_forall, not_not] at hguard
        obtain ⟨call, hcall, hplace, hdone, hheld⟩ := hguard
        have hlt : id < w.calls.length := (List.getElem?_eq_some_iff.mp hcall).1
        have hempty : call.channel = [] := by
          obtain ⟨c, hc, -, -, hempty⟩ := h.held _ _ hheld
          obtain rfl := Option.some.inj (hcall.symm.trans hc)
          exact hempty hdone
        have hwritten : (w.step decode (.write id (.ok ()))).2 =
            w.setCall id { call with place := .receiving } := by
          simp [WorkerClient.step, WorkerClient.step?, hcall, WorkerClient.stepCall, hplace,
            ClientCall.written]
        have hwaits : (w.setCall id { call with place := .receiving }).calls[id]? =
            some { call with place := .receiving } := by simp [WorkerClient.setCall, hlt]
        rw [hwritten]
        -- the reader has stored `closed`, or does so now
        cases hreader : w.reader with
        | drained =>
            have hstore : ((w.setCall id { call with place := .receiving }).step decode .store).2 =
                { w.setCall id { call with place := .receiving } with
                  reader := .ended, closed := true } := by
              simp [WorkerClient.step, WorkerClient.step?, WorkerClient.stepReader,
                WorkerClient.setCall, hreader]
            rw [hstore]
            exact ⟨rfl, rfl, id, _, hwaits, rfl, hempty, hheld⟩
        | ended =>
            have hstore : ((w.setCall id { call with place := .receiving }).step decode .store).2 =
                w.setCall id { call with place := .receiving } := by
              simp [WorkerClient.step, WorkerClient.step?, WorkerClient.stepReader,
                WorkerClient.setCall, hreader]
            rw [hstore]
            exact ⟨hreader, h.closed.mpr hreader, id, _, hwaits, rfl, hempty, hheld⟩
        | reading | routing e | sending target e | failing message =>
            rw [hreader] at hdone
            cases hdone
  | call _ _ | load _ | insert _ | recv _ _ | unregister _ | read _ | route | send | failAll
  | store => exact absurd trivial hguard

/-- **Routing, and who is stranded.** In every interleaving the events sent to a call are
those with its request id, in the order of the socket.  No call is stranded in a run whose
steps keep up, and the first step that does not strands its call once `closed` is stored. -/
theorem routed_and_stranded (decode : List Char → Except String WorkerEvent)
    (ops : List ClientOp) :
    Routed (Run.exec (step decode) {} ops) ∧
    (Run.Each (step decode) KeepsUp {} ops →
      ∀ before, before <+: ops → ¬ Stranded (Run.exec (step decode) {} before)) ∧
    ∀ op, ((Run.exec (step decode) {} ops).step decode op).1 = true →
      ¬ KeepsUp (Run.exec (step decode) {} ops) op →
      Stranded (Run.exec (step decode) {} (ops ++ [op, .store])) := by
  have hinv : Inv (Run.exec (step decode) {} ops) := inv_exec decode ops
  refine ⟨hinv.routed, fun hops before hbefore => ?_, fun op henabled hguard => ?_⟩
  · obtain ⟨after, rfl⟩ := hbefore
    exact (quiet_exec hops.of_append).not_stranded
  · rw [Run.exec_append]
    exact hinv.stranded henabled hguard

/-- A reader that meets a line it cannot decode, as `serde_json` answers. -/
def garbled : List Char → Except String WorkerEvent := fun _ =>
  .error "expected value at line 1 column 1"

/-- The command is written before the reader fails. -/
def failsLate : List ClientOp :=
  [.call "chat-1" (.executeChat true), .load 0, .insert 0, .write 0 (.ok ()),
    .read (.line ['x', '\n']), .failAll, .store, .recv 0 (.ok ()), .unregister 0]

theorem woken : Run.Each (step garbled) KeepsUp {} failsLate ∧
    ∀ before, before <+: failsLate → ¬ Stranded (Run.exec (step garbled) {} before) := by
  have hops : Run.Each (step garbled) KeepsUp {} failsLate :=
    ⟨trivial, trivial, trivial, fun _ _ _ => nofun, trivial, trivial, trivial, trivial, trivial,
      trivial⟩
  exact ⟨hops, (routed_and_stranded garbled failsLate).2.1 hops⟩

/-- The reader drains the map between the check of `closed` and the insertion. -/
def failsEarly : List ClientOp :=
  [.call "chat-1" (.executeChat true), .load 0, .read (.line ['x', '\n']), .failAll, .insert 0,
    .store, .write 0 (.ok ())]

/-- Then the call waits for ever. -/
theorem call_stranded : Stranded (Run.exec (step garbled) {} failsEarly) :=
  ⟨rfl, rfl, 0, _, rfl, rfl, rfl, rfl⟩

end WorkerClient
end MlxRuntime
