import MlxRuntime.Lib.Run
import MlxRuntime.Worker.Frames

/-!
# The continuous loops of the v1 worker

A reader thread puts the frames of the socket into a queue, and the loop takes them out, one
a turn, and ticks its schedulers.  `_run_continuous_text_loop` has one scheduler.
`_run_continuous_batch_loop` has a second one for the VLM, and its reader decodes each frame
first, to mark the requests that were cancelled.

The schedulers are parameters.  Their operations may raise, and then the loop is left.

## Main definitions

* `Schedulers` — what a loop does with a command, and its tick.
* `textSchedulers`, `batchSchedulers` — those of the two loops.
* `ContinuousLoop`, `LoopOp`, `ContinuousLoop.step` — the reader and the loop.
* `ContinuousLoop.Answers` — what a step must do with a frame that is no command.
* `ContinuousLoop.Orderly` — the steps that do it.
* `ContinuousLoop.answered_run` — a run of such steps.
-/

namespace MlxRuntime

variable {F σ τ ε : Type}

/-- The scheduler of a modality. -/
structure V1Scheduler (F σ ε : Type) where
  idle : σ → Bool
  submit : σ → ChatCompletionRequest F → Except PyError (σ × List (LoopEvent F ε))
  /-- The answer is whether a request was cancelled. -/
  cancel : σ → Json F → Except PyError (Bool × σ × List (LoopEvent F ε))
  benchmarkReset : σ → Bool → Bool → Except PyError (σ × Json F)
  /-- The marks are those of the reader. -/
  tick : List (Json F) → σ → Except PyError (σ × List (LoopEvent F ε))

/-- What a loop does with a command, and at the end of a turn. -/
structure Schedulers (F σ ε : Type) where
  idle : σ → Bool
  handle : σ → Command F → Except PyError (σ × List (LoopEvent F ε))
  tick : List (Json F) → σ → Except PyError (σ × List (LoopEvent F ε))

/-- The error for a reset while requests run. -/
def busyError (requestId : Json F) : CommandError F where
  code := "BENCHMARK_BUSY"
  requestId := requestId
  message := "benchmark reset requires an idle scheduler"

/-- The branches of `_run_continuous_text_loop`. -/
def textSchedulers (text : V1Scheduler F σ ε) : Schedulers F σ ε where
  idle := text.idle
  handle s
    | .cancel requestId => (text.cancel s requestId).map fun r => (r.2.1, r.2.2)
    | .reset request =>
        if !text.idle s then .ok (s, [.error (busyError request.requestId)])
        else (text.benchmarkReset s request.clearCache request.resetCounters).map fun r =>
          (r.1, [.reset request.requestId r.2])
    | .chat request => text.submit s request
  tick := text.tick

/-- The models that the worker serves. -/
structure WorkerModels where
  model : String
  vlmModel : Option String

/-- The message for a model that is not served; `shown` is how Python prints the name. -/
def notServed (models : WorkerModels) (shown : String) : String :=
  s!"model '{shown}' is not served by this worker (serves text='{models.model}'" ++
    match models.vlmModel with
    | some vlm => if vlm = "" then ")" else s!", vlm='{vlm}')"
    | none => ")"

/-- `request_has_images`. -/
def requestHasImages (request : ChatCompletionRequest F) : Bool :=
  request.messages.any fun message =>
    match message.content with
    | .plain _ => false
    | .parts parts => parts.any fun
        | .image _ _ => true
        | .text _ => false

/-- The schedulers of the batch loop, and whose tick is first. -/
structure BatchState (σ τ : Type) where
  text : σ
  vlm : Option τ := none
  tickTextFirst : Bool := true
  tickConsecutive : Nat := 0

/-- The batch loop at its start. -/
def BatchState.start (text : σ) : BatchState σ τ where
  text := text

/-- `tick_max_consecutive`. -/
def tickMaxConsecutive : Nat := 4

/-- The order of the ticks of the next turn. -/
def BatchState.turnOrder (bothReady : Bool) (s : BatchState σ τ) : BatchState σ τ :=
  if bothReady then
    if tickMaxConsecutive ≤ s.tickConsecutive + 1 then
      { s with tickTextFirst := !s.tickTextFirst, tickConsecutive := 0 }
    else { s with tickConsecutive := s.tickConsecutive + 1 }
  else { s with tickTextFirst := !s.tickTextFirst, tickConsecutive := 0 }

/-- The tick of the VLM, when it has a scheduler. -/
def vlmTick (vlm : V1Scheduler F τ ε) (marks : List (Json F)) :
    Option τ → Except PyError (Option τ × List (LoopEvent F ε))
  | some s => (vlm.tick marks s).map fun r => (some r.1, r.2)
  | none => .ok (none, [])

/-- `tick_schedulers`. -/
def tickSchedulers (text : V1Scheduler F σ ε) (vlm : V1Scheduler F τ ε) (marks : List (Json F))
    (s : BatchState σ τ) : Except PyError (BatchState σ τ × List (LoopEvent F ε)) := do
  let bothReady := !text.idle s.text && s.vlm.any fun s₂ => !vlm.idle s₂
  if s.tickTextFirst then
    let (s₁, events) ← text.tick marks s.text
    let (s₂, more) ← vlmTick vlm marks s.vlm
    return ({ s with text := s₁, vlm := s₂ }.turnOrder bothReady, events ++ more)
  else
    let (s₂, events) ← vlmTick vlm marks s.vlm
    let (s₁, more) ← text.tick marks s.text
    return ({ s with text := s₁, vlm := s₂ }.turnOrder bothReady, events ++ more)

/-- The error for images to the text model. -/
def textOnlyError (models : WorkerModels) (requestId : Json F) : CommandError F where
  code := "INVALID_REQUEST"
  requestId := requestId
  message := s!"model '{models.model}' is a text-only model and does not support image content"

/-- The error for a model that is not served. -/
def notServedError (py : PyJson F) (models : WorkerModels) (request : ChatCompletionRequest F) :
    CommandError F where
  code := "INVALID_REQUEST"
  requestId := request.requestId
  message := notServed models (py.str request.model)

/-- The branches of `_run_continuous_batch_loop`; `create` is `ensure_vlm_scheduler`, when
there is no scheduler for the VLM yet. -/
def batchSchedulers (py : PyJson F) (models : WorkerModels) (text : V1Scheduler F σ ε)
    (vlm : V1Scheduler F τ ε) (create : Except PyError τ) : Schedulers F (BatchState σ τ) ε where
  idle s := text.idle s.text && s.vlm.all vlm.idle
  handle s
    | .cancel requestId => do
        let (handled, s₁, events) ← text.cancel s.text requestId
        match handled, s.vlm with
        | false, some s₂ =>
            let (_, s₂, more) ← vlm.cancel s₂ requestId
            return ({ s with text := s₁, vlm := some s₂ }, events ++ more)
        | _, _ => return ({ s with text := s₁ }, events)
    | .reset request =>
        if !(text.idle s.text && s.vlm.all vlm.idle) then
          .ok (s, [.error (busyError request.requestId)])
        else (text.benchmarkReset s.text request.clearCache request.resetCounters).map fun r =>
          ({ s with text := r.1 }, [.reset request.requestId r.2])
    | .chat request =>
        if Json.isText models.model (some request.model) then
          if requestHasImages request then
            .ok (s, [.error (textOnlyError models request.requestId)])
          else (text.submit s.text request).map fun r => ({ s with text := r.1 }, r.2)
        else if models.vlmModel.any fun name => Json.isText name (some request.model) then do
          let s₂ ← match s.vlm with
            | some s₂ => pure s₂
            | none => create
          let (s₂, events) ← vlm.submit s₂ request
          return ({ s with vlm := some s₂ }, events)
        else .ok (s, [.error (notServedError py models request)])
  tick := tickSchedulers text vlm

/-- What the reader puts into the queue. -/
inductive QueueItem
  | line (raw : Bytes)
  | eof
  deriving DecidableEq

/-- Whether the loop runs, broke off, or was left with an exception. -/
inductive LoopStatus
  | running
  | finished
  | died (error : PyError)
  deriving DecidableEq

/-- The reader thread and the loop.  `eofRead` is history. -/
structure ContinuousLoop (F σ : Type) where
  schedulers : σ
  queue : List QueueItem := []
  readerAlive : Bool := true
  cancelledRequestIds : List (Json F) := []
  pendingStop : Bool := false
  status : LoopStatus := .running
  eofRead : Bool := false

/-- The steps: the reader reads a frame or the end of the stream, or the loop turns. -/
inductive LoopOp
  | read (raw : Bytes)
  | readEof
  | turn
  deriving DecidableEq

/-- A value with a hash. -/
def Json.hashable : Json F → Bool
  | .arr _ | .obj _ => false
  | _ => true

namespace ContinuousLoop

variable (py : PyJson F) (b : Schedulers F σ ε) (decodes : Bool)

/-- The reader dies: `finally` puts the end into the queue. -/
def readerDies (w : ContinuousLoop F σ) : ContinuousLoop F σ :=
  { w with queue := w.queue ++ [.eof], readerAlive := false }

/-- The reader on a frame; the one of the text loop does not decode. -/
def readFrame (raw : Bytes) (w : ContinuousLoop F σ) : ContinuousLoop F σ :=
  let put (w : ContinuousLoop F σ) : ContinuousLoop F σ :=
    { w with queue := w.queue ++ [.line raw] }
  if !decodes then put w
  else
    match receive py raw with
    | .error _ => w.readerDies
    | .ok (.ok (.cancel requestId)) =>
        if requestId.hashable then
          put { w with cancelledRequestIds := w.cancelledRequestIds ++ [requestId] }
        else w.readerDies
    | .ok _ => put w

/-- The next item of the queue: its command, or the error for it. -/
def takeFrame (w : ContinuousLoop F σ) :
    Except PyError (List (LoopEvent F ε) × ContinuousLoop F σ) :=
  match w.queue with
  | [] => .ok ([], { w with pendingStop := w.pendingStop || !w.readerAlive })
  | .eof :: queue => .ok ([], { w with queue := queue, pendingStop := true })
  | .line raw :: queue => do
      match ← receive py raw with
      | .error e => return ([.error e], { w with queue := queue })
      | .ok command =>
          let (s, events) ← b.handle w.schedulers command
          return (events, { w with queue := queue, schedulers := s })

/-- The end of a turn: the tick, and whether the loop breaks off. -/
def endTurn (w : ContinuousLoop F σ) : List (LoopEvent F ε) × ContinuousLoop F σ :=
  match b.tick w.cancelledRequestIds w.schedulers with
  | .error e => ([], { w with status := .died e })
  | .ok (s, events) =>
      (events, { w with
        schedulers := s
        status := if w.pendingStop && b.idle s then .finished else .running })

/-- A turn of the loop. -/
def turn (w : ContinuousLoop F σ) : List (LoopEvent F ε) × ContinuousLoop F σ :=
  match takeFrame py b w with
  | .error e => ([], { w with queue := w.queue.tail, status := .died e })
  | .ok (events, w) => (events ++ (endTurn b w).1, (endTurn b w).2)

/-- A step; what is not enabled changes nothing. -/
def step (w : ContinuousLoop F σ) : LoopOp → List (LoopEvent F ε) × ContinuousLoop F σ
  | .read raw => ([], if w.readerAlive then readFrame py decodes raw w else w)
  | .readEof =>
      ([], if w.readerAlive then
        { w.readerDies.readerDies with eofRead := true } else w)
  | .turn => if w.status = .running then turn py b w else ([], w)

/-! ## What a step must do, and when it does -/

/-- The reader gets over a frame. -/
def Readable (raw : Bytes) : Prop :=
  ∃ r, receive py raw = .ok r ∧ ∀ requestId, r = .ok (.cancel requestId) → requestId.hashable

/-- The loop has an answer for a frame: it is no command, or it is well-formed, or the branch
of its command refuses it. -/
def Answerable (s : σ) (raw : Bytes) : Prop :=
  Rejected py raw ∨ ∃ command, decodeCommand py raw = .ok (some command) ∧
    (command.WellFormed ∨ ∃ e, b.handle s command = .ok (s, [.error e]))

/-- The step finds a frame that it can read or answer, and schedulers that do not raise. -/
def Orderly (w : ContinuousLoop F σ) : LoopOp → Prop
  | .read raw => decodes → Readable py raw
  | .readEof => True
  | .turn =>
      (∀ raw queue, w.queue = .line raw :: queue → Answerable py b w.schedulers raw ∧
        ∀ command, decodeCommand py raw = .ok (some command) →
          ∃ r, b.handle w.schedulers command = .ok r) ∧
      ∀ events w', takeFrame py b w = .ok (events, w') →
        ∃ r, b.tick w'.cancelledRequestIds w'.schedulers = .ok r

/-- A frame that is no well-formed command is answered with one error, and the turn goes on as
if there had been no frame.  No frame stops the reader or the loop. -/
def Answers (w : ContinuousLoop F σ) : LoopOp → Prop
  | .read raw =>
      let w' := (step py b decodes w (.read raw)).2
      w.readerAlive → w'.readerAlive ∧ w'.queue = w.queue ++ [.line raw] ∧
        (Rejected py raw → w' = { w with queue := w.queue ++ [.line raw] })
  | .readEof => True
  | .turn =>
      w.status = .running →
      (∀ e, (step py b decodes w .turn).2.status ≠ .died e) ∧
      ∀ raw queue, w.queue = .line raw :: queue → ¬ Understood py raw →
        ∃ e, step py b decodes w .turn = (.error e :: (endTurn b { w with queue := queue }).1,
          (endTurn b { w with queue := queue }).2)

/-- The loop runs, or it broke off after the end of the stream and the last frame. -/
def Consuming (w : ContinuousLoop F σ) : Prop :=
  (w.readerAlive ∨ w.eofRead) ∧
    (w.status = .running ∨
      w.status = .finished ∧ w.eofRead ∧ ∀ raw, QueueItem.line raw ∉ w.queue)

variable {py b decodes} {w : ContinuousLoop F σ} {raw : Bytes} {queue : List QueueItem}

theorem readFrame_of_readable (h : decodes → Readable py raw) :
    ∃ marks, readFrame py decodes raw w =
      { w with queue := w.queue ++ [.line raw], cancelledRequestIds := marks } := by
  cases decodes with
  | false => exact ⟨_, rfl⟩
  | true =>
      obtain ⟨r, hr, hhash⟩ := h rfl
      simp only [readFrame, hr]
      rcases r with e | command
      · exact ⟨_, rfl⟩
      · cases command with
        | chat request => exact ⟨_, rfl⟩
        | reset request => exact ⟨_, rfl⟩
        | cancel requestId =>
            simp only [hhash requestId rfl]
            exact ⟨_, rfl⟩

theorem readFrame_of_rejected (h : Rejected py raw) :
    readFrame py decodes raw w = { w with queue := w.queue ++ [.line raw] } := by
  obtain ⟨message, hmessage⟩ := receive_of_rejected h
  cases decodes <;> simp [readFrame, hmessage]

theorem takeFrame_of_rejected (hqueue : w.queue = .line raw :: queue) (h : Rejected py raw) :
    ∃ e, takeFrame py b w = .ok ([.error e], { w with queue := queue }) := by
  obtain ⟨message, hmessage⟩ := receive_of_rejected h
  refine ⟨rejection message, ?_⟩
  simp only [takeFrame, hqueue, hmessage]
  rfl

theorem takeFrame_of_command {command : Command F} {s : σ} {events : List (LoopEvent F ε)}
    (hqueue : w.queue = .line raw :: queue) (h : decodeCommand py raw = .ok (some command))
    (hhandle : b.handle w.schedulers command = .ok (s, events)) :
    takeFrame py b w = .ok (events, { w with queue := queue, schedulers := s }) := by
  simp only [takeFrame, hqueue, receive_of_understood h]
  show (do
    let (s, events) ← b.handle w.schedulers command
    return (events, { w with queue := queue, schedulers := s })) = _
  rw [hhandle]
  rfl

/-- The front of the queue is taken. -/
theorem takeFrame_ok (h : Orderly py b decodes w .turn) :
    ∃ events w', takeFrame py b w = .ok (events, w') := by
  match hqueue : w.queue with
  | [] => exact ⟨_, _, by simp only [takeFrame, hqueue]; rfl⟩
  | .eof :: queue => exact ⟨_, _, by simp only [takeFrame, hqueue]; rfl⟩
  | .line raw :: queue =>
      obtain ⟨hanswer, hhandle⟩ := h.1 raw queue hqueue
      rcases hanswer with hrejected | ⟨command, hcommand, -⟩
      · obtain ⟨e, he⟩ := takeFrame_of_rejected (b := b) hqueue hrejected
        exact ⟨_, _, he⟩
      · obtain ⟨⟨s, events⟩, hs⟩ := hhandle command hcommand
        exact ⟨_, _, takeFrame_of_command hqueue hcommand hs⟩

/-- A frame that is no well-formed command leaves one error, and the rest of the queue. -/
theorem takeFrame_of_not_understood (hqueue : w.queue = .line raw :: queue)
    (hanswer : Answerable py b w.schedulers raw) (hnot : ¬ Understood py raw) :
    ∃ e, takeFrame py b w = .ok ([.error e], { w with queue := queue }) := by
  rcases hanswer with hrejected | ⟨command, hcommand, hwell | ⟨e, he⟩⟩
  · exact takeFrame_of_rejected hqueue hrejected
  · exact absurd ⟨command, hcommand, hwell⟩ hnot
  · exact ⟨e, takeFrame_of_command hqueue hcommand he⟩

theorem endTurn_of_tick {r : σ × List (LoopEvent F ε)}
    (h : b.tick w.cancelledRequestIds w.schedulers = .ok r) :
    endTurn b w = (r.2, { w with
      schedulers := r.1
      status := if w.pendingStop && b.idle r.1 then .finished else .running }) := by
  simp only [endTurn, h]

/-- **One step.** -/
theorem answers_of_orderly {op : LoopOp} (h : Orderly py b decodes w op) :
    Answers py b decodes w op := by
  cases op with
  | read raw =>
      intro halive
      have hstep : (step py b decodes w (.read raw)).2 = readFrame py decodes raw w :=
        if_pos halive
      obtain ⟨marks, hmarks⟩ := readFrame_of_readable (w := w) h
      simp only [hstep]
      refine ⟨?_, ?_, readFrame_of_rejected⟩
      · rw [hmarks]
        exact halive
      · rw [hmarks]
  | readEof => trivial
  | turn =>
      intro hrunning
      have hstep : step py b decodes w .turn = turn py b w := if_pos hrunning
      simp only [hstep, turn]
      constructor
      · obtain ⟨events, w', hw'⟩ := takeFrame_ok h
        obtain ⟨r, hr⟩ := h.2 events w' hw'
        intro e
        simp only [hw', endTurn_of_tick hr]
        split <;> nofun
      · intro raw queue hqueue hnot
        obtain ⟨e, he⟩ := takeFrame_of_not_understood hqueue (h.1 raw queue hqueue).1 hnot
        exact ⟨e, by simp only [he]; rfl⟩

/-! ## The end of the stream -/

/-- The end of the stream is behind every frame, and the loop stops behind it. -/
structure Inv (w : ContinuousLoop F σ) : Prop where
  /-- An end is followed by ends only. -/
  sorted : w.queue.Pairwise fun x y => x = .eof → y = .eof
  eof : .eof ∈ w.queue → w.eofRead ∧ w.readerAlive = false
  reader : w.readerAlive ∨ w.eofRead
  stop : w.pendingStop → w.eofRead ∧ w.readerAlive = false ∧ ∀ raw, QueueItem.line raw ∉ w.queue
  status : w.status = .running ∨ w.status = .finished ∧ w.pendingStop

theorem Inv.consuming (h : Inv w) : Consuming w :=
  ⟨h.reader, h.status.imp_right fun hfinished =>
    ⟨hfinished.1, (h.stop hfinished.2).1, (h.stop hfinished.2).2.2⟩⟩

/-- A turn takes the front of the queue, and remembers an end that it took. -/
theorem takeFrame_eq_ok {events : List (LoopEvent F ε)} {w' : ContinuousLoop F σ}
    (h : takeFrame py b w = .ok (events, w')) :
    w'.queue = w.queue.tail ∧ w'.readerAlive = w.readerAlive ∧ w'.eofRead = w.eofRead ∧
      w'.status = w.status ∧
      (w'.pendingStop → w.pendingStop ∨ w.queue.head? = some .eof ∨
        w.queue = [] ∧ w.readerAlive = false) := by
  match hqueue : w.queue with
  | [] =>
      simp only [takeFrame, hqueue] at h
      obtain ⟨rfl, rfl⟩ := Prod.mk.inj (Except.ok.inj h)
      simp
  | .eof :: rest =>
      simp only [takeFrame, hqueue] at h
      obtain ⟨rfl, rfl⟩ := Prod.mk.inj (Except.ok.inj h)
      simp
  | .line raw :: rest =>
      simp only [takeFrame, hqueue] at h
      obtain ⟨received, -, h⟩ := bind_eq_ok h
      rcases received with e | command
      · obtain ⟨rfl, rfl⟩ := Prod.mk.inj (Except.ok.inj h)
        simp
      · obtain ⟨⟨s, out⟩, -, h⟩ := bind_eq_ok h
        obtain ⟨rfl, rfl⟩ := Prod.mk.inj (Except.ok.inj h)
        simp

theorem Inv.turn (h : Inv w) (hok : Orderly py b decodes w .turn) : Inv (turn py b w).2 := by
  obtain ⟨events, w', hw'⟩ := takeFrame_ok hok
  obtain ⟨r, hr⟩ := hok.2 events w' hw'
  obtain ⟨hqueue, halive, heof, hstatus, hstop⟩ := takeFrame_eq_ok hw'
  have hnext : (ContinuousLoop.turn py b w).2 = { w' with
      schedulers := r.1
      status := if w'.pendingStop && b.idle r.1 then .finished else .running } := by
    simp only [ContinuousLoop.turn, hw', endTurn_of_tick hr]
  have htail : ∀ x, x ∈ w'.queue → x ∈ w.queue := fun x hx =>
    List.mem_of_mem_tail (hqueue ▸ hx)
  rw [hnext]
  constructor
  · exact hqueue ▸ h.sorted.tail
  · intro hmem
    exact heof ▸ halive ▸ h.eof (htail _ hmem)
  · exact heof ▸ halive ▸ h.reader
  · intro hpending
    show w'.eofRead ∧ w'.readerAlive = false ∧ ∀ raw, QueueItem.line raw ∉ w'.queue
    rw [heof, halive, hqueue]
    rcases hstop hpending with hbefore | hhead | ⟨hempty, hdead⟩
    · obtain ⟨hread, hdead, hlines⟩ := h.stop hbefore
      exact ⟨hread, hdead, fun raw hmem => hlines raw (List.mem_of_mem_tail hmem)⟩
    · obtain ⟨rest, hrest⟩ := List.head?_eq_some_iff.mp hhead
      obtain ⟨hread, hdead⟩ := h.eof (hrest ▸ List.mem_cons_self)
      refine ⟨hread, hdead, fun raw hmem => ?_⟩
      have hsorted : (QueueItem.eof :: rest).Pairwise fun x y => x = .eof → y = .eof :=
        hrest ▸ h.sorted
      rw [hrest] at hmem
      cases (List.pairwise_cons.mp hsorted).1 _ hmem rfl
    · refine ⟨h.reader.resolve_left (by simp [hdead]), hdead, ?_⟩
      simp [hempty]
  · show (if w'.pendingStop && b.idle r.1 then LoopStatus.finished else .running) = .running ∨
      (if w'.pendingStop && b.idle r.1 then LoopStatus.finished else .running) = .finished ∧
        w'.pendingStop
    cases w'.pendingStop <;> cases b.idle r.1 <;> simp

theorem Inv.step {op : LoopOp} (h : Inv w) (hok : Orderly py b decodes w op) :
    Inv (step py b decodes w op).2 := by
  cases op with
  | read raw =>
      by_cases halive : w.readerAlive
      · obtain ⟨marks, hmarks⟩ := readFrame_of_readable (w := w) hok
        have hstep : (ContinuousLoop.step py b decodes w (.read raw)).2 = _ :=
          (if_pos halive).trans hmarks
        rw [hstep]
        have hno : QueueItem.eof ∉ w.queue := fun hmem => by
          simp [(h.eof hmem).2] at halive
        constructor
        · refine List.pairwise_append.mpr ⟨h.sorted, List.pairwise_singleton _ _, ?_⟩
          rintro x hx y - rfl
          exact absurd hx hno
        · intro hmem
          exact h.eof (by simpa using hmem)
        · exact h.reader
        · intro hpending
          have := (h.stop hpending).2.1
          simp [this] at halive
        · exact h.status
      · have hstep : (ContinuousLoop.step py b decodes w (.read raw)).2 = w := if_neg halive
        rwa [hstep]
  | readEof =>
      by_cases halive : w.readerAlive
      · have hstep : (ContinuousLoop.step py b decodes w .readEof).2 =
            { w.readerDies.readerDies with eofRead := true } := if_pos halive
        rw [hstep]
        constructor
        · simp only [readerDies]
          refine List.pairwise_append.mpr ⟨List.pairwise_append.mpr ⟨h.sorted, ?_, ?_⟩, ?_, ?_⟩ <;>
            simp
        · exact fun _ => ⟨rfl, rfl⟩
        · exact .inr rfl
        · intro hpending
          have := (h.stop hpending).2.1
          simp [this] at halive
        · exact h.status
      · have hstep : (ContinuousLoop.step py b decodes w .readEof).2 = w := if_neg halive
        rwa [hstep]
  | turn =>
      by_cases hrunning : w.status = .running
      · have hstep : (ContinuousLoop.step py b decodes w .turn).2 = (ContinuousLoop.turn py b w).2 :=
          congrArg Prod.snd (if_pos hrunning)
        rw [hstep]
        exact h.turn hok
      · have hstep : (ContinuousLoop.step py b decodes w .turn).2 = w :=
          congrArg Prod.snd (if_neg hrunning)
        rwa [hstep]

/-- A loop at its start. -/
def start (s : σ) : ContinuousLoop F σ where
  schedulers := s

theorem inv_start (s : σ) : Inv (start (F := F) s) where
  sorted := .nil
  eof := nofun
  reader := .inl rfl
  stop := nofun
  status := .inl rfl

/-- **A run.** Orderly steps answer every frame, until the end of the stream. -/
theorem answered_run (s : σ) (ops : List LoopOp)
    (h : Run.Each (step py b decodes) (Orderly py b decodes) (start s) ops) :
    Run.Each (step py b decodes) (Answers py b decodes) (start s) ops ∧
      Consuming (Run.exec (step py b decodes) (start s) ops) :=
  ⟨h.mono fun _ _ => answers_of_orderly,
    (Run.exec_invariant (fun _ _ => Inv.step) (inv_start s) h).consuming⟩

/-! ## Frames that stop a loop -/

/-- A frame with an exception that is not caught ends the loop. -/
theorem turn_died {e : PyError} (hrunning : w.status = .running)
    (hqueue : w.queue = .line raw :: queue) (h : receive py raw = .error e) :
    step py b decodes w .turn = ([], { w with queue := queue, status := .died e }) := by
  have hstep : step py b decodes w .turn = turn py b w := if_pos hrunning
  have htake : takeFrame py b w = .error e := by
    simp only [takeFrame, hqueue, h]
    rfl
  simp only [hstep, turn, htake, hqueue, List.tail_cons]

/-- The reader of the batch loop dies of it first, and the frame is lost. -/
theorem reader_died {e : PyError} (halive : w.readerAlive) (h : receive py raw = .error e) :
    step py b true w (.read raw) = ([], w.readerDies) := by
  have hstep : step py b true w (.read raw) = ([], readFrame py true raw w) :=
    congrArg (Prod.mk []) (if_pos halive)
  simp only [hstep, readFrame, h]
  rfl

end ContinuousLoop
end MlxRuntime
