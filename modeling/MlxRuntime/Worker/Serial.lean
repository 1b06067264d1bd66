import MlxRuntime.Worker.Continuous

/-!
# The serial loop of the v1 worker

`main` takes one frame after the other and runs a request to its end.  While it runs, the engine
polls `should_cancel`, which may read further frames: one that cancels the request is dropped,
any other is put aside for later.  `_is_matching_cancel_request` reads a frame with
`json.loads` of its bytes, not with `decode_command`.

When an engine polls, emits and ends is left open: these are steps.

## Main definitions

* `SerialLoop`, `SerialOp`, `SerialLoop.step` — the loop.
* `SerialLoop.Answers`, `SerialLoop.Orderly` — what a step must do with a frame that is no
  command, and the steps that do it.
* `frames_answered` — the three loops.
-/

namespace MlxRuntime

variable {F σ τ ε : Type}

/-- What `should_cancel` reads. -/
inductive Polled
  | unavailable
  | line (raw : Bytes)
  | eof
  deriving DecidableEq

/-- The request that runs; `polls` says that its engine is given `should_cancel`, and `cancelled`
is what that remembers. -/
structure SerialRequest (F : Type) where
  requestId : Json F
  polls : Bool
  cancelled : Bool := false

/-- The loop; `eofRead` is history. -/
structure SerialLoop (F : Type) where
  pendingLines : List Bytes := []
  active : Option (SerialRequest F) := none
  status : LoopStatus := .running
  eofRead : Bool := false

/-- The steps, with what the socket and the engines answer. -/
inductive SerialOp (F ε : Type)
  /-- The next frame: a pending one, else that of the socket, if any.  A reset answers `reset`,
  and `load` is the VLM. -/
  | next (read : Option Bytes) (reset : Except PyError (Json F)) (load : Except PyError Unit)
  /-- The engine asks whether to stop. -/
  | poll (read : Polled)
  | emit (delta : ε)
  | finish (result : Except PyError ε)

/-- `_is_matching_cancel_request`; `same` is Python's `==`. -/
def isMatchingCancelRequest (py : PyJson F) (same : Json F → Json F → Bool) (rawLine : Bytes)
    (requestId : Json F) : Except PyError Bool :=
  match py.loadsBytes rawLine with
  | .ok (.obj members) =>
      .ok (Json.isText "cancel_request" (Json.get? members "type") &&
        same ((Json.get? members "request_id").getD .null) requestId)
  | .ok _ => .ok false
  | .error (.typeError _) | .error (.valueError _) => .ok false
  | .error e => .error e

namespace SerialLoop

variable (py : PyJson F) (same : Json F → Json F → Bool) (models : WorkerModels)

/-- The engine for a request, or why there is none; the answer is whether it is the VLM. -/
def route (load : Except PyError Unit) (request : ChatCompletionRequest F) :
    Except PyError Bool :=
  if models.vlmModel.any fun name => Json.isText name (some request.model) then
    load.map fun _ => true
  else if Json.isText models.model (some request.model) then
    if requestHasImages request then
      .error (.valueError (textOnlyError models request.requestId).message)
    else .ok false
  else .error (.valueError (notServed models (py.str request.model)))

/-- The error for an exception of a request. -/
def requestError (requestId : Json F) (e : PyError) : CommandError F where
  code := match e with
    | .valueError _ => "INVALID_REQUEST"
    | _ => "WORKER_ERROR"
  requestId := requestId
  message := e.message

/-- A frame. -/
def takeFrame (reset : Except PyError (Json F)) (load : Except PyError Unit) (raw : Bytes)
    (w : SerialLoop F) : List (LoopEvent F ε) × SerialLoop F :=
  match receive py raw with
  | .error e => ([], { w with status := .died e })
  | .ok (.error e) => ([.error e], w)
  | .ok (.ok (.cancel _)) => ([], w)
  | .ok (.ok (.reset request)) =>
      match reset with
      | .error e => ([], { w with status := .died e })
      | .ok state => ([.reset request.requestId state], w)
  | .ok (.ok (.chat request)) =>
      match route py models load request with
      | .error e => ([.error (requestError request.requestId e)], w)
      | .ok vlm => ([], { w with active := some {
          requestId := request.requestId
          polls := request.stream.truthy py || vlm } })

/-- The end of the request that runs. -/
def finishActive (active : SerialRequest F) (result : Except PyError ε) (w : SerialLoop F) :
    List (LoopEvent F ε) × SerialLoop F :=
  ([match result with
    | .ok response => .event response
    | .error e => .error (requestError active.requestId e)], { w with active := none })

/-- `should_cancel`; an exception ends the request. -/
def shouldCancel (active : SerialRequest F) (w : SerialLoop F) :
    Polled → List (LoopEvent F ε) × SerialLoop F
  | .unavailable => ([], w)
  | .eof => ([], { w with active := some { active with cancelled := true }, eofRead := true })
  | .line raw =>
      match isMatchingCancelRequest py same raw active.requestId with
      | .error e => finishActive active (.error e) w
      | .ok true => ([], { w with active := some { active with cancelled := true } })
      | .ok false => ([], { w with pendingLines := w.pendingLines ++ [raw] })

/-- A step; what is not enabled changes nothing. -/
def step (w : SerialLoop F) : SerialOp F ε → List (LoopEvent F ε) × SerialLoop F
  | .next read reset load =>
      match w.status, w.active, w.pendingLines, read with
      | .running, none, raw :: rest, _ =>
          takeFrame py models reset load raw { w with pendingLines := rest }
      | .running, none, [], some raw => takeFrame py models reset load raw w
      | .running, none, [], none => ([], { w with status := .finished, eofRead := true })
      | _, _, _, _ => ([], w)
  | .poll read =>
      match w.active with
      | some active =>
          if active.polls && !active.cancelled then shouldCancel py same active w read else ([], w)
      | none => ([], w)
  | .emit delta => (if w.active.isSome then [.event delta] else [], w)
  | .finish result =>
      match w.active with
      | some active => finishActive active result w
      | none => ([], w)

/-! ## What a step must do, and when it does -/

/-- The frame that `next` takes. -/
def front? (read : Option Bytes) (w : SerialLoop F) : Option Bytes :=
  w.pendingLines.head?.or read

/-- The loop has an answer for a frame: it is no command, or it is well-formed, or its model
is not served. -/
def Answerable (load : Except PyError Unit) (raw : Bytes) : Prop :=
  Rejected py raw ∨ ∃ command, decodeCommand py raw = .ok (some command) ∧
    (command.WellFormed ∨ ∃ request e, command = .chat request ∧
      route py models load request = .error e)

/-- The step finds a frame that it can answer and an engine that resets; a frame that is polled
can be read, and cancels only when it is a command. -/
def Orderly (w : SerialLoop F) : SerialOp F ε → Prop
  | .next read reset load =>
      (∃ state, reset = .ok state) ∧ ∀ raw, w.front? read = some raw →
        Answerable py models load raw
  | .poll (.line raw) => ∀ active, w.active = some active →
      ∃ matching, isMatchingCancelRequest py same raw active.requestId = .ok matching ∧
        (matching = true → Understood py raw)
  | _ => True

/-- A frame that is no well-formed command is answered with one error when it is taken, and put
aside when it is polled, and nothing else happens.  No frame stops the loop. -/
def Answers (w : SerialLoop F) : SerialOp F ε → Prop
  | .next read reset load =>
      let op : SerialOp F ε := .next read reset load
      w.status = .running → w.active = none →
      (∀ e, (step py same models w op).2.status ≠ .died e) ∧
      ∀ raw, w.front? read = some raw → ¬ Understood py raw →
        ∃ e, step py same models w op =
          ([.error e], { w with pendingLines := w.pendingLines.tail })
  | .poll (.line raw) =>
      let op : SerialOp F ε := .poll (.line raw)
      ∀ active, w.active = some active → active.polls && !active.cancelled →
        step py same models w op = ([], { w with pendingLines := w.pendingLines ++ [raw] }) ∨
        Understood py raw ∧
          step py same models w op = ([], { w with active := some { active with cancelled := true } })
  | _ => True

/-- The loop runs, or it broke off after the end of the stream and the last frame. -/
def Consuming (w : SerialLoop F) : Prop :=
  w.status = .running ∨ w.status = .finished ∧ w.eofRead ∧ w.pendingLines = []

variable {py same models} {w : SerialLoop F} {raw : Bytes} {reset : Except PyError (Json F)}
  {load : Except PyError Unit}

/-- A frame that is answered with an error leaves the loop as it is. -/
theorem takeFrame_of_not_understood (hanswer : Answerable py models load raw)
    (hnot : ¬ Understood py raw) :
    ∃ e, takeFrame (ε := ε) py models reset load raw w = ([.error e], w) := by
  rcases hanswer with hrejected | ⟨command, hcommand, hwell | ⟨request, e, rfl, he⟩⟩
  · obtain ⟨message, hmessage⟩ := receive_of_rejected hrejected
    exact ⟨rejection message, by simp only [takeFrame, hmessage]⟩
  · exact absurd ⟨command, hcommand, hwell⟩ hnot
  · exact ⟨requestError request.requestId e, by
      simp only [takeFrame, receive_of_understood hcommand, he]⟩

/-- A frame that can be answered changes at most the request that runs. -/
theorem takeFrame_of_answerable {state : Json F} (hreset : reset = .ok state)
    (h : Answerable py models load raw) :
    ∃ active, (takeFrame (ε := ε) py models reset load raw w).2 = { w with active := active } := by
  by_cases hunderstood : Understood py raw
  · obtain ⟨command, hcommand, -⟩ := hunderstood
    cases command with
    | cancel requestId => exact ⟨w.active, by simp only [takeFrame, receive_of_understood hcommand]⟩
    | reset request =>
        exact ⟨w.active, by simp only [takeFrame, receive_of_understood hcommand, hreset]⟩
    | chat request =>
        simp only [takeFrame, receive_of_understood hcommand]
        cases route py models load request with
        | error e => exact ⟨w.active, rfl⟩
        | ok vlm => exact ⟨_, rfl⟩
  · obtain ⟨e, he⟩ : ∃ e, takeFrame (ε := ε) py models reset load raw w = ([.error e], w) :=
      takeFrame_of_not_understood h hunderstood
    exact ⟨w.active, by rw [he]⟩

/-- `next`, when it is enabled: it takes the front frame, or breaks off. -/
theorem step_next {read : Option Bytes} (hrunning : w.status = .running)
    (hactive : w.active = none) :
    step (ε := ε) py same models w (.next read reset load) =
      match w.front? read with
      | some raw => takeFrame py models reset load raw { w with pendingLines := w.pendingLines.tail }
      | none => ([], { w with status := .finished, eofRead := true }) := by
  obtain ⟨pendingLines, active, status, eofRead⟩ := w
  obtain rfl : status = .running := hrunning
  obtain rfl : active = none := hactive
  cases pendingLines <;> cases read <;> rfl

theorem step_poll {read : Polled} {active : SerialRequest F} (hactive : w.active = some active)
    (hpolls : active.polls && !active.cancelled) :
    step (ε := ε) py same models w (.poll read) = shouldCancel py same active w read := by
  simp only [step, hactive]
  exact if_pos hpolls

/-- **One step.** -/
theorem answers_of_orderly {op : SerialOp F ε} (h : Orderly py same models w op) :
    Answers py same models w op := by
  match op with
  | .next read reset load =>
      obtain ⟨⟨state, hreset⟩, hanswer⟩ := h
      intro hrunning hactive
      rw [step_next hrunning hactive]
      cases hfront : w.front? read with
      | none => exact ⟨nofun, nofun⟩
      | some raw =>
          constructor
          · obtain ⟨active, hnext⟩ := takeFrame_of_answerable (ε := ε)
              (w := { w with pendingLines := w.pendingLines.tail }) hreset (hanswer raw hfront)
            intro e hdied
            rw [hnext] at hdied
            exact nomatch hrunning.symm.trans hdied
          · rintro raw' hraw' hnot
            obtain rfl := Option.some.inj hraw'
            exact takeFrame_of_not_understood (hanswer raw hfront) hnot
  | .poll (.line raw) =>
      intro active hactive hpolls
      obtain ⟨matching, hmatching, hunderstood⟩ := h active hactive
      rw [step_poll hactive hpolls, shouldCancel]
      simp only [hmatching]
      cases matching with
      | false => exact .inl rfl
      | true => exact .inr ⟨hunderstood rfl, rfl⟩
  | .poll .unavailable | .poll .eof | .emit _ | .finish _ => trivial

/-- While a request runs the loop runs. -/
structure Inv (w : SerialLoop F) : Prop where
  consuming : Consuming w
  active : w.status = .running ∨ w.active = none

theorem Inv.of_running (h : w.status = .running) : Inv w :=
  ⟨.inl h, .inl h⟩

/-- Only `next` changes the status. -/
theorem step_status {op : SerialOp F ε} (hop : ∀ read reset load, op ≠ .next read reset load) :
    (step py same models w op).2.status = w.status := by
  match op with
  | .next read reset load => exact absurd rfl (hop read reset load)
  | .emit delta => rfl
  | .finish result =>
      simp only [step]
      split <;> rfl
  | .poll read =>
      simp only [step]
      split
      · split
        · cases read with
          | unavailable => rfl
          | eof => rfl
          | line raw =>
              simp only [shouldCancel]
              split <;> rfl
        · rfl
      · rfl

/-- Where no request runs, only `next` does something. -/
theorem step_idle {op : SerialOp F ε} (hop : ∀ read reset load, op ≠ .next read reset load)
    (hactive : w.active = none) : (step py same models w op).2 = w := by
  match op with
  | .next read reset load => exact absurd rfl (hop read reset load)
  | .emit delta => rfl
  | .finish result => simp only [step, hactive]
  | .poll read => simp only [step, hactive]

theorem Inv.next {read : Option Bytes} (h : Inv w)
    (hok : Orderly (ε := ε) py same models w (.next read reset load)) :
    Inv (step (ε := ε) py same models w (.next read reset load)).2 := by
  obtain ⟨⟨state, hreset⟩, hanswer⟩ := hok
  have hidle : w.status ≠ .running ∨ w.active ≠ none →
      (SerialLoop.step (ε := ε) py same models w (.next read reset load)).2 = w := by
    intro hbusy
    simp only [SerialLoop.step]
    split <;> first | rfl | simp_all
  by_cases henabled : w.status = .running ∧ w.active = none
  · obtain ⟨hrunning, hactive⟩ := henabled
    rw [step_next hrunning hactive]
    cases hfront : w.front? read with
    | some raw =>
        obtain ⟨active, hnext⟩ := takeFrame_of_answerable (ε := ε)
          (w := { w with pendingLines := w.pendingLines.tail }) hreset (hanswer raw hfront)
        refine .of_running ?_
        simp only [hnext]
        exact hrunning
    | none =>
        have hempty : w.pendingLines = [] := by
          simp only [front?, Option.or_eq_none_iff, List.head?_eq_none_iff] at hfront
          exact hfront.1
        exact ⟨.inr ⟨rfl, rfl, hempty⟩, .inr hactive⟩
  · rw [hidle (not_and_or.mp henabled)]
    exact h

theorem Inv.step {op : SerialOp F ε} (h : Inv w) (hok : Orderly py same models w op) :
    Inv (step py same models w op).2 := by
  by_cases hop : ∃ read reset load, op = .next read reset load
  · obtain ⟨read, reset, load, rfl⟩ := hop
    exact h.next hok
  · have hother : ∀ read reset load, op ≠ .next read reset load := fun read reset load heq =>
      hop ⟨read, reset, load, heq⟩
    rcases h.active with hrunning | hactive
    · exact .of_running ((step_status hother).trans hrunning)
    · rwa [step_idle hother hactive]

/-- **A run.** Orderly steps answer every frame, until the end of the stream. -/
theorem answered_run (ops : List (SerialOp F ε))
    (h : Run.Each (step py same models) (Orderly py same models) {} ops) :
    Run.Each (step py same models) (Answers py same models) {} ops ∧
      Consuming (Run.exec (step py same models) {} ops) :=
  ⟨h.mono fun _ _ => answers_of_orderly,
    (Run.exec_invariant (fun _ _ => Inv.step) (Inv.of_running rfl) h).consuming⟩

/-- A frame with an exception that is not caught ends the loop. -/
theorem next_died {e : PyError} (hrunning : w.status = .running) (hactive : w.active = none)
    (hlines : w.pendingLines = []) (h : receive py raw = .error e) :
    step (ε := ε) py same models w (.next (some raw) reset load) =
      ([], { w with status := .died e }) := by
  rw [step_next hrunning hactive]
  simp only [front?, hlines, List.head?_nil, Option.none_or, takeFrame, h, List.tail_nil]

end SerialLoop

/-! ## The three loops -/

/-- A scheduler without requests. -/
def emptyScheduler : V1Scheduler Empty Unit Empty where
  idle _ := true
  submit _ _ := .ok ((), [])
  cancel _ _ := .ok (false, (), [])
  benchmarkReset _ _ _ := .ok ((), .null)
  tick _ _ := .ok ((), [])

/-- The models of a worker. -/
def plainModels : WorkerModels := ⟨"m", none⟩

/-- A line that is no JSON. -/
def noiseLine : Bytes := asciiLine "noise"

theorem noiseLine_rejected : Rejected plainJson noiseLine := by
  have hcaught : (match decodeCommand plainJson noiseLine with
    | .error e => e.caught
    | .ok _ => false) = true := by decide
  generalize hdecode : decodeCommand plainJson noiseLine = decoded at hcaught
  rcases decoded with e | command
  · exact .inr ⟨e, hdecode, hcaught⟩
  · cases hcaught

theorem noiseLine_not_command (command : Command Empty) :
    decodeCommand plainJson noiseLine ≠ .ok (some command) := by
  intro hcommand
  rcases noiseLine_rejected with h | ⟨e, h, -⟩ <;> rw [h] at hcommand <;> cases hcommand

theorem orderly_read_noise (b : Schedulers Empty σ Empty) (decodes : Bool)
    (w : ContinuousLoop Empty σ) :
    ContinuousLoop.Orderly plainJson b decodes w (.read noiseLine) := by
  obtain ⟨message, hmessage⟩ := receive_of_rejected noiseLine_rejected
  exact fun _ => ⟨_, hmessage, nofun⟩

theorem orderly_turn_noise {b : Schedulers Empty σ Empty} {decodes : Bool}
    {w : ContinuousLoop Empty σ} (htick : ∀ marks s, ∃ r, b.tick marks s = .ok r)
    (hqueue : w.queue = [.line noiseLine]) :
    ContinuousLoop.Orderly plainJson b decodes w .turn := by
  refine ⟨fun raw queue hraw => ?_, fun _ w' _ => htick _ _⟩
  obtain ⟨hline, -⟩ := List.cons.inj (hqueue.symm.trans hraw)
  obtain rfl := QueueItem.line.inj hline
  exact ⟨.inl noiseLine_rejected, fun command hcommand =>
    absurd hcommand (noiseLine_not_command command)⟩

theorem orderly_noise {b : Schedulers Empty σ Empty} {decodes : Bool}
    (htick : ∀ marks s, ∃ r, b.tick marks s = .ok r) (s : σ) :
    Run.Each (ContinuousLoop.step plainJson b decodes) (ContinuousLoop.Orderly plainJson b decodes)
      (ContinuousLoop.start s) [.read noiseLine, .turn] := by
  have hread : (ContinuousLoop.step plainJson b decodes (ContinuousLoop.start s)
      (.read noiseLine)).2.queue = [.line noiseLine] :=
    congrArg _ (ContinuousLoop.readFrame_of_rejected noiseLine_rejected)
  exact ⟨orderly_read_noise b decodes _, orderly_turn_noise htick hread, trivial⟩

theorem orderly_serial_noise :
    Run.Each (SerialLoop.step plainJson (fun _ _ => false) plainModels)
      (SerialLoop.Orderly plainJson (fun _ _ => false) plainModels) {}
      [(.next (some noiseLine) (.ok .null) (.ok ()) : SerialOp Empty Empty)] := by
  refine ⟨⟨⟨.null, rfl⟩, fun raw hraw => ?_⟩, trivial⟩
  obtain rfl := Option.some.inj hraw
  exact .inl noiseLine_rejected

/-- A line that is JSON, and no object. -/
def listLine : Bytes := asciiLine "[]"

theorem receive_listLine : receive plainJson listLine =
    .error (.attributeError "'list' object has no attribute 'get'") := by
  rfl

end MlxRuntime
