import MlxRuntime.Lib.Run
import MlxRuntime.Worker.Frames

/-!
# The frames of the native worker

`run_native_worker` decodes a frame, gives the command to the runtime, and answers with an
error whatever was raised on the way.  The handler reads the variable `command`, which keeps
the command of an earlier frame when the frame itself does not decode.

What the runtime answers is an input of the step.

## Main definitions

* `NativeLoop`, `NativeFrame`, `NativeLoop.step` — the loop over the frames.
* `NativeLoop.Attributed` — an error is about its frame.
* `NativeLoop.Attributable` — the frames whose errors are.
-/

namespace MlxRuntime

variable {F : Type}

/-- What the native loop answers to a frame. -/
inductive FrameReply (F : Type)
  | error (e : CommandError F)
  | reset (requestId cacheState : Json F)

/-- A frame, and what the runtime answers if it is asked. -/
structure NativeFrame (F : Type) where
  raw : Bytes
  idle : Bool := true
  cancel : Except PyError Unit := .ok ()
  benchmarkReset : Except PyError (Json F) := .ok (.obj [])
  submit : Except PyError Unit := .ok ()

/-- The loop.  `command` is the variable: unbound, `None` or a command.  `accepted` is history:
the ids of the requests that were submitted. -/
structure NativeLoop (F : Type) where
  command : Option (Option (Command F)) := none
  accepted : List (Json F) := []

namespace NativeLoop

variable (py : PyJson F)

/-- The branches on a command. -/
def run (frame : NativeFrame F) : Command F → Except PyError (Option (FrameReply F))
  | .cancel _ => frame.cancel.map fun _ => none
  | .reset request =>
      if !frame.idle then .error (.runtimeError "benchmark reset requires an idle scheduler")
      else frame.benchmarkReset.map fun cacheState => some (.reset request.requestId cacheState)
  | .chat _ => frame.submit.map fun _ => none

/-- The handler. -/
def handler (command : Option (Option (Command F))) (e : PyError) : CommandError F where
  code :=
    match command with
    | some (some (.reset _)) => "BENCHMARK_BUSY"
    | _ => "INVALID_REQUEST"
  requestId :=
    match command with
    | some (some command) => command.requestId
    | _ => .str "unknown"
  message := e.message

/-- One frame. -/
def step (w : NativeLoop F) (frame : NativeFrame F) : Option (FrameReply F) × NativeLoop F :=
  match decodeCommand py frame.raw with
  | .error e => (some (.error (handler w.command e)), w)
  | .ok none =>
      let w := { w with command := some none }
      (some (.error (handler w.command (.valueError "unsupported worker command"))), w)
  | .ok (some command) =>
      let w := { w with command := some (some command) }
      match run frame command with
      | .error e => (some (.error (handler w.command e)), w)
      | .ok reply =>
          match command with
          | .chat request => (reply, { w with accepted := w.accepted ++ [request.requestId] })
          | _ => (reply, w)

end NativeLoop

/-- What a frame says, if it is JSON. -/
def NativeFrame.payload? (py : PyJson F) (frame : NativeFrame F) : Option (Json F) :=
  (loadsLine py frame.raw).toOption

namespace NativeLoop

/-- An error is about its frame: it has the id the frame names, it says busy of a reset only,
and a frame that is no command does not end a request of another frame. -/
structure Attributed (py : PyJson F) (w : NativeLoop F) (frame : NativeFrame F)
    (e : CommandError F) : Prop where
  requestId : e.requestId = .str "unknown" ∨
    (frame.payload? py).bind Json.namedId = some e.requestId
  busy : e.code = "BENCHMARK_BUSY" → (frame.payload? py).any Json.isReset
  accepted : (∀ command, decodeCommand py frame.raw ≠ .ok (some command)) →
    e.requestId = .str "unknown" ∨ e.requestId ∉ w.accepted

/-- The frame decodes, or no command is left from an earlier frame, or the one left is of the
request that the frame names. -/
def Attributable (py : PyJson F) (w : NativeLoop F) (frame : NativeFrame F) : Prop :=
  ∀ e command, decodeCommand py frame.raw = .error e → w.command = some (some command) →
    (command.requestId = .str "unknown" ∨
      (frame.payload? py).bind Json.namedId = some command.requestId) ∧
    (command.isReset → (frame.payload? py).any Json.isReset) ∧
    (command.requestId = .str "unknown" ∨ command.requestId ∉ w.accepted)

variable {py : PyJson F} {w : NativeLoop F} {frame : NativeFrame F}

theorem step_of_error {e : PyError} (h : decodeCommand py frame.raw = .error e) :
    step py w frame = (some (.error (handler w.command e)), w) := by
  simp only [step, h]

theorem step_of_chat {request : ChatCompletionRequest F}
    (h : decodeCommand py frame.raw = .ok (some (.chat request))) (hsubmit : frame.submit = .ok ()) :
    (step py w frame).2 = {
      command := some (some (.chat request))
      accepted := w.accepted ++ [request.requestId] } := by
  simp only [step, h, run, hsubmit]
  rfl

theorem busy_handler {command : Option (Option (Command F))} {e : PyError}
    (h : (handler command e).code = "BENCHMARK_BUSY") :
    ∃ request, command = some (some (.reset request)) := by
  rcases command with _ | _ | _ | _ | request
  · simp [handler] at h
  · simp [handler] at h
  · simp [handler] at h
  · simp [handler] at h
  · exact ⟨request, rfl⟩

/-- A frame that decodes is read as what it says. -/
theorem payload_of_decodes {command : Command F}
    (h : decodeCommand py frame.raw = .ok (some command)) :
    (frame.payload? py).bind Json.namedId = some command.requestId ∧
      (frame.payload? py).any Json.isReset = command.isReset := by
  obtain ⟨payload, hpayload, h⟩ := bind_eq_ok h
  rw [NativeFrame.payload?, hpayload]
  exact decodePayload_eq_ok h

/-- The error of a command that failed is about its frame. -/
theorem attributed_of_decodes {command : Command F}
    (h : decodeCommand py frame.raw = .ok (some command)) (e : PyError) :
    Attributed py w frame (handler (some (some command)) e) where
  requestId := .inr (payload_of_decodes h).1
  busy hbusy := by
    obtain ⟨request, hrequest⟩ := busy_handler hbusy
    obtain rfl := Option.some.inj (Option.some.inj hrequest)
    rw [(payload_of_decodes h).2]
    rfl
  accepted hno := absurd h (hno command)

theorem attributed_of_unknown {e : CommandError F} (hid : e.requestId = .str "unknown")
    (hcode : e.code ≠ "BENCHMARK_BUSY") : Attributed py w frame e :=
  ⟨.inl hid, fun hbusy => absurd hbusy hcode, fun _ => .inl hid⟩

/-- The error of a frame that does not decode is about the command left from before. -/
theorem attributed_stale {e : PyError} (h : decodeCommand py frame.raw = .error e)
    {command : Command F} : Attributed py w frame (handler (some (some command)) e) ↔
    (command.requestId = .str "unknown" ∨
      (frame.payload? py).bind Json.namedId = some command.requestId) ∧
    (command.isReset → (frame.payload? py).any Json.isReset) ∧
    (command.requestId = .str "unknown" ∨ command.requestId ∉ w.accepted) := by
  have hno : ∀ command, decodeCommand py frame.raw ≠ .ok (some command) := by
    intro command hcommand
    rw [h] at hcommand
    cases hcommand
  constructor
  · intro hattr
    refine ⟨hattr.requestId, fun hreset => hattr.busy ?_, hattr.accepted hno⟩
    cases command with
    | reset request => rfl
    | chat request => cases hreset
    | cancel requestId => cases hreset
  · rintro ⟨hid, hreset, haccepted⟩
    refine ⟨hid, fun hbusy => hreset ?_, fun _ => haccepted⟩
    obtain ⟨request, hrequest⟩ := busy_handler hbusy
    obtain rfl := Option.some.inj (Option.some.inj hrequest)
    rfl

/-- A command that succeeds is not answered with an error. -/
theorem ne_error_of_run {command : Command F} {reply : Option (FrameReply F)}
    (h : run frame command = .ok reply) (e : CommandError F) : reply ≠ some (.error e) := by
  rintro rfl
  cases command with
  | cancel requestId =>
      simp only [run] at h
      cases hcancel : frame.cancel <;> rw [hcancel] at h <;> cases h
  | reset request =>
      simp only [run] at h
      split at h
      · cases h
      · cases hreset : frame.benchmarkReset <;> rw [hreset] at h <;> cases h
  | chat request =>
      simp only [run] at h
      cases hsubmit : frame.submit <;> rw [hsubmit] at h <;> cases h

theorem attributed_iff : (∀ e, (step py w frame).1 = some (.error e) → Attributed py w frame e) ↔
    Attributable py w frame := by
  cases h : decodeCommand py frame.raw with
  | error e =>
      have hreply : (step py w frame).1 = some (.error (handler w.command e)) := by
        simp only [step, h]
      have hsingle : (∀ e, (step py w frame).1 = some (.error e) → Attributed py w frame e) ↔
          Attributed py w frame (handler w.command e) := by
        rw [hreply]
        exact ⟨fun hall => hall _ rfl, fun hattr e he => by cases he; exact hattr⟩
      rw [hsingle, Attributable]
      rcases hcommand : w.command with _ | _ | command
      · exact ⟨fun _ _ _ _ => nofun, fun _ => attributed_of_unknown rfl (by simp [handler])⟩
      · exact ⟨fun _ _ _ _ => nofun, fun _ => attributed_of_unknown rfl (by simp [handler])⟩
      · rw [attributed_stale h]
        constructor
        · rintro hattr e' command' - hcommand'
          obtain rfl := Option.some.inj (Option.some.inj hcommand')
          exact hattr
        · exact fun hall => hall e command h rfl
  | ok decoded =>
      have hright : Attributable py w frame := fun e command he => by
        rw [h] at he
        cases he
      refine ⟨fun _ => hright, fun _ e he => ?_⟩
      rcases decoded with _ | command
      · simp only [step, h] at he
        cases he
        exact attributed_of_unknown rfl (by simp [handler])
      · simp only [step, h] at he
        split at he
        case h_1 error hrun =>
            cases he
            exact attributed_of_decodes h error
        case h_2 reply hrun =>
            refine absurd ?_ (ne_error_of_run hrun e)
            split at he <;> exact he

/-- **Attribution.** The errors of a run are about their frames if and only if every frame that
does not decode finds no command of another request left from before. -/
theorem attributed_errors_iff (py : PyJson F) (frames : List (NativeFrame F)) :
    Run.Each (step py) (fun w frame => ∀ e, (step py w frame).1 = some (.error e) →
      Attributed py w frame e) {} frames ↔
    Run.Each (step py) (Attributable py) {} frames :=
  ⟨Run.Each.mono fun _ _ => attributed_iff.mp, Run.Each.mono fun _ _ => attributed_iff.mpr⟩

/-- A request. -/
def chatPayload : Json Empty :=
  .obj [("type", .str "chat_completion"), ("request", .obj [
    ("request_id", .str "chat-1"), ("model", .str "m"), ("messages", .arr []),
    ("max_tokens", .int 4), ("temperature", .int 0), ("top_p", .int 1),
    ("max_prompt_tokens", .int 16), ("max_completion_tokens", .int 16),
    ("max_total_tokens_per_request", .int 32)])]

/-- The frame of the request. -/
def chatFrame : NativeFrame Empty where
  raw := asciiLine (String.ofList (chatPayload.text .integers))

theorem decodePayload_chatPayload : ∃ request, request.requestId = .str "chat-1" ∧
    decodePayload plainJson chatPayload = .ok (some (.chat request)) := by
  refine ⟨_, ?_, rfl⟩
  rfl

theorem loadsLine_chatFrame : loadsLine plainJson chatFrame.raw = .ok chatPayload :=
  loadsLine_text (by decide +kernel)

theorem decodeCommand_chatFrame : ∃ request, request.requestId = .str "chat-1" ∧
    decodeCommand plainJson chatFrame.raw = .ok (some (.chat request)) := by
  obtain ⟨request, hid, hpayload⟩ := decodePayload_chatPayload
  refine ⟨request, hid, ?_⟩
  rw [decodeCommand, loadsLine_chatFrame]
  exact hpayload

/-- A line that is no JSON. -/
def noiseFrame : NativeFrame Empty where
  raw := asciiLine "noise"

theorem decodeCommand_noiseFrame : ∃ e, decodeCommand plainJson noiseFrame.raw = .error e := by
  have hloads : loadsLine plainJson noiseFrame.raw = plainLoads ("noise".toList ++ ['\n']) :=
    loadsLine_ascii rfl
  exact ⟨_, by rw [decodeCommand, hloads]; rfl⟩

/-- The request id of an error. -/
def errorId? : Option (FrameReply F) → Option (Json F)
  | some (.error e) => some e.requestId
  | _ => none

/-- Noise after a request is answered with an error about the request. -/
theorem noise_ends_chat :
    Json.isText "chat-1" (errorId?
      (step plainJson (step plainJson {} chatFrame).2 noiseFrame).1) = true ∧
    ¬ Run.Each (step plainJson) (fun w frame => ∀ e,
      (step plainJson w frame).1 = some (.error e) → Attributed plainJson w frame e)
      {} [chatFrame, noiseFrame] := by
  obtain ⟨request, hrequest, hchat⟩ := decodeCommand_chatFrame
  obtain ⟨e, hnoise⟩ := decodeCommand_noiseFrame
  have hreply : (step plainJson (step plainJson {} chatFrame).2 noiseFrame).1 =
      some (.error (handler (some (some (.chat request))) e)) := by
    rw [step_of_error hnoise, step_of_chat hchat rfl]
  refine ⟨?_, fun hall => ?_⟩
  · rw [hreply]
    exact Json.isText_iff.mpr (congrArg some hrequest)
  · have hlast := hall.2.1 _ hreply
    rcases hlast.accepted (fun command hcommand => by simp [hnoise] at hcommand) with h | h
    · exact absurd (Json.str.inj (hrequest.symm.trans h)) (by decide)
    · rw [step_of_chat hchat rfl] at h
      exact h (List.mem_append_right _ (List.mem_singleton_self _))

end NativeLoop
end MlxRuntime
