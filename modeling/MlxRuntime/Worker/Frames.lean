import MlxRuntime.Protocol.Commands

/-!
# The frames of the v1 worker

The three loops of the v1 worker read a frame alike: `decode_command`, with four exceptions
caught.  A frame that raises one of these, or is of an unknown type, is answered with an
error; any other exception leaves the loop.

## Main definitions

* `receive` — a frame: a command, the error to answer with, or an exception.
* `Rejected`, `Understood` — the frames that are answered with an error, and the commands.
-/

namespace MlxRuntime

variable {F : Type}

/-- `except (json.JSONDecodeError, KeyError, TypeError, ValueError)`. -/
def PyError.caught : PyError → Bool
  | .valueError _ | .keyError | .typeError _ => true
  | _ => false

/-- `WorkerCommandError`, with whatever the request id is. -/
structure CommandError (F : Type) where
  code : String
  requestId : Json F
  message : String

/-- What a loop sends; `ε` are the events of an engine or a scheduler. -/
inductive LoopEvent (F ε : Type)
  | error (e : CommandError F)
  | reset (requestId cacheState : Json F)
  | event (e : ε)

/-- The error for a frame that is no command. -/
def rejection (message : String) : CommandError F where
  code := "INVALID_REQUEST"
  requestId := .str "unknown"
  message := message

variable (py : PyJson F)

/-- A frame: its command, or the error to answer with; or an exception that is not caught. -/
def receive (raw : Bytes) : Except PyError (Except (CommandError F) (Command F)) :=
  match decodeCommand py raw with
  | .error e => if e.caught then .ok (.error (rejection e.message)) else .error e
  | .ok none => .ok (.error (rejection "unsupported worker command"))
  | .ok (some command) => .ok (.ok command)

/-- The frame decodes to nothing, or with an exception that is caught. -/
def Rejected (raw : Bytes) : Prop :=
  decodeCommand py raw = .ok none ∨ ∃ e, decodeCommand py raw = .error e ∧ e.caught

/-- The frame is a well-formed command. -/
def Understood (raw : Bytes) : Prop :=
  ∃ command, decodeCommand py raw = .ok (some command) ∧ command.WellFormed

variable {py} {raw : Bytes}

theorem receive_of_rejected (h : Rejected py raw) :
    ∃ message, receive py raw = .ok (.error (rejection message)) := by
  rcases h with h | ⟨e, h, hcaught⟩
  · exact ⟨"unsupported worker command", by rw [receive, h]⟩
  · exact ⟨e.message, by simp only [receive, h, hcaught, if_true]⟩

theorem receive_of_understood {command : Command F}
    (h : decodeCommand py raw = .ok (some command)) : receive py raw = .ok (.ok command) := by
  rw [receive, h]

theorem not_understood_of_rejected (h : Rejected py raw) : ¬ Understood py raw := by
  rintro ⟨command, hcommand, -⟩
  rcases h with h | ⟨e, h, -⟩ <;> rw [h] at hcommand <;> cases hcommand

/-- A value that has no `get` is not caught. -/
theorem receive_of_not_dict {text : List Char} {payload : Json F} (htext : fromUtf8 raw = some text)
    (hloads : py.loads text = .ok payload) (hdict : ∀ members, payload ≠ .obj members) :
    ∃ message, receive py raw = .error (.attributeError message) := by
  have hdecode : decodeCommand py raw = decodePayload py payload := by
    rw [decodeCommand, loadsLine, htext]
    simp only [hloads]
    rfl
  cases payload with
  | obj members => exact absurd rfl (hdict members)
  | null | bool _ | int _ | float _ | str _ | arr _ =>
      exact ⟨_, by rw [receive, hdecode]; rfl⟩

end MlxRuntime
