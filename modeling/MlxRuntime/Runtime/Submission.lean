import MlxRuntime.Lib.Run
import MlxRuntime.Runtime.Native
import MlxRuntime.Scheduler.Caller
import MlxRuntime.V1.Requests

/-!
# Submissions to the native runtime

`submit` builds the prompt of a request and checks it, writes the state of the request into the
table of the runtime, tells the profiler, and only then submits to the scheduler, which has a check
of its own.

What the profiler raises is an input of the step.

## Main definitions

* `ModelServices`, `buildPrompt`, `validate` — the checks.
* `NativeRuntime.submitRequest` — `submit`.
* `NativeRuntimeOp`, `NativeRuntime.step` — what is asked of the runtime.
* `NativeRuntime.Atomic` — a submission that raises changes nothing.
* `NativeRuntime.Enters` — a request that passes its checks enters the scheduler.
-/

namespace MlxRuntime

/-- What `submit` reads of the loaded model. -/
structure ModelServices (F : Type) where
  modelRef : String
  /-- `apply_chat_template`, of roles and contents. -/
  applyChatTemplate : List (Json F × String) → Except PyError (List Token)
  /-- `x == 0.0`. -/
  isZero : F → Bool
  /-- `x == 1.0`. -/
  isOne : F → Bool

section Checks

variable {ρ F : Type} (model : ModelServices F)

/-- A message of the prompt. -/
def textMessage (message : ChatMessage F) : Except PyError (Json F × String) :=
  match message.content with
  | .plain text => .ok (message.role, text)
  | .parts _ => .error (.valueError "native-mlx text backend does not support image content")

/-- `_build_prompt`. -/
def buildPrompt (request : ChatRequest ρ F) : Except PyError (List Token) := do
  model.applyChatTemplate (← request.messages.mapM textMessage)

/-- `_validate`. -/
def validate (request : ChatRequest ρ F) (prompt : List Token) : Except PyError Unit :=
  if request.model ≠ model.modelRef then
    .error (.valueError "requested model does not match loaded model")
  else if !model.isZero request.temperature || !model.isOne request.topP then
    .error (.valueError "native-mlx currently supports greedy decoding only")
  else if "" ∈ request.stop then .error (.valueError "stop sequences must not be empty")
  else if request.maxPromptTokens < prompt.length then
    .error (.valueError "prompt exceeds max_prompt_tokens")
  else if request.maxCompletionTokens < request.maxTokens then
    .error (.valueError "completion exceeds max_completion_tokens")
  else if request.maxTotalTokensPerRequest < prompt.length + request.maxTokens then
    .error (.valueError "request exceeds max_total_tokens_per_request")
  else .ok ()

/-- The prompt of a request that passes the checks of the runtime. -/
def checked (request : ChatRequest ρ F) : Except PyError (List Token) := do
  let prompt ← buildPrompt model request
  validate model request prompt
  return prompt

end Checks

/-- What the runtime keeps of a request. -/
def ChatRequest.textRequest {ρ F : Type} (request : ChatRequest ρ F) : TextRequest ρ where
  requestId := request.requestId
  stop := request.stop.map String.toList
  maxTokens := request.maxTokens
  stream := request.stream

/-- What is asked of the runtime; `profiled` is what the profiler raises, if there is one. -/
inductive NativeRuntimeOp (ρ F : Type)
  | submit (request : ChatRequest ρ F) (profiled : Except PyError Unit)
  | cancel (requestId : ρ) (prefillTimeMs : ℕ)
  | tick

/-- What it answers. -/
inductive NativeRuntimeReply (ρ : Type)
  | submitted (result : Except PyError Unit)
  | cancelled (handled : Bool)
  | ticked (result : Except PyError (List (RuntimeEvent ρ)))
  | gone
  deriving DecidableEq

namespace NativeRuntime

variable {ρ σ π φ δ F : Type} [DecidableEq ρ]

/-- The table with a new request. -/
def entered (text : TextServices δ) (request : ChatRequest ρ F) (prompt : List Token)
    (r : NativeRuntime ρ σ φ δ) : NativeRuntime ρ σ φ δ :=
  let state := .ofRequest text request.textRequest prompt
  { r with requests := r.requests.set request.requestId state }

/-- `submit`. -/
def submitRequest (model : ModelServices F) (text : TextServices δ) (request : ChatRequest ρ F)
    (profiled : Except PyError Unit) (r : NativeRuntime ρ σ φ δ) :
    Except PyError Unit × NativeRuntime ρ σ φ δ :=
  match checked model request with
  | .error e => (.error e, r)
  | .ok prompt =>
      match profiled with
      | .error e => (.error e, r.entered text request prompt)
      | .ok () => r.submit text request.textRequest prompt

variable (svc : SchedulerServices ρ σ π φ) (config : SchedulerConfig) (model : ModelServices F)
  (text : TextServices δ)

/-- One call; an exception of `tick` ends the worker. -/
def step : Option (NativeRuntime ρ σ φ δ) → NativeRuntimeOp ρ F →
    NativeRuntimeReply ρ × Option (NativeRuntime ρ σ φ δ)
  | none, _ => (.gone, none)
  | some r, .submit request profiled =>
      let (result, r) := r.submitRequest model text request profiled
      (.submitted result, some r)
  | some r, .cancel requestId prefillTimeMs =>
      let (handled, r) := r.cancel requestId prefillTimeMs
      (.cancelled handled, some r)
  | some r, .tick =>
      match r.tick svc text config with
      | .error e => (.ticked (.error e), none)
      | .ok (events, r) => (.ticked (.ok events), some r)

/-- A submission that raises leaves the table and the scheduler as they were, and whatever is asked
later has the answers that it has without the submission. -/
def Atomic (w : Option (NativeRuntime ρ σ φ δ)) : NativeRuntimeOp ρ F → Prop
  | .submit request profiled => ∀ r e r', w = some r →
      r.submitRequest model text request profiled = (.error e, r') →
      r'.requests = r.requests ∧ r'.scheduler = r.scheduler ∧
        ∀ later, Run.replies (step svc config model text) (some r') later =
          Run.replies (step svc config model text) (some r) later
  | .cancel _ _ | .tick => True

/-- A request that passes the checks of the runtime enters the scheduler: nothing is raised after
the table was written, unless the table has the same state already. -/
def Enters (w : Option (NativeRuntime ρ σ φ δ)) : NativeRuntimeOp ρ F → Prop
  | .submit request profiled => ∀ r prompt, w = some r → checked model request = .ok prompt →
      profiled = .ok () ∧ ¬ r.scheduler.Present request.requestId ∨
        r.requests.get? request.requestId = some (.ofRequest text request.textRequest prompt)
  | .cancel _ _ | .tick => True

variable {svc config model text} {r : NativeRuntime ρ σ φ δ} {request : ChatRequest ρ F}
  {profiled : Except PyError Unit} {prompt : List Token}

/-- A request that does not pass its checks changes nothing. -/
theorem submitRequest_of_error {e : PyError} (h : checked model request = .error e) :
    r.submitRequest model text request profiled = (.error e, r) := by
  rw [submitRequest, h]

variable (text) in
/-- A request that the scheduler has is refused once it is in the table. -/
theorem submitRequest_of_refused (h : checked model request = .ok prompt)
    (hrefused : ¬ (profiled = .ok () ∧ ¬ r.scheduler.Present request.requestId)) :
    ∃ e, r.submitRequest model text request profiled = (.error e, r.entered text request prompt) := by
  rw [submitRequest, h]
  cases profiled with
  | error e => exact ⟨e, rfl⟩
  | ok _ =>
    have hpresent : r.scheduler.Present request.requestId :=
      of_not_not fun habsent => hrefused ⟨rfl, habsent⟩
    refine ⟨.valueError "duplicate native request", ?_⟩
    have hsubmit : r.scheduler.submit (schedulable request.textRequest prompt) =
        .error (.valueError "duplicate native request") := if_pos hpresent
    simp only [submit, hsubmit]
    rfl

variable (text) in
/-- Any other request is accepted. -/
theorem submitRequest_of_absent (h : checked model request = .ok prompt)
    (habsent : ¬ r.scheduler.Present request.requestId) :
    (r.submitRequest model text request (.ok ())).1 = .ok () := by
  rw [submitRequest, h]
  have hsubmit : ∃ s, r.scheduler.submit (schedulable request.textRequest prompt) = .ok s :=
    ⟨_, if_neg habsent⟩
  obtain ⟨s, hsubmit⟩ := hsubmit
  simp only [submit, hsubmit]

theorem atomic_iff (w : Option (NativeRuntime ρ σ φ δ)) (op : NativeRuntimeOp ρ F) :
    Atomic svc config model text w op ↔ Enters model text w op := by
  cases op with
  | cancel => exact Iff.rfl
  | tick => exact Iff.rfl
  | submit request profiled =>
    constructor
    · intro h r prompt hw hchecked
      by_cases haccepted : profiled = .ok () ∧ ¬ r.scheduler.Present request.requestId
      · exact .inl haccepted
      · obtain ⟨e, hsubmit⟩ := submitRequest_of_refused text hchecked haccepted
        exact .inr (Dict.set_eq_self_iff.mp (h r e _ hw hsubmit).1)
    · intro h r e r' hw hsubmit
      have hsame : r' = r := by
        cases hchecked : checked model request with
        | error e' =>
          rw [submitRequest_of_error hchecked] at hsubmit
          exact (Prod.mk.inj hsubmit).2.symm
        | ok prompt =>
          by_cases haccepted : profiled = .ok () ∧ ¬ r.scheduler.Present request.requestId
          · have hok := submitRequest_of_absent text hchecked haccepted.2
            rw [haccepted.1] at hsubmit
            rw [hsubmit] at hok
            cases hok
          · obtain ⟨e', hrefused⟩ := submitRequest_of_refused text hchecked haccepted
            rw [hrefused] at hsubmit
            have hkept := (h r prompt hw hchecked).resolve_left haccepted
            rw [← (Prod.mk.inj hsubmit).2, entered, Dict.set_eq_self_iff.mpr hkept]
      rw [hsame]
      exact ⟨rfl, rfl, fun _ => rfl⟩

/-- A model whose prompts have a token for each message. -/
def countingModel : ModelServices Unit where
  modelRef := "model"
  applyChatTemplate messages := .ok (messages.map fun _ => 3)
  isZero _ := true
  isOne _ := true

/-- A tokenizer whose tokens are all the same letter. -/
def letterTokenizer : TextServices Unit where
  eosTokenIds := []
  newDetokenizer := none
  detokenizer := { addToken := fun _ _ => ([], ()), finalize := fun _ => [] }
  decode tokens := tokens.map fun _ => 'a'

/-- A request for one token. -/
def requestOf (messages : List String) : ChatRequest ℕ Unit where
  requestId := 1
  model := "model"
  messages := messages.map fun content => { role := .str "user", content := .plain content }
  maxTokens := 1
  temperature := ()
  topP := ()
  maxPromptTokens := 8
  maxCompletionTokens := 8
  maxTotalTokensPerRequest := 16
  stop := []
  stream := true

end NativeRuntime
end MlxRuntime
