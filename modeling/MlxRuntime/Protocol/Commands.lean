import MlxRuntime.Lib.Json
import MlxRuntime.Lib.Lines
import MlxRuntime.Python

/-!
# Commands on the wire

`decode_command` indexes into whatever JSON arrives: a value of the wrong shape raises what
Python raises there, and a field keeps a value whatever its type.  So the fields of a command
are JSON values here.

`json.loads` and `str` are parameters.  Strings with surrogates, which only Python has, are
taken as other strings.

## Main definitions

* `Command`, `decodeCommand` — the commands of the gateway, and their reader.
* `Json.namedId`, `Json.isReset` — what a frame says about itself.
* `decodePayload_eq_ok` — a command is what its frame says.
-/

namespace MlxRuntime

variable {F : Type}

/-- The functions of Python on JSON values and texts that are not written out. -/
structure PyJson (F : Type) where
  loads : List Char → Except PyError (Json F)
  /-- `json.loads` of bytes, which finds out their encoding. -/
  loadsBytes : Bytes → Except PyError (Json F)
  str : Json F → String
  /-- `x == 0.0`. -/
  isZero : F → Bool

namespace Json

/-- `type(value).__name__`. -/
def typeName : Json F → String
  | .null => "NoneType"
  | .bool _ => "bool"
  | .int _ => "int"
  | .float _ => "float"
  | .str _ => "str"
  | .arr _ => "list"
  | .obj _ => "dict"

/-- `value[key]`. -/
def getItem (key : String) : Json F → Except PyError (Json F)
  | .obj members =>
      match get? members key with
      | some value => .ok value
      | none => .error .keyError
  | .arr _ => .error (.typeError "list indices must be integers or slices, not str")
  | .str _ => .error (.typeError "string indices must be integers, not 'str'")
  | value => .error (.typeError s!"'{value.typeName}' object is not subscriptable")

/-- `value.get(key)`. -/
def getAttr (key : String) : Json F → Except PyError (Option (Json F))
  | .obj members => .ok (get? members key)
  | value => .error (.attributeError s!"'{value.typeName}' object has no attribute 'get'")

/-- `iter(value)`. -/
def iter : Json F → Except PyError (List (Json F))
  | .arr items => .ok items
  | .str s => .ok (s.toList.map fun c => .str (String.singleton c))
  | .obj members => .ok ((members.map Prod.fst).eraseDups.map .str)
  | value => .error (.typeError s!"'{value.typeName}' object is not iterable")

/-- `bool(value)`. -/
def truthy (py : PyJson F) : Json F → Bool
  | .null => false
  | .bool b => b
  | .int n => n ≠ 0
  | .float x => !py.isZero x
  | .str s => s ≠ ""
  | .arr items => !items.isEmpty
  | .obj members => !members.isEmpty

/-- `value == text`. -/
def isText (text : String) : Option (Json F) → Bool
  | some (.str s) => s = text
  | _ => false

end Json

/-- `ContentPart`. -/
inductive ContentPart (F : Type)
  | text (text : Json F)
  | image (url detail : Json F)

/-- The content of a message. -/
inductive Content (F : Type)
  | plain (text : String)
  | parts (parts : List (ContentPart F))

/-- `ChatMessage`. -/
structure ChatMessage (F : Type) where
  role : Json F
  content : Content F

/-- `ChatCompletionRequest`. -/
structure ChatCompletionRequest (F : Type) where
  requestId : Json F
  model : Json F
  messages : List (ChatMessage F)
  maxTokens : Json F
  temperature : Json F
  topP : Json F
  maxPromptTokens : Json F
  maxCompletionTokens : Json F
  maxTotalTokensPerRequest : Json F
  stop : List String
  stream : Json F

/-- `BenchmarkResetRequest`. -/
structure BenchmarkResetRequest (F : Type) where
  requestId : Json F
  clearCache : Bool
  resetCounters : Bool

/-- What `decode_command` returns, when it is not `None`. -/
inductive Command (F : Type)
  | chat (request : ChatCompletionRequest F)
  | cancel (requestId : Json F)
  | reset (request : BenchmarkResetRequest F)

/-- `command.request_id`. -/
def Command.requestId : Command F → Json F
  | .chat request => request.requestId
  | .cancel requestId => requestId
  | .reset request => request.requestId

/-- `isinstance(command, BenchmarkResetRequest)`. -/
def Command.isReset : Command F → Bool
  | .reset _ => true
  | _ => false

variable (py : PyJson F)

/-- An item of the content of a message. -/
def decodePart (item : Json F) : Except PyError (ContentPart F) := do
  let itemType ← item.getAttr "type"
  if Json.isText "text" itemType then
    return .text (← item.getItem "text")
  else if Json.isText "image_url" itemType then
    let urlData ← item.getItem "image_url"
    let url ← urlData.getItem "url"
    let detail ← urlData.getAttr "detail"
    return .image url (detail.getD (.str "auto"))
  else
    return .text (.str (py.str item))

/-- `_decode_content`. -/
def decodeContent : Json F → Except PyError (Content F)
  | .str text => return .plain text
  | raw => return .parts (← (← raw.iter).mapM (decodePart py))

/-- A message of a request. -/
def decodeMessage (message : Json F) : Except PyError (ChatMessage F) := do
  let role ← message.getItem "role"
  let content ← message.getItem "content"
  return ⟨role, ← decodeContent py content⟩

/-- The request of a `chat_completion`. -/
def decodeRequest (request : Json F) : Except PyError (ChatCompletionRequest F) := do
  let requestId ← request.getItem "request_id"
  let model ← request.getItem "model"
  let messages ← (← (← request.getItem "messages").iter).mapM (decodeMessage py)
  let maxTokens ← request.getItem "max_tokens"
  let temperature ← request.getItem "temperature"
  let topP ← request.getItem "top_p"
  let maxPromptTokens ← request.getItem "max_prompt_tokens"
  let maxCompletionTokens ← request.getItem "max_completion_tokens"
  let maxTotalTokensPerRequest ← request.getItem "max_total_tokens_per_request"
  let stop ← ((← request.getAttr "stop").getD (.arr [])).iter
  let stream ← request.getAttr "stream"
  return {
    requestId, model, messages, maxTokens, temperature, topP, maxPromptTokens
    maxCompletionTokens, maxTotalTokensPerRequest
    stop := stop.map py.str
    stream := stream.getD (.bool false) }

/-- `decode_command`, given the payload. -/
def decodePayload (payload : Json F) : Except PyError (Option (Command F)) := do
  let type ← payload.getAttr "type"
  if Json.isText "chat_completion" type then
    return some (.chat (← decodeRequest py (← payload.getItem "request")))
  else if Json.isText "cancel_request" type then
    return some (.cancel (← payload.getItem "request_id"))
  else if Json.isText "benchmark_reset" type then
    let requestId ← payload.getItem "request_id"
    let clearCache ← payload.getAttr "clear_cache"
    let resetCounters ← payload.getAttr "reset_counters"
    return some (.reset {
      requestId
      clearCache := (clearCache.getD (.bool true)).truthy py
      resetCounters := (resetCounters.getD (.bool true)).truthy py })
  else
    return none

/-- `json.loads(raw_line.decode("utf-8"))`. -/
def loadsLine (rawLine : Bytes) : Except PyError (Json F) :=
  match fromUtf8 rawLine with
  | some text => py.loads text
  | none => .error (.valueError "'utf-8' codec can't decode bytes")

/-- `decode_command`. -/
def decodeCommand (rawLine : Bytes) : Except PyError (Option (Command F)) := do
  decodePayload py (← loadsLine py rawLine)

/-! ## Commands as the gateway writes them -/

namespace Json

/-- A string. -/
def IsStr (value : Json F) : Prop := ∃ s, value = .str s

/-- An integer. -/
def IsInt (value : Json F) : Prop := ∃ n, value = .int n

/-- A number. -/
def IsNumber (value : Json F) : Prop := value.IsInt ∨ ∃ x, value = .float x

end Json

/-- A part has the types of its annotations. -/
def ContentPart.WellFormed : ContentPart F → Prop
  | .text t => t.IsStr
  | .image url detail => url.IsStr ∧ detail.IsStr

/-- The content of a message has the types of its annotations. -/
def Content.WellFormed : Content F → Prop
  | .plain _ => True
  | .parts ps => ∀ part ∈ ps, part.WellFormed

/-- A request has the types of its annotations. -/
structure ChatCompletionRequest.WellFormed (r : ChatCompletionRequest F) : Prop where
  requestId : r.requestId.IsStr
  model : r.model.IsStr
  roles : ∀ message ∈ r.messages, ∃ role ∈ ["system", "user", "assistant"],
    message.role = .str role
  contents : ∀ message ∈ r.messages, message.content.WellFormed
  maxTokens : r.maxTokens.IsInt
  temperature : r.temperature.IsNumber
  topP : r.topP.IsNumber
  maxPromptTokens : r.maxPromptTokens.IsInt
  maxCompletionTokens : r.maxCompletionTokens.IsInt
  maxTotalTokensPerRequest : r.maxTotalTokensPerRequest.IsInt
  stream : ∃ b, r.stream = .bool b

/-- A command has the types of its annotations. -/
def Command.WellFormed : Command F → Prop
  | .chat request => request.WellFormed
  | .cancel requestId => requestId.IsStr
  | .reset request => request.requestId.IsStr

theorem Command.WellFormed.isStr {command : Command F} (h : command.WellFormed) :
    command.requestId.IsStr := by
  cases command with
  | chat request => exact ChatCompletionRequest.WellFormed.requestId h
  | cancel requestId => exact h
  | reset request => exact h

/-! ## What a frame says -/

/-- The request id that a frame names. -/
def Json.namedId : Json F → Option (Json F)
  | .obj members =>
      if isText "chat_completion" (get? members "type") then
        match get? members "request" with
        | some (.obj request) => get? request "request_id"
        | _ => none
      else get? members "request_id"
  | _ => none

/-- A frame says that it is a benchmark reset. -/
def Json.isReset : Json F → Bool
  | .obj members => isText "benchmark_reset" (get? members "type")
  | _ => false

variable {py}

/-- Only a dictionary has items under names. -/
theorem Json.getItem_eq_ok {key : String} {value x : Json F} (h : value.getItem key = .ok x) :
    ∃ members, value = .obj members ∧ get? members key = some x := by
  cases value with
  | obj members =>
      simp only [getItem] at h
      split at h
      · rename_i y hy
        obtain rfl := Except.ok.inj h
        exact ⟨members, rfl, hy⟩
      · cases h
  | null | bool _ | int _ | float _ | str _ | arr _ => cases h

theorem Json.getAttr_eq_ok {key : String} {value : Json F} {x : Option (Json F)}
    (h : value.getAttr key = .ok x) : ∃ members, value = .obj members ∧ get? members key = x := by
  cases value with
  | obj members => exact ⟨members, rfl, Except.ok.inj h⟩
  | null | bool _ | int _ | float _ | str _ | arr _ => cases h

theorem decodeRequest_requestId {request : Json F} {r : ChatCompletionRequest F}
    (h : decodeRequest py request = .ok r) : request.getItem "request_id" = .ok r.requestId := by
  obtain ⟨requestId, hid, h⟩ := bind_eq_ok h
  rw [hid]
  refine congrArg _ ?_
  repeat
    obtain ⟨_, -, h⟩ := bind_eq_ok h
  obtain rfl := Except.ok.inj h
  rfl

theorem Json.isText_iff {text : String} {x : Option (Json F)} :
    isText text x = true ↔ x = some (.str text) := by
  rcases x with _ | _ | _ | _ | _ | s | _ | _ <;> simp [isText]

/-- A command has the request id and the type that its frame names. -/
theorem decodePayload_eq_ok {payload : Json F} {command : Command F}
    (h : decodePayload py payload = .ok (some command)) :
    payload.namedId = some command.requestId ∧ payload.isReset = command.isReset := by
  obtain ⟨type, htype, h⟩ := bind_eq_ok h
  obtain ⟨members, rfl, rfl⟩ := Json.getAttr_eq_ok htype
  simp only [Json.namedId, Json.isReset]
  split at h
  case isTrue hchat =>
      obtain ⟨request, hrequest, h⟩ := bind_eq_ok h
      obtain ⟨r, hr, h⟩ := bind_eq_ok h
      obtain rfl := Option.some.inj (Except.ok.inj h)
      obtain ⟨_, hmembers, hget⟩ := Json.getItem_eq_ok hrequest
      obtain rfl := Json.obj.inj hmembers
      obtain ⟨fields, rfl, hid⟩ := Json.getItem_eq_ok (decodeRequest_requestId hr)
      rw [if_pos hchat, hget, Json.isText_iff.mp hchat]
      exact ⟨hid, rfl⟩
  case isFalse hchat =>
      rw [if_neg hchat]
      split at h
      case isTrue hcancel =>
          obtain ⟨requestId, hid, h⟩ := bind_eq_ok h
          obtain rfl := Option.some.inj (Except.ok.inj h)
          obtain ⟨_, hmembers, hget⟩ := Json.getItem_eq_ok hid
          obtain rfl := Json.obj.inj hmembers
          rw [Json.isText_iff.mp hcancel]
          exact ⟨hget, rfl⟩
      case isFalse =>
          split at h
          case isTrue hreset =>
              obtain ⟨requestId, hid, h⟩ := bind_eq_ok h
              obtain ⟨clearCache, -, h⟩ := bind_eq_ok h
              obtain ⟨resetCounters, -, h⟩ := bind_eq_ok h
              obtain rfl := Option.some.inj (Except.ok.inj h)
              obtain ⟨_, hmembers, hget⟩ := Json.getItem_eq_ok hid
              obtain rfl := Json.obj.inj hmembers
              exact ⟨hget, hreset⟩
          case isFalse => cases Except.ok.inj h

/-! ## Python on JSON without fractions -/

/-- `json.loads`, of values without fractions. -/
def plainLoads (text : List Char) : Except PyError (Json Empty) :=
  match Json.parse .integers text with
  | some value => .ok value
  | none => .error (.valueError "Expecting value: line 1 column 1 (char 0)")

/-- Python on such values; frames are read as UTF-8. -/
def plainJson : PyJson Empty where
  loads := plainLoads
  loadsBytes bytes :=
    match fromUtf8 bytes with
    | some text => plainLoads text
    | none => .error (.valueError "'utf-8' codec can't decode bytes")
  str _ := ""
  isZero := nofun

/-- The bytes of an ASCII text, with the end of the line. -/
def asciiLine (text : String) : Bytes :=
  text.toList.map (fun c => UInt8.ofNat c.toNat) ++ [newline]

/-- The line of an ASCII text is read as the text. -/
theorem loadsLine_ascii {text : String} (h : text.toList.all fun c => c.toNat < 128) :
    loadsLine plainJson (asciiLine text) = plainLoads (text.toList ++ ['\n']) := by
  have hraw : asciiLine text =
      (text.toList ++ ['\n']).map fun c => UInt8.ofNat c.toNat := by
    rw [asciiLine, List.map_append]
    rfl
  have hascii : ∀ c ∈ text.toList ++ ['\n'], c.toNat < 128 := by
    intro c hc
    rcases List.mem_append.mp hc with hc | hc
    · simpa using List.all_eq_true.mp h c hc
    · obtain rfl := List.mem_singleton.mp hc
      decide
  rw [loadsLine, hraw, fromUtf8_ascii hascii]
  rfl

/-- The line of a value is read as the value. -/
theorem loadsLine_text {payload : Json Empty}
    (h : (payload.text .integers).all fun c => c.toNat < 128) :
    loadsLine plainJson (asciiLine (String.ofList (payload.text .integers))) = .ok payload := by
  have hparse : Json.parse .integers (payload.text .integers ++ ['\n']) = some payload :=
    Json.parse_text payload rfl
  rw [loadsLine_ascii (by rwa [String.toList_ofList]), String.toList_ofList, plainLoads, hparse]

end MlxRuntime
