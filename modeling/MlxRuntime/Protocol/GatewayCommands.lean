import MlxRuntime.Protocol.Commands

/-!
# Commands over the wire

The gateway writes its commands with `serde_json`, without gaps and without the fields that are
empty; the worker's own `encode_command` writes what `json.dumps` writes.  `decode_command`
reads both.

The floats of the gateway are of a type `R`, those of Python of a type `F`.  Between them is the
literal that `serde_json` prints; a float that is not finite is printed as `null`.

## Main definitions

* `GatewayCommand`, `encodeGatewayCommand` — the commands of the gateway, and their text.
* `GatewayCommand.received` — a command as the worker has it.
* `encodeCommand` — a request as Python writes it.
* `commands_survive_wire` — what is written is read.
-/

namespace MlxRuntime

/-! ## Commands of the gateway -/

namespace Gateway

/-- `MessageRole`. -/
inductive MessageRole
  | system
  | user
  | assistant
  deriving DecidableEq, Repr

/-- `ImageUrl`. -/
structure ImageUrl where
  url : String
  detail : Option String := none
  deriving DecidableEq, Repr

/-- `ContentPart`. -/
inductive ContentPart
  | text (text : String)
  | imageUrl (imageUrl : ImageUrl)
  deriving DecidableEq, Repr

/-- `MessageContent`. -/
inductive MessageContent
  | text (text : String)
  | parts (parts : List ContentPart)
  deriving DecidableEq, Repr

/-- `ChatMessage`. -/
structure ChatMessage where
  role : MessageRole
  content : MessageContent
  deriving DecidableEq, Repr

/-- `ChatCompletionRequest`; `R` is `f32`. -/
structure ChatCompletionRequest (R : Type) where
  requestId : String
  model : String
  messages : List ChatMessage
  maxTokens : UInt32
  temperature : R
  topP : R
  maxPromptTokens : UInt32
  maxCompletionTokens : UInt32
  maxTotalTokensPerRequest : UInt32
  stop : List String
  stream : Bool

end Gateway

/-- `GatewayCommand`. -/
inductive GatewayCommand (R : Type)
  | chatCompletion (request : Gateway.ChatCompletionRequest R)
  | cancelRequest (requestId : String)
  | benchmarkReset (requestId : String) (clearCache resetCounters : Bool)

variable {R F : Type}

namespace Gateway

/-- The name of a role, in snake case. -/
def MessageRole.name : MessageRole → String
  | .system => "system"
  | .user => "user"
  | .assistant => "assistant"

def ImageUrl.serialize (image : ImageUrl) : Json R :=
  .obj (("url", .str image.url) ::
    match image.detail with
    | some detail => [("detail", .str detail)]
    | none => [])

/-- Tagged with its type. -/
def ContentPart.serialize : ContentPart → Json R
  | .text s => .obj [("type", .str "text"), ("text", .str s)]
  | .imageUrl image => .obj [("type", .str "image_url"), ("image_url", image.serialize)]

/-- Not tagged. -/
def MessageContent.serialize : MessageContent → Json R
  | .text s => .str s
  | .parts items => .arr (items.map ContentPart.serialize)

def ChatMessage.serialize (message : ChatMessage) : Json R :=
  .obj [("role", .str message.role.name), ("content", message.content.serialize)]

/-- The stop strings are left out when there are none. -/
def ChatCompletionRequest.serialize (r : ChatCompletionRequest R) : Json R :=
  .obj ([("request_id", .str r.requestId), ("model", .str r.model),
    ("messages", .arr (r.messages.map ChatMessage.serialize)),
    ("max_tokens", .int r.maxTokens.toNat), ("temperature", .float r.temperature),
    ("top_p", .float r.topP), ("max_prompt_tokens", .int r.maxPromptTokens.toNat),
    ("max_completion_tokens", .int r.maxCompletionTokens.toNat),
    ("max_total_tokens_per_request", .int r.maxTotalTokensPerRequest.toNat)] ++
    (if r.stop = [] then [] else [("stop", .arr (r.stop.map .str))]) ++
    [("stream", .bool r.stream)])

end Gateway

/-- Tagged with its type. -/
def GatewayCommand.serialize : GatewayCommand R → Json R
  | .chatCompletion request =>
      .obj [("type", .str "chat_completion"), ("request", request.serialize)]
  | .cancelRequest requestId =>
      .obj [("type", .str "cancel_request"), ("request_id", .str requestId)]
  | .benchmarkReset requestId clearCache resetCounters =>
      .obj [("type", .str "benchmark_reset"), ("request_id", .str requestId),
        ("clear_cache", .bool clearCache), ("reset_counters", .bool resetCounters)]

/-- How `serde_json` prints floats: a literal with a fraction or an exponent, that Python reads,
or `null` for one that is not finite. -/
structure FloatPrinter (R : Type) (format : Json.FloatFormat F) where
  literal : R → Option (List Char)
  chars : ∀ x, ∀ text ∈ literal x, text.all Json.isNumberChar
  start : ∀ x, ∀ text ∈ literal x, ∃ c cs, text = c :: cs ∧ Json.startsNumber c
  notInt : ∀ x, ∀ text ∈ literal x, Json.intOf text = none
  reads : ∀ x, ∀ text ∈ literal x, (format.read text).isSome

namespace FloatPrinter

variable {format : Json.FloatFormat F} (floats : FloatPrinter R format)

/-- The text of a float. -/
def print (x : R) : List Char := (floats.literal x).getD ['n', 'u', 'l', 'l']

/-- The value of that text. -/
def printed (x : R) : Json F :=
  match (floats.literal x).bind format.read with
  | some y => .float y
  | none => .null

end FloatPrinter

/-- `encode_gateway_command`. -/
def encodeGatewayCommand {format : Json.FloatFormat F} (floats : FloatPrinter R format)
    (command : GatewayCommand R) : List Char :=
  command.serialize.write .compact floats.print

/-! ## Commands of Python -/

/-- A part, in `_encode_content`. -/
def encodePart : ContentPart F → Json F
  | .text text => .obj [("type", .str "text"), ("text", text)]
  | .image url detail =>
      .obj [("type", .str "image_url"), ("image_url", .obj [("url", url), ("detail", detail)])]

/-- `_encode_content`. -/
def encodeContent : Content F → Json F
  | .plain text => .str text
  | .parts parts => .arr (parts.map encodePart)

/-- A message of a request. -/
def encodeMessage (message : ChatMessage F) : Json F :=
  .obj [("role", message.role), ("content", encodeContent message.content)]

/-- The payload of `encode_command`. -/
def encodePayload (r : ChatCompletionRequest F) : Json F :=
  .obj [("type", .str "chat_completion"), ("request", .obj [
    ("request_id", r.requestId), ("model", r.model),
    ("messages", .arr (r.messages.map encodeMessage)), ("max_tokens", r.maxTokens),
    ("temperature", r.temperature), ("top_p", r.topP), ("max_prompt_tokens", r.maxPromptTokens),
    ("max_completion_tokens", r.maxCompletionTokens),
    ("max_total_tokens_per_request", r.maxTotalTokensPerRequest),
    ("stop", .arr (r.stop.map .str)), ("stream", r.stream)])]

/-- `encode_command`. -/
def encodeCommand (format : Json.FloatFormat F) (r : ChatCompletionRequest F) : Bytes :=
  toUtf8 ((encodePayload r).text format ++ ['\n'])

/-! ## Commands as they arrive -/

namespace Gateway

/-- A part as the worker has it; the detail of an image is `"auto"` when there is none. -/
def ContentPart.received : ContentPart → MlxRuntime.ContentPart F
  | .text s => .text (.str s)
  | .imageUrl image => .image (.str image.url) (.str (image.detail.getD "auto"))

def MessageContent.received : MessageContent → Content F
  | .text s => .plain s
  | .parts items => .parts (items.map ContentPart.received)

def ChatMessage.received (message : ChatMessage) : MlxRuntime.ChatMessage F where
  role := .str message.role.name
  content := message.content.received

def ChatCompletionRequest.received {format : Json.FloatFormat F} (floats : FloatPrinter R format)
    (r : ChatCompletionRequest R) : MlxRuntime.ChatCompletionRequest F where
  requestId := .str r.requestId
  model := .str r.model
  messages := r.messages.map ChatMessage.received
  maxTokens := .int r.maxTokens.toNat
  temperature := floats.printed r.temperature
  topP := floats.printed r.topP
  maxPromptTokens := .int r.maxPromptTokens.toNat
  maxCompletionTokens := .int r.maxCompletionTokens.toNat
  maxTotalTokensPerRequest := .int r.maxTotalTokensPerRequest.toNat
  stop := r.stop
  stream := .bool r.stream

end Gateway

/-- A command as the worker has it. -/
def GatewayCommand.received {format : Json.FloatFormat F} (floats : FloatPrinter R format) :
    GatewayCommand R → Command F
  | .chatCompletion request => .chat (request.received floats)
  | .cancelRequest requestId => .cancel (.str requestId)
  | .benchmarkReset requestId clearCache resetCounters =>
      .reset ⟨.str requestId, clearCache, resetCounters⟩

/-- What is documented of Python: `json.loads` reads the texts of values that do not nest too deep
for it, and `str` of a string is that string. -/
structure PyJson.Documented (py : PyJson F) (format : Json.FloatFormat F) : Prop where
  loads : ∀ {text : List Char} {j : Json F}, Json.parse format text = some j → j.depth ≤ 64 →
    py.loads text = .ok j
  str : ∀ s, py.str (.str s) = s

/-! ## Decoding -/

variable {py : PyJson F} {format : Json.FloatFormat F}

theorem Json.getItem_obj {members : List (String × Json F)} {key : String} {value : Json F}
    (h : get? members key = some value) : (obj members).getItem key = .ok value := by
  rw [getItem, h]

/-- A request is read from the members of its object. -/
theorem decodeRequest_obj {members : List (String × Json F)} {r : ChatCompletionRequest F}
    {messages stop : List (Json F)}
    (hid : Json.get? members "request_id" = some r.requestId)
    (hmodel : Json.get? members "model" = some r.model)
    (hmessages : Json.get? members "messages" = some (.arr messages))
    (hdecode : messages.mapM (decodeMessage py) = .ok r.messages)
    (hmax : Json.get? members "max_tokens" = some r.maxTokens)
    (htemperature : Json.get? members "temperature" = some r.temperature)
    (htop : Json.get? members "top_p" = some r.topP)
    (hprompt : Json.get? members "max_prompt_tokens" = some r.maxPromptTokens)
    (hcompletion : Json.get? members "max_completion_tokens" = some r.maxCompletionTokens)
    (htotal : Json.get? members "max_total_tokens_per_request" = some r.maxTotalTokensPerRequest)
    (hstop : (Json.get? members "stop").getD (.arr []) = .arr stop)
    (hstr : stop.map py.str = r.stop)
    (hstream : (Json.get? members "stream").getD (.bool false) = r.stream) :
    decodeRequest py (.obj members) = .ok r := by
  rw [decodeRequest, Json.getItem_obj hid, ok_bind, Json.getItem_obj hmodel, ok_bind,
    Json.getItem_obj hmessages, ok_bind, Json.iter, ok_bind, hdecode, ok_bind,
    Json.getItem_obj hmax, ok_bind, Json.getItem_obj htemperature, ok_bind, Json.getItem_obj htop,
    ok_bind, Json.getItem_obj hprompt, ok_bind, Json.getItem_obj hcompletion, ok_bind,
    Json.getItem_obj htotal, ok_bind, Json.getAttr, ok_bind, hstop, Json.iter, ok_bind,
    Json.getAttr, ok_bind, hstr, hstream]
  rfl

theorem decodeCommand_toUtf8 (hpy : py.Documented format) {text : List Char} {j : Json F}
    (hparse : Json.parse format text = some j) (hdepth : j.depth ≤ 64) :
    decodeCommand py (toUtf8 text) = decodePayload py j := by
  rw [decodeCommand, loadsLine, fromUtf8_toUtf8]
  simp only [hpy.loads hparse hdepth, ok_bind]

/-! ## What the gateway writes -/

namespace Gateway

theorem bindFloat_imageUrl (val : R → Json F) (image : ImageUrl) :
    image.serialize.bindFloat val = image.serialize := by
  obtain ⟨url, _ | detail⟩ := image <;> rfl

theorem bindFloat_part (val : R → Json F) (part : ContentPart) :
    part.serialize.bindFloat val = part.serialize := by
  cases part with
  | text s => rfl
  | imageUrl image =>
      rw [ContentPart.serialize, ContentPart.serialize, ← bindFloat_imageUrl val image]
      rfl

theorem bindFloat_message (val : R → Json F) (message : ChatMessage) :
    message.serialize.bindFloat val = message.serialize := by
  have hcontent : message.content.serialize.bindFloat val = message.content.serialize := by
    cases message.content with
    | text s => rfl
    | parts items =>
        rw [MessageContent.serialize, MessageContent.serialize, Json.bindFloat,
          Json.bindItems_eq_map, List.map_map]
        exact congrArg _ (List.map_congr_left fun part _ => bindFloat_part val part)
  rw [ChatMessage.serialize, ChatMessage.serialize, ← hcontent]
  rfl

theorem decodePart_serialize (py : PyJson F) (part : ContentPart) :
    decodePart py part.serialize = .ok part.received := by
  cases part with
  | text s => rfl
  | imageUrl image => obtain ⟨url, _ | detail⟩ := image <;> rfl

theorem decodeMessage_serialize (py : PyJson F) (message : ChatMessage) :
    decodeMessage py message.serialize = .ok message.received := by
  obtain ⟨role, content⟩ := message
  cases content with
  | text s => rfl
  | parts items =>
      have hparts := mapM_ok items fun part _ => decodePart_serialize py part
      have hcontent : decodeContent py (MessageContent.parts items).serialize =
          .ok (MessageContent.parts items).received := by
        rw [MessageContent.serialize, decodeContent, Json.iter, ok_bind, hparts]
        · rfl
        · simp
      show (decodeContent py (MessageContent.parts items).serialize >>= _) = _
      rw [hcontent]
      rfl

theorem decodeRequest_serialize (hpy : py.Documented format) (floats : FloatPrinter R format)
    (r : ChatCompletionRequest R) :
    decodeRequest py (r.serialize.bindFloat floats.printed) = .ok (r.received floats) := by
  have hmessages : Json.bindItems floats.printed (r.messages.map ChatMessage.serialize) =
      r.messages.map ChatMessage.serialize := by
    rw [Json.bindItems_eq_map, List.map_map]
    exact List.map_congr_left fun message _ => bindFloat_message floats.printed message
  have hdecode := mapM_ok r.messages fun message _ => decodeMessage_serialize py message
  have hstops : Json.bindItems floats.printed (r.stop.map .str) = r.stop.map .str := by
    rw [Json.bindItems_eq_map, List.map_map]
    rfl
  have hstr : (r.stop.map .str).map py.str = r.stop := by
    rw [List.map_map]
    exact (List.map_congr_left fun s _ => hpy.str s).trans (List.map_id _)
  rw [← hmessages] at hdecode
  by_cases hstop : r.stop = []
  · rw [ChatCompletionRequest.serialize, if_pos hstop]
    exact decodeRequest_obj rfl rfl rfl hdecode rfl rfl rfl rfl rfl rfl rfl hstop.symm rfl
  · rw [ChatCompletionRequest.serialize, if_neg hstop]
    rw [← hstops] at hstr
    exact decodeRequest_obj rfl rfl rfl hdecode rfl rfl rfl rfl rfl rfl rfl hstr rfl

end Gateway

theorem decodePayload_serialize (hpy : py.Documented format) (floats : FloatPrinter R format)
    (command : GatewayCommand R) : decodePayload py (command.serialize.bindFloat floats.printed) =
      .ok (some (command.received floats)) := by
  cases command with
  | chatCompletion request =>
      show (decodeRequest py (request.serialize.bindFloat floats.printed) >>= _) = _
      rw [Gateway.decodeRequest_serialize hpy floats request]
      rfl
  | cancelRequest requestId => rfl
  | benchmarkReset requestId clearCache resetCounters => rfl

/-! ## How deep commands nest -/

namespace Gateway

theorem depth_part (part : ContentPart) : (part.serialize : Json R).depth ≤ 2 := by
  rcases part with s | ⟨url, _ | detail⟩ <;> exact Nat.le_of_ble_eq_true rfl

theorem depth_message (message : ChatMessage) : (message.serialize : Json R).depth ≤ 4 := by
  have hcontent : (message.content.serialize : Json R).depth ≤ 3 := by
    cases message.content with
    | text s => exact Nat.zero_le 3
    | parts items =>
        refine Nat.succ_le_succ (Json.depthItems_le_iff.mpr fun x hx => ?_)
        obtain ⟨part, -, rfl⟩ := List.mem_map.mp hx
        exact depth_part part
  simp only [ChatMessage.serialize, Json.depth, Json.depthMembers, Json.depthMember]
  omega

theorem depth_request (r : ChatCompletionRequest R) : r.serialize.depth ≤ 6 := by
  have hmessages : Json.depthItems (r.messages.map (ChatMessage.serialize (R := R))) ≤ 4 := by
    refine Json.depthItems_le_iff.mpr fun x hx => ?_
    obtain ⟨message, -, rfl⟩ := List.mem_map.mp hx
    exact depth_message message
  have hstops : Json.depthItems (r.stop.map (Json.str (F := R))) ≤ 4 := by
    refine Json.depthItems_le_iff.mpr fun x hx => ?_
    obtain ⟨s, -, rfl⟩ := List.mem_map.mp hx
    exact Nat.zero_le 4
  by_cases hstop : r.stop = []
  · simp only [ChatCompletionRequest.serialize, if_pos hstop, List.append_nil, List.cons_append,
      List.nil_append, Json.depth, Json.depthMembers, Json.depthMember]
    omega
  · simp only [ChatCompletionRequest.serialize, if_neg hstop, List.cons_append, List.nil_append,
      Json.depth, Json.depthMembers, Json.depthMember]
    omega

end Gateway

theorem GatewayCommand.depth_serialize (command : GatewayCommand R) :
    command.serialize.depth ≤ 64 := by
  cases command with
  | chatCompletion request =>
      have hrequest := Gateway.depth_request request
      simp only [serialize, Json.depth, Json.depthMembers, Json.depthMember]
      omega
  | cancelRequest requestId => exact Nat.le_of_ble_eq_true rfl
  | benchmarkReset requestId clearCache resetCounters => exact Nat.le_of_ble_eq_true rfl

theorem FloatPrinter.depth_printed (floats : FloatPrinter R format) (x : R) :
    (floats.printed x).depth = 0 := by
  rw [printed]
  split <;> rfl

theorem FloatPrinter.prints (floats : FloatPrinter R format) :
    Json.Prints format floats.print floats.printed where
  head x := by
    rw [print]
    cases hx : floats.literal x with
    | none => exact ⟨'n', _, rfl, rfl, by decide⟩
    | some text => exact Json.starts_value (floats.start x text hx)
  read x n rest hn hrest := by
    rw [print] at hn ⊢
    rw [printed]
    cases hx : floats.literal x with
    | none =>
        rw [hx] at hn
        obtain ⟨m, rfl⟩ := Nat.exists_eq_add_of_le' (Nat.le_trans (Nat.succ_pos _) hn)
        rw [Option.getD_none, Json.value]
        rfl
    | some text =>
        rw [hx, Option.getD_some] at hn
        obtain ⟨y, hy⟩ := Option.isSome_iff_exists.mp (floats.reads x text hx)
        rw [Option.getD_some, Option.bind_some, hy]
        refine Json.value_of_number (floats.start x text hx) hn ?_
        obtain ⟨htake, hdrop⟩ := Json.takeWhile_number (floats.chars x text hx) hrest
        rw [Json.number, htake, hdrop, floats.notInt x text hx]
        dsimp only
        rw [hy]
        rfl

/-- **What the gateway writes is what the worker reads.** -/
theorem decodeCommand_encodeGatewayCommand (hpy : py.Documented format)
    (floats : FloatPrinter R format) (command : GatewayCommand R) :
    decodeCommand py (toUtf8 (encodeGatewayCommand floats command)) =
      .ok (some (command.received floats)) := by
  have hparse : Json.parse format (command.serialize.write .compact floats.print ++ []) = _ :=
    Json.parse_write .compact floats.prints command.serialize rfl
  rw [List.append_nil] at hparse
  rw [encodeGatewayCommand, decodeCommand_toUtf8 hpy hparse, decodePayload_serialize hpy]
  rw [Json.depth_bindFloat floats.depth_printed]
  exact command.depth_serialize

/-! ## What Python writes -/

theorem decodePart_encodePart (py : PyJson F) (part : ContentPart F) :
    decodePart py (encodePart part) = .ok part := by
  cases part <;> rfl

theorem decodeMessage_encodeMessage (py : PyJson F) (message : ChatMessage F) :
    decodeMessage py (encodeMessage message) = .ok message := by
  obtain ⟨role, content⟩ := message
  cases content with
  | plain text => rfl
  | parts items =>
      have hparts := mapM_ok items fun part _ => decodePart_encodePart py part
      rw [List.map_id' items] at hparts
      have hcontent : decodeContent py (encodeContent (.parts items)) = .ok (.parts items) := by
        rw [encodeContent, decodeContent, Json.iter, ok_bind, hparts]
        · rfl
        · simp
      show (decodeContent py (encodeContent (.parts items)) >>= _) = _
      rw [hcontent]
      rfl

theorem decodePayload_encodePayload (hpy : py.Documented format) (r : ChatCompletionRequest F) :
    decodePayload py (encodePayload r) = .ok (some (.chat r)) := by
  have hmessages := mapM_ok r.messages fun message _ =>
    decodeMessage_encodeMessage py message
  rw [List.map_id' r.messages] at hmessages
  have hstr : (r.stop.map .str).map py.str = r.stop := by
    rw [List.map_map]
    exact (List.map_congr_left fun s _ => hpy.str s).trans (List.map_id _)
  show (decodeRequest py _ >>= _) = _
  rw [decodeRequest_obj rfl rfl rfl hmessages rfl rfl rfl rfl rfl rfl rfl hstr rfl]
  rfl

theorem Json.IsNumber.depth {value : Json F} (h : value.IsNumber) : value.depth = 0 := by
  rcases h with ⟨n, rfl⟩ | ⟨x, rfl⟩ <;> rfl

theorem Json.IsStr.depth {value : Json F} (h : value.IsStr) : value.depth = 0 := by
  obtain ⟨s, rfl⟩ := h
  rfl

theorem depth_encodePart {part : ContentPart F} (h : part.WellFormed) :
    (encodePart part).depth ≤ 2 := by
  cases part with
  | text text =>
      have htext := Json.IsStr.depth h
      simp only [encodePart, Json.depth, Json.depthMembers, Json.depthMember]
      omega
  | image url detail =>
      have hurl := Json.IsStr.depth h.1
      have hdetail := Json.IsStr.depth h.2
      simp only [encodePart, Json.depth, Json.depthMembers, Json.depthMember]
      omega

theorem depth_encodeContent {content : Content F} (h : content.WellFormed) :
    (encodeContent content).depth ≤ 3 := by
  cases content with
  | plain text => exact Nat.zero_le 3
  | parts items =>
      refine Nat.succ_le_succ (Json.depthItems_le_iff.mpr fun x hx => ?_)
      obtain ⟨part, hpart, rfl⟩ := List.mem_map.mp hx
      exact depth_encodePart (h part hpart)

theorem depth_encodePayload {r : ChatCompletionRequest F} (h : r.WellFormed) :
    (encodePayload r).depth ≤ 64 := by
  have hmessages : Json.depthItems (r.messages.map encodeMessage) ≤ 4 := by
    refine Json.depthItems_le_iff.mpr fun x hx => ?_
    obtain ⟨message, hmessage, rfl⟩ := List.mem_map.mp hx
    obtain ⟨role, -, hrole⟩ := h.roles message hmessage
    have hcontent := depth_encodeContent (h.contents message hmessage)
    simp only [encodeMessage, hrole, Json.depth, Json.depthMembers, Json.depthMember]
    omega
  have hstops : Json.depthItems (r.stop.map (Json.str (F := F))) ≤ 4 := by
    refine Json.depthItems_le_iff.mpr fun x hx => ?_
    obtain ⟨s, -, rfl⟩ := List.mem_map.mp hx
    exact Nat.zero_le 4
  have hid := h.requestId.depth
  have hmodel := h.model.depth
  have hmax := Json.IsNumber.depth (.inl h.maxTokens)
  have htemperature := h.temperature.depth
  have htop := h.topP.depth
  have hprompt := Json.IsNumber.depth (.inl h.maxPromptTokens)
  have hcompletion := Json.IsNumber.depth (.inl h.maxCompletionTokens)
  have htotal := Json.IsNumber.depth (.inl h.maxTotalTokensPerRequest)
  obtain ⟨b, hstream⟩ := h.stream
  simp only [encodePayload, hstream, Json.depth, Json.depthMembers, Json.depthMember]
  omega

/-- What Python writes is what the worker reads. -/
theorem decodeCommand_encodeCommand (hpy : py.Documented format) {r : ChatCompletionRequest F}
    (h : r.WellFormed) : decodeCommand py (encodeCommand format r) = .ok (some (.chat r)) := by
  have hparse : Json.parse format ((encodePayload r).text format ++ ['\n']) =
      some (encodePayload r) := Json.parse_text _ rfl
  rw [encodeCommand, decodeCommand_toUtf8 hpy hparse (depth_encodePayload h),
    decodePayload_encodePayload hpy]

theorem Gateway.MessageContent.wellFormed_received (content : MessageContent) :
    (content.received : Content F).WellFormed := by
  cases content with
  | text s => trivial
  | parts items =>
      intro received hreceived
      obtain ⟨part, -, rfl⟩ := List.mem_map.mp hreceived
      cases part with
      | text s => exact ⟨s, rfl⟩
      | imageUrl image => exact ⟨⟨_, rfl⟩, ⟨_, rfl⟩⟩

/-- A request with finite floats has the types of its annotations when it arrives. -/
theorem Gateway.ChatCompletionRequest.wellFormed_received {floats : FloatPrinter R format}
    {r : ChatCompletionRequest R} (htemperature : (floats.printed r.temperature).IsNumber)
    (htop : (floats.printed r.topP).IsNumber) : (r.received floats).WellFormed where
  requestId := ⟨_, rfl⟩
  model := ⟨_, rfl⟩
  roles := by
    intro message hmessage
    obtain ⟨m, -, rfl⟩ := List.mem_map.mp hmessage
    refine ⟨m.role.name, ?_, rfl⟩
    cases m.role <;> decide
  contents := by
    intro message hmessage
    obtain ⟨m, -, rfl⟩ := List.mem_map.mp hmessage
    exact m.content.wellFormed_received
  maxTokens := ⟨_, rfl⟩
  temperature := htemperature
  topP := htop
  maxPromptTokens := ⟨_, rfl⟩
  maxCompletionTokens := ⟨_, rfl⟩
  maxTotalTokensPerRequest := ⟨_, rfl⟩
  stream := ⟨_, rfl⟩

/-! ## Whole floats -/

theorem intOf_point (n : ℕ) : Json.intOf (Json.textNat n ++ ['.', '0']) = none := by
  obtain ⟨c, cs, heq, hc⟩ := Json.head_textNat n
  have hnat : Json.natOf (c :: (cs ++ ['.', '0'])) = none := by
    rw [Json.natOf, if_neg, if_neg]
    · rintro ⟨-, -, hall⟩
      have hpoint := List.all_eq_true.mp hall '.' (by simp)
      cases hpoint
    · simp
  rw [heq, List.cons_append, Json.intOf]
  · rw [hnat]
    rfl
  · rintro ds hcons
    rw [(List.cons.inj hcons).1] at hc
    cases hc

theorem read_point (n : ℕ) :
    ((Json.textNat n ++ ['.', '0']).take ((Json.textNat n ++ ['.', '0']).length - 2)) =
      Json.textNat n := by
  rw [List.length_append, List.length_cons, List.length_singleton, Nat.add_sub_cancel,
    List.take_left]

/-- Floats without a fraction, printed with one. -/
def wholeFloats : Json.FloatFormat ℕ where
  repr n := Json.textNat n ++ ['.', '0']
  read text := if ['.', '0'] <:+ text then Json.natOf (text.take (text.length - 2)) else none
  repr_chars n := by
    rw [List.all_append, Bool.and_eq_true]
    refine ⟨?_, rfl⟩
    have hint := Json.isNumberChar_textInt (.ofNat n)
    exact hint
  repr_start n := by
    obtain ⟨c, cs, heq, hc⟩ := Json.head_textNat n
    exact ⟨c, cs ++ ['.', '0'], by rw [heq, List.cons_append], by simp [Json.startsNumber, hc]⟩
  intOf_repr := intOf_point
  read_repr n := by rw [if_pos (List.suffix_append _ _), read_point, Json.natOf_textNat]

/-- Both languages print them so. -/
def wholePrinter : FloatPrinter ℕ wholeFloats where
  literal n := some (wholeFloats.repr n)
  chars n text h := by
    obtain rfl := Option.some.inj h
    exact wholeFloats.repr_chars n
  start n text h := by
    obtain rfl := Option.some.inj h
    exact wholeFloats.repr_start n
  notInt n text h := by
    obtain rfl := Option.some.inj h
    exact wholeFloats.intOf_repr n
  reads n text h := by
    obtain rfl := Option.some.inj h
    rw [wholeFloats.read_repr]
    rfl

/-- `json.loads`, of values with such floats. -/
def wholeLoads (text : List Char) : Except PyError (Json ℕ) :=
  match Json.parse wholeFloats text with
  | some value => .ok value
  | none => .error (.valueError "Expecting value: line 1 column 1 (char 0)")

/-- Python on such values. -/
def wholeJson : PyJson ℕ where
  loads := wholeLoads
  loadsBytes bytes :=
    match fromUtf8 bytes with
    | some text => wholeLoads text
    | none => .error (.valueError "'utf-8' codec can't decode bytes")
  str
    | .str s => s
    | _ => ""
  isZero := (· = 0)

theorem wholeJson_documented : wholeJson.Documented wholeFloats where
  loads := by
    intro text j hparse _
    show wholeLoads text = _
    rw [wholeLoads, hparse]
  str _ := rfl

/-- A request with a picture. -/
def pictureRequest : Gateway.ChatCompletionRequest ℕ where
  requestId := "r1"
  model := "m"
  messages := [⟨.system, .text "kürz"⟩,
    ⟨.user, .parts [.text "what is this?", .imageUrl { url := "file:///a.png" }]⟩]
  maxTokens := 16
  temperature := 1
  topP := 1
  maxPromptTokens := 4096
  maxCompletionTokens := 512
  maxTotalTokensPerRequest := 4608
  stop := []
  stream := true

end MlxRuntime
