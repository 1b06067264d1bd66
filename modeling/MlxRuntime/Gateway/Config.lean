import MlxRuntime.Lib.Except
import MlxRuntime.Lib.Json
import MlxRuntime.Lib.Lines
import MlxRuntime.Protocol.Status

/-!
# The configuration of an instance

`render_runtime_config` writes the configuration a managed instance is started with, and
`RuntimeConfig::apply_contents` reads it, line by line: sections, and keys with a string, a number
or a Boolean.  A key of the configuration whose value is of another kind is passed over.

`f32` is a parameter, with what is documented of its printing and its reading.

## Main definitions

* `RuntimeConfig`, `RuntimeConfig.render` — the configuration, and its text.
* `Field`, `fields` — its keys.
* `RuntimeConfig.applyLine`, `RuntimeConfig.applyContents` — the reader.
-/

namespace MlxRuntime

/-- `f32`: a number that is finite is printed as a decimal without an exponent, which is read as
that number. -/
structure FloatText (R : Type) where
  Finite : R → Prop
  /-- `Display`. -/
  display : R → List Char
  /-- `FromStr`. -/
  fromStr : List Char → Option R
  fromStr_display : ∀ x, Finite x → fromStr (display x) = some x
  display_ne_nil : ∀ x, Finite x → display x ≠ []
  display_chars : ∀ x, Finite x → ∀ c ∈ display x, c.isDigit ∨ c = '-' ∨ c = '.'
  /-- `0.7`. -/
  seven : R
  /-- `0.9`. -/
  nine : R
  display_seven : display seven = ['0', '.', '7']
  display_nine : display nine = ['0', '.', '9']
  /-- No word is a number. -/
  fromStr_true : fromStr "true".toList = none
  fromStr_false : fromStr "false".toList = none

/-- `BackendKind`. -/
inductive BackendKind
  | v1
  | nativeMlx
  deriving DecidableEq, Repr

def BackendKind.asStr : BackendKind → String
  | .v1 => "v1"
  | .nativeMlx => "native-mlx"

/-- An `io::Error` of the kind `InvalidData`. -/
structure InvalidData where
  message : String
  deriving DecidableEq, Repr

def BackendKind.parse (raw : String) : Except InvalidData BackendKind :=
  if raw = "v1" then .ok .v1
  else if raw = "native-mlx" then .ok .nativeMlx
  else .error ⟨"unsupported worker.backend: " ++ raw⟩

/-- `ServerConfig`. -/
structure ServerConfig where
  host : String := "127.0.0.1"
  port : UInt16 := 8000
  deriving DecidableEq

/-- `WorkerConfig`. -/
structure WorkerConfig where
  python : String := "python/.venv/bin/python"
  module : String := "mlx_worker.main"
  backend : BackendKind := .v1
  model : String := "mlx-community/Qwen2.5-7B-Instruct-4bit"
  vlmModel : Option String := none
  ipcPath : String := "/tmp/mlx-runtime.sock"
  deriving DecidableEq

/-- `GenerationConfig`. -/
structure GenerationConfig (R : Type) where
  temperature : R
  topP : R
  maxTokens : UInt32 := 512
  deriving DecidableEq

/-- `RequestLimits`; `usize` has 64 bits. -/
structure RequestLimits where
  maxPendingRequests : UInt64 := 64
  maxActiveRequests : UInt64 := 16
  maxPromptTokens : UInt64 := 32768
  maxCompletionTokens : UInt64 := 4096
  maxTotalTokensPerRequest : UInt64 := 65536
  requestTimeoutSeconds : UInt64 := 300
  maxVlmImages : UInt64 := 5
  deriving DecidableEq

/-- `TelemetryConfig`. -/
structure TelemetryConfig where
  enablePrometheus : Bool := true
  metricsPath : String := "/metrics"
  deriving DecidableEq

/-- `RuntimeConfig`. -/
structure RuntimeConfig (R : Type) where
  server : ServerConfig := {}
  worker : WorkerConfig := {}
  generation : GenerationConfig R
  limits : RequestLimits := {}
  telemetry : TelemetryConfig := {}
  deriving DecidableEq

variable {R : Type}

/-- `RuntimeConfig::default`. -/
def RuntimeConfig.default (floats : FloatText R) : RuntimeConfig R where
  generation := { temperature := floats.seven, topP := floats.nine }

/-! ## Rendering -/

/-- `char::is_control`: the Unicode category `Cc`. -/
def isControl (c : Char) : Bool := c.toNat < 0x20 || (0x7f ≤ c.toNat && c.toNat < 0xa0)

/-- An `InstanceError` of the kind `Conflict`. -/
structure Conflict where
  message : String
  deriving DecidableEq, Repr

/-- A character in `toml_string`. -/
def tomlChar (c : Char) : Except Conflict (List Char) :=
  if c = '\\' then .ok ['\\', '\\']
  else if c = '"' then .ok ['\\', '"']
  else if c = '\n' then .ok ['\\', 'n']
  else if c = '\r' then .ok ['\\', 'r']
  else if c = '\t' then .ok ['\\', 't']
  else if isControl c then .error ⟨"configuration values cannot contain control characters"⟩
  else .ok [c]

/-- `toml_string`. -/
def tomlString (value : String) : Except Conflict (List Char) := do
  let escaped ← value.toList.mapM tomlChar
  return '"' :: (escaped.flatten ++ ['"'])

/-- A key and its value. -/
def entry (key : String) (value : List Char) : List Char := key.toList ++ [' ', '=', ' '] ++ value

/-- An unsigned integer. -/
def decimal (n : ℕ) : List Char := Json.textNat n

def boolText : Bool → List Char
  | true => "true".toList
  | false => "false".toList

namespace RuntimeConfig

/-- The lines of `render_runtime_config`. -/
def renderLines (floats : FloatText R) (config : RuntimeConfig R) :
    Except Conflict (List (List Char)) := do
  let host ← tomlString config.server.host
  let python ← tomlString config.worker.python
  let module ← tomlString config.worker.module
  let backend ← tomlString config.worker.backend.asStr
  let model ← tomlString config.worker.model
  let vlmModel ← config.worker.vlmModel.mapM tomlString
  let ipcPath ← tomlString config.worker.ipcPath
  let metricsPath ← tomlString config.telemetry.metricsPath
  return [
    "[server]".toList,
    entry "host" host,
    entry "port" (decimal config.server.port.toNat),
    [],
    "[worker]".toList,
    entry "python" python,
    entry "module" module,
    entry "backend" backend,
    entry "model" model] ++
    vlmModel.toList.map (entry "vlm_model") ++ [
    entry "ipc_path" ipcPath,
    [],
    "[generation]".toList,
    entry "temperature" (floats.display config.generation.temperature),
    entry "top_p" (floats.display config.generation.topP),
    entry "max_tokens" (decimal config.generation.maxTokens.toNat),
    [],
    "[limits]".toList,
    entry "max_pending_requests" (decimal config.limits.maxPendingRequests.toNat),
    entry "max_active_requests" (decimal config.limits.maxActiveRequests.toNat),
    entry "max_prompt_tokens" (decimal config.limits.maxPromptTokens.toNat),
    entry "max_completion_tokens" (decimal config.limits.maxCompletionTokens.toNat),
    entry "max_total_tokens_per_request" (decimal config.limits.maxTotalTokensPerRequest.toNat),
    entry "request_timeout_seconds" (decimal config.limits.requestTimeoutSeconds.toNat),
    entry "max_vlm_images" (decimal config.limits.maxVlmImages.toNat),
    [],
    "[telemetry]".toList,
    entry "enable_prometheus" (boolText config.telemetry.enablePrometheus),
    entry "metrics_path" metricsPath]

/-- `render_runtime_config`. -/
def render (floats : FloatText R) (config : RuntimeConfig R) : Except Conflict (List Char) := do
  let lines ← renderLines floats config
  return lines.flatMap (· ++ ['\n'])

end RuntimeConfig

/-! ## Reading -/

/-- `strip_comment`, given whether a string is open, and whether a backslash came before. -/
def stripComment (quoted escaped : Bool) : List Char → List Char
  | [] => []
  | c :: cs =>
      if escaped then c :: stripComment quoted false cs
      else if c = '\\' ∧ quoted then c :: stripComment quoted true cs
      else if c = '"' then c :: stripComment (!quoted) false cs
      else if c = '#' ∧ !quoted then []
      else c :: stripComment quoted false cs

/-- `str::strip_suffix`, of a character. -/
def stripSuffix (c : Char) (text : List Char) : Option (List Char) :=
  if text.getLast? = some c then some text.dropLast else none

/-- `str::strip_prefix`, of a character. -/
def stripPrefix (c : Char) : List Char → Option (List Char)
  | [] => none
  | d :: rest => if d = c then some rest else none

/-- `parse_section`. -/
def parseSection (line : List Char) : Option (List Char) := do
  let line ← stripPrefix '[' line
  let line ← stripSuffix ']' line
  return trim line

/-- `Value`. -/
inductive ConfigValue (R : Type)
  | string (value : String)
  | integer (value : ℤ)
  | float (value : R)
  | bool (value : Bool)
  deriving DecidableEq

/-- What a backslash and this character stand for. -/
def unescapeToml (c : Char) : Option Char :=
  if c = '\\' then some '\\'
  else if c = '"' then some '"'
  else if c = 'n' then some '\n'
  else if c = 'r' then some '\r'
  else if c = 't' then some '\t'
  else none

/-- `parse_basic_string`. -/
def parseBasicString : List Char → Except InvalidData (List Char)
  | [] => .ok []
  | c :: cs =>
      if c ≠ '\\' then do
        let parsed ← parseBasicString cs
        return c :: parsed
      else
        match cs with
        | [] => .error ⟨"unterminated string escape"⟩
        | e :: cs =>
            match unescapeToml e with
            | some c => do
                let parsed ← parseBasicString cs
                return c :: parsed
            | none => .error ⟨"unsupported string escape: \\" ++ String.singleton e⟩

/-- The number of decimal digits. -/
def digitsValue (digits : List Char) : ℕ :=
  Nat.ofDigits 10 (digits.reverse.map fun c => c.toNat - 48)

/-- `str::parse::<i64>`. -/
def parseI64 (raw : List Char) : Option ℤ :=
  let (negative, digits) := match raw with
    | '-' :: digits => (true, digits)
    | '+' :: digits => (false, digits)
    | digits => (false, digits)
  if digits = [] ∨ !digits.all Char.isDigit then none
  else
    let n : ℤ := if negative then -digitsValue digits else digitsValue digits
    if -2 ^ 63 ≤ n ∧ n < 2 ^ 63 then some n else none

/-- `parse_value`. -/
def parseValue (floats : FloatText R) (raw : List Char) : Except InvalidData (ConfigValue R) :=
  match (stripPrefix '"' raw).bind (stripSuffix '"') with
  | some value => do
      let parsed ← parseBasicString value
      return .string (String.ofList parsed)
  | none =>
      match parseI64 raw with
      | some n => .ok (.integer n)
      | none =>
          match floats.fromStr raw with
          | some x => .ok (.float x)
          | none =>
              if raw = "true".toList then .ok (.bool true)
              else if raw = "false".toList then .ok (.bool false)
              else .error ⟨"unsupported value: " ++ String.ofList raw⟩

/-- What a value of its kind does to a key. -/
inductive Setter (R : Type)
  | string (set : String → RuntimeConfig R → Except InvalidData (RuntimeConfig R))
  | integer (set : ℤ → RuntimeConfig R → Except InvalidData (RuntimeConfig R))
  | float (set : R → RuntimeConfig R → RuntimeConfig R)
  | bool (set : Bool → RuntimeConfig R → RuntimeConfig R)

/-- A key of a section: what is under it, and how it is set. -/
structure Field (R : Type) where
  table : String
  key : String
  get : RuntimeConfig R → Option (ConfigValue R)
  set : Setter R

/-- A key with a string. -/
def stringField (table key : String) (get : RuntimeConfig R → Option String)
    (set : String → RuntimeConfig R → RuntimeConfig R) : Field R where
  table := table
  key := key
  get config := (get config).map .string
  set := .string fun value config => .ok (set value config)

/-- A key with an unsigned integer below a bound. -/
def integerField (table key : String) (bound : ℕ) (get : RuntimeConfig R → ℕ)
    (set : ℕ → RuntimeConfig R → RuntimeConfig R) : Field R where
  table := table
  key := key
  get config := some (.integer (get config))
  set := .integer fun value config =>
    if 0 ≤ value ∧ value < bound then .ok (set value.toNat config)
    else .error ⟨table ++ "." ++ key ++ " out of range"⟩

/-- A key of `limits`. -/
def limitField (key : String) (get : RequestLimits → UInt64)
    (set : UInt64 → RequestLimits → RequestLimits) : Field R :=
  integerField "limits" key (2 ^ 64) (fun config => (get config.limits).toNat)
    fun value config => { config with limits := set (.ofNat value) config.limits }

/-! The arms of `apply_contents`. -/

def hostField : Field R :=
  stringField "server" "host" (fun config => some config.server.host)
    fun value config => { config with server := { config.server with host := value } }

def portField : Field R :=
  integerField "server" "port" (2 ^ 16) (fun config => config.server.port.toNat)
    fun value config => { config with server := { config.server with port := .ofNat value } }

def pythonField : Field R :=
  stringField "worker" "python" (fun config => some config.worker.python)
    fun value config => { config with worker := { config.worker with python := value } }

def moduleField : Field R :=
  stringField "worker" "module" (fun config => some config.worker.module)
    fun value config => { config with worker := { config.worker with module := value } }

def backendField : Field R where
  table := "worker"
  key := "backend"
  get config := some (.string config.worker.backend.asStr)
  set := .string fun value config => do
    let backend ← BackendKind.parse value
    return { config with worker := { config.worker with backend := backend } }

def modelField : Field R :=
  stringField "worker" "model" (fun config => some config.worker.model)
    fun value config => { config with worker := { config.worker with model := value } }

def vlmModelField : Field R :=
  stringField "worker" "vlm_model" (fun config => config.worker.vlmModel)
    fun value config => { config with worker := { config.worker with vlmModel := some value } }

def ipcPathField : Field R :=
  stringField "worker" "ipc_path" (fun config => some config.worker.ipcPath)
    fun value config => { config with worker := { config.worker with ipcPath := value } }

def temperatureField : Field R where
  table := "generation"
  key := "temperature"
  get config := some (.float config.generation.temperature)
  set := .float fun value config =>
    { config with generation := { config.generation with temperature := value } }

def topPField : Field R where
  table := "generation"
  key := "top_p"
  get config := some (.float config.generation.topP)
  set := .float fun value config =>
    { config with generation := { config.generation with topP := value } }

def maxTokensField : Field R :=
  integerField "generation" "max_tokens" (2 ^ 32) (fun config => config.generation.maxTokens.toNat)
    fun value config =>
      { config with generation := { config.generation with maxTokens := .ofNat value } }

def maxPendingRequestsField : Field R :=
  limitField "max_pending_requests" RequestLimits.maxPendingRequests
    fun value limits => { limits with maxPendingRequests := value }

def maxActiveRequestsField : Field R :=
  limitField "max_active_requests" RequestLimits.maxActiveRequests
    fun value limits => { limits with maxActiveRequests := value }

def maxPromptTokensField : Field R :=
  limitField "max_prompt_tokens" RequestLimits.maxPromptTokens
    fun value limits => { limits with maxPromptTokens := value }

def maxCompletionTokensField : Field R :=
  limitField "max_completion_tokens" RequestLimits.maxCompletionTokens
    fun value limits => { limits with maxCompletionTokens := value }

def maxTotalTokensPerRequestField : Field R :=
  limitField "max_total_tokens_per_request" RequestLimits.maxTotalTokensPerRequest
    fun value limits => { limits with maxTotalTokensPerRequest := value }

def requestTimeoutSecondsField : Field R :=
  limitField "request_timeout_seconds" RequestLimits.requestTimeoutSeconds
    fun value limits => { limits with requestTimeoutSeconds := value }

def maxVlmImagesField : Field R :=
  limitField "max_vlm_images" RequestLimits.maxVlmImages
    fun value limits => { limits with maxVlmImages := value }

def enablePrometheusField : Field R where
  table := "telemetry"
  key := "enable_prometheus"
  get config := some (.bool config.telemetry.enablePrometheus)
  set := .bool fun value config =>
    { config with telemetry := { config.telemetry with enablePrometheus := value } }

def metricsPathField : Field R :=
  stringField "telemetry" "metrics_path" (fun config => some config.telemetry.metricsPath)
    fun value config => { config with telemetry := { config.telemetry with metricsPath := value } }

/-- The keys that `apply_contents` knows. -/
def fields : List (Field R) := [hostField, portField, pythonField, moduleField, backendField,
  modelField, vlmModelField, ipcPathField, temperatureField, topPField, maxTokensField,
  maxPendingRequestsField, maxActiveRequestsField, maxPromptTokensField, maxCompletionTokensField,
  maxTotalTokensPerRequestField, requestTimeoutSecondsField, maxVlmImagesField,
  enablePrometheusField, metricsPathField]

/-- A value under a key; what is of another kind is passed over. -/
def Setter.apply (config : RuntimeConfig R) :
    Setter R → ConfigValue R → Except InvalidData (RuntimeConfig R)
  | .string set, .string value => set value config
  | .integer set, .integer value => set value config
  | .float set, .float value => .ok (set value config)
  | .bool set, .bool value => .ok (set value config)
  | _, _ => .ok config

namespace RuntimeConfig

/-- The field of a key. -/
def field? (table key : String) : Option (Field R) :=
  fields.find? fun field => field.table = table ∧ field.key = key

/-- The `match` of `apply_contents`. -/
def applyEntry (table key : String) (value : ConfigValue R) (config : RuntimeConfig R) :
    Except InvalidData (RuntimeConfig R) :=
  match field? table key with
  | some field => field.set.apply config value
  | none => .ok config

/-- The key and the value of a line. -/
def splitEntry (line : List Char) : Option (String × List Char) :=
  (splitOnce '=' line).map fun (key, value) => (String.ofList (trim key), trim value)

/-- The key and the value of a line, if it has them. -/
def lineEntry (rawLine : List Char) : Option (String × List Char) :=
  let line := trim (stripComment false false rawLine)
  if line = [] then none
  else
    match parseSection line with
    | some _ => none
    | none => splitEntry line

/-- A line, after the section it is in. -/
def applyLine (floats : FloatText R) (state : String × RuntimeConfig R) (rawLine : List Char) :
    Except InvalidData (String × RuntimeConfig R) :=
  let line := trim (stripComment false false rawLine)
  if line = [] then .ok state
  else
    match parseSection line with
    | some name => .ok (String.ofList name, state.2)
    | none =>
        match splitEntry line with
        | none => .ok state
        | some (key, raw) => do
            let value ← parseValue floats raw
            let config ← applyEntry state.1 key value state.2
            return (state.1, config)

/-- `str::lines`. -/
def rustLines (contents : List Char) : List (List Char) :=
  (Lines.lines '\n' contents).map (fun line =>
    (stripSuffix '\r' line.dropLast).getD line.dropLast) ++
  (if Lines.tail '\n' contents = [] then [] else [Lines.tail '\n' contents])

/-- `apply_contents`. -/
def applyContents (floats : FloatText R) (config : RuntimeConfig R) (contents : List Char) :
    Except InvalidData (RuntimeConfig R) := do
  let (_, config) ← (rustLines contents).foldlM (applyLine floats) ("", config)
  return config

end RuntimeConfig

/-! ## Strings -/

variable {floats : FloatText R}

theorem stripComment_plain {text : List Char} (h : ∀ c ∈ text, c ≠ '"' ∧ c ≠ '#')
    (rest : List Char) : stripComment false false (text ++ rest) =
      text ++ stripComment false false rest := by
  induction text with
  | nil => rfl
  | cons c cs ih =>
      obtain ⟨hquote, hhash⟩ := h c List.mem_cons_self
      rw [List.cons_append, stripComment, ih fun d hd => h d (List.mem_cons_of_mem _ hd)]
      simp [hquote, hhash]

/-- What a character is written as. -/
inductive TomlChar : Char → List Char → Prop
  | escape {c e : Char} (h : unescapeToml e = some c) : TomlChar c ['\\', e]
  | plain {c : Char} (hslash : c ≠ '\\') (hquote : c ≠ '"') (hcontrol : isControl c = false) :
      TomlChar c [c]

theorem tomlChar_eq_ok {c : Char} {text : List Char} (h : tomlChar c = .ok text) :
    TomlChar c text := by
  rw [tomlChar] at h
  split at h
  case isTrue hc =>
      obtain rfl := Except.ok.inj h
      exact .escape (by rw [hc]; rfl)
  case isFalse hslash =>
  split at h
  case isTrue hc =>
      obtain rfl := Except.ok.inj h
      exact .escape (by rw [hc]; rfl)
  case isFalse hquote =>
  split at h
  case isTrue hc =>
      obtain rfl := Except.ok.inj h
      exact .escape (by rw [hc]; rfl)
  case isFalse =>
  split at h
  case isTrue hc =>
      obtain rfl := Except.ok.inj h
      exact .escape (by rw [hc]; rfl)
  case isFalse =>
  split at h
  case isTrue hc =>
      obtain rfl := Except.ok.inj h
      exact .escape (by rw [hc]; rfl)
  case isFalse =>
  split at h
  case isTrue => cases h
  case isFalse hcontrol =>
      obtain rfl := Except.ok.inj h
      exact .plain hslash hquote (Bool.not_eq_true _ ▸ hcontrol)

/-- A character in a string is no comment. -/
theorem TomlChar.stripComment {c : Char} {text : List Char} (h : TomlChar c text)
    (rest : List Char) : stripComment true false (text ++ rest) =
      text ++ MlxRuntime.stripComment true false rest := by
  cases h with
  | escape h => simp [MlxRuntime.stripComment]
  | plain hslash hquote hcontrol => simp [MlxRuntime.stripComment, hslash, hquote]

/-- It is read as what it was written for. -/
theorem TomlChar.parse {c : Char} {text : List Char} (h : TomlChar c text) (rest : List Char) :
    parseBasicString (text ++ rest) = (parseBasicString rest).map (c :: ·) := by
  cases h with
  | escape h =>
      rw [List.cons_append, List.singleton_append, parseBasicString, if_neg (by simp)]
      simp only [h]
      cases parseBasicString rest <;> rfl
  | plain hslash hquote hcontrol =>
      rw [List.singleton_append, parseBasicString.eq_def]
      dsimp only
      rw [if_pos hslash]
      cases parseBasicString rest <;> rfl

theorem TomlChar.not_newline {c : Char} {text : List Char} (h : TomlChar c text) :
    '\n' ∉ text := by
  cases h with
  | escape h =>
      rename_i e
      simp only [List.mem_cons, List.not_mem_nil, or_false, not_or]
      refine ⟨by decide, ?_⟩
      rintro rfl
      cases h
  | plain hslash hquote hcontrol =>
      rw [List.mem_singleton]
      rintro rfl
      cases hcontrol

/-- The text of a string, without its quotes. -/
inductive TomlText : List Char → List Char → Prop
  | nil : TomlText [] []
  | cons {c : Char} {text cs rest : List Char} (h : TomlChar c text) (hrest : TomlText cs rest) :
      TomlText (c :: cs) (text ++ rest)

theorem tomlText_of_mapM {cs : List Char} {texts : List (List Char)}
    (h : cs.mapM tomlChar = .ok texts) : TomlText cs texts.flatten := by
  induction cs generalizing texts with
  | nil =>
      obtain rfl := Except.ok.inj h
      exact .nil
  | cons c cs ih =>
      rw [List.mapM_cons] at h
      cases hc : tomlChar c with
      | error e =>
          rw [hc] at h
          cases h
      | ok text =>
          rw [hc] at h
          cases hcs : cs.mapM tomlChar with
          | error e =>
              rw [hcs] at h
              cases h
          | ok rest =>
              rw [hcs] at h
              obtain rfl := Except.ok.inj h
              exact .cons (tomlChar_eq_ok hc) (ih hcs)

theorem tomlString_eq_ok {value : String} {text : List Char} (h : tomlString value = .ok text) :
    ∃ inside, text = '"' :: (inside ++ ['"']) ∧ TomlText value.toList inside := by
  rw [tomlString] at h
  cases htexts : value.toList.mapM tomlChar with
  | error e =>
      rw [htexts] at h
      cases h
  | ok texts =>
      rw [htexts] at h
      obtain rfl := Except.ok.inj h
      exact ⟨texts.flatten, rfl, tomlText_of_mapM htexts⟩

theorem TomlText.stripComment {cs text : List Char} (h : TomlText cs text) (rest : List Char) :
    stripComment true false (text ++ rest) = text ++ MlxRuntime.stripComment true false rest := by
  induction h with
  | nil => rfl
  | cons hc _ ih => rw [List.append_assoc, hc.stripComment, ih, List.append_assoc]

theorem TomlText.parse {cs text : List Char} (h : TomlText cs text) :
    parseBasicString text = .ok cs := by
  induction h with
  | nil => rfl
  | cons hc _ ih =>
      rw [hc.parse, ih]
      rfl

theorem TomlText.not_newline {cs text : List Char} (h : TomlText cs text) : '\n' ∉ text := by
  induction h with
  | nil => exact List.not_mem_nil
  | cons hc _ ih =>
      rw [List.mem_append, not_or]
      exact ⟨hc.not_newline, ih⟩

/-! ## Values -/

/-- A text that stays what it is in a line: it has no comment, no space at its ends and no end
of the line. -/
structure ValueText (text : List Char) : Prop where
  comment : stripComment false false text = text
  head : ∃ c cs, text = c :: cs ∧ isWhitespace c = false
  last : ∃ cs c, text = cs ++ [c] ∧ isWhitespace c = false
  line : '\n' ∉ text

theorem valueText_string {value : String} {text : List Char} (h : tomlString value = .ok text) :
    ValueText text := by
  obtain ⟨inside, rfl, hinside⟩ := tomlString_eq_ok h
  refine ⟨?_, ⟨'"', _, rfl, rfl⟩, ⟨'"' :: inside, '"', rfl, rfl⟩, ?_⟩
  · simp [stripComment, hinside.stripComment]
  · simp [hinside.not_newline]

/-- A character of a number or of a word. -/
def isPlain (c : Char) : Bool := c.isDigit || c.isAlpha || c = '-' || c = '.' || c = '_'

theorem isPlain_spec {c : Char} (h : isPlain c) : c ≠ '"' ∧ c ≠ '#' ∧ c ≠ '=' ∧ c ≠ '[' ∧
    c ≠ '\n' ∧ isWhitespace c = false := by
  have hnot : ∀ d : Char, isPlain d = false → c ≠ d := by
    rintro d hd rfl
    rw [h] at hd
    cases hd
  have hrange : 45 ≤ c.toNat ∧ c.toNat ≤ 122 := by
    have hupper : c.isUpper = decide ('A'.val ≤ c.val ∧ c.val ≤ 'Z'.val) := rfl
    have hlower : c.isLower = (decide ('a'.val ≤ c.val) && decide (c.val ≤ 'z'.val)) := rfl
    have halpha : c.isAlpha = (c.isUpper || c.isLower) := rfl
    simp only [isPlain, Char.isDigit, halpha, hupper, hlower, Bool.or_eq_true, Bool.and_eq_true,
      decide_eq_true_eq, ge_iff_le, UInt32.le_iff_toNat_le] at h
    rcases h with (((h | h | h) | rfl) | rfl) | rfl
    · exact ⟨Nat.le_trans (by decide) h.1, Nat.le_trans h.2 (by decide)⟩
    · exact ⟨Nat.le_trans (by decide) h.1, Nat.le_trans h.2 (by decide)⟩
    · exact ⟨Nat.le_trans (by decide) h.1, Nat.le_trans h.2 (by decide)⟩
    all_goals decide
  refine ⟨hnot _ rfl, hnot _ rfl, hnot _ rfl, hnot _ rfl, hnot _ rfl, ?_⟩
  rw [Bool.eq_false_iff]
  intro hspace
  simp only [isWhitespace, Bool.or_eq_true, Bool.and_eq_true, decide_eq_true_eq] at hspace
  omega

theorem valueText_plain {text : List Char} (hne : text ≠ []) (h : ∀ c ∈ text, isPlain c) :
    ValueText text := by
  refine ⟨?_, ?_, ?_, ?_⟩
  · have hplain := stripComment_plain (fun c hc => ⟨(isPlain_spec (h c hc)).1,
      (isPlain_spec (h c hc)).2.1⟩) ([] : List Char)
    rwa [List.append_nil, stripComment, List.append_nil] at hplain
  · obtain ⟨c, cs, rfl⟩ := List.exists_cons_of_ne_nil hne
    exact ⟨c, cs, rfl, (isPlain_spec (h c List.mem_cons_self)).2.2.2.2.2⟩
  · refine ⟨text.dropLast, text.getLast hne, (List.dropLast_append_getLast hne).symm, ?_⟩
    exact (isPlain_spec (h _ (List.getLast_mem hne))).2.2.2.2.2
  · exact fun hmem => (isPlain_spec (h _ hmem)).2.2.2.2.1 rfl

/-! ## Lines -/

/-- A text without space at its ends. -/
theorem trim_eq {text : List Char} (head : ∃ c cs, text = c :: cs ∧ isWhitespace c = false)
    (last : ∃ cs c, text = cs ++ [c] ∧ isWhitespace c = false) : trim text = text := by
  obtain ⟨c, cs, hcons, hc⟩ := head
  have hdrop : text.dropWhile isWhitespace = text := by
    rw [hcons, List.dropWhile_cons_of_neg (by simp [hc])]
  obtain ⟨ds, d, hconcat, hd⟩ := last
  rw [trim, hdrop, hconcat, List.rdropWhile_concat_neg _ _ _ (by simp [hd])]

theorem ValueText.trim {text : List Char} (h : ValueText text) : trim text = text :=
  trim_eq h.head h.last

/-- A key of the configuration. -/
def PlainKey (key : String) : Prop := key.toList ≠ [] ∧ ∀ c ∈ key.toList, isPlain c

instance (key : String) : Decidable (PlainKey key) :=
  decidable_of_iff (key.toList ≠ [] ∧ key.toList.all isPlain = true) (by simp [PlainKey])

theorem PlainKey.valueText {key : String} (h : PlainKey key) : ValueText key.toList :=
  valueText_plain h.1 h.2

/-- The line of a key is split into the key and the value. -/
theorem splitEntry_entry {key : String} {value : List Char} (hkey : PlainKey key)
    (hvalue : ValueText value) :
    RuntimeConfig.splitEntry (entry key value) = some (key, value) := by
  have hnot : '=' ∉ key.toList ++ [' '] := by
    rw [List.mem_append, not_or]
    exact ⟨fun hmem => (isPlain_spec (hkey.2 _ hmem)).2.2.1 rfl, by decide⟩
  have hentry : entry key value = (key.toList ++ [' ']) ++ '=' :: (' ' :: value) := by
    simp [entry]
  have hkeytrim : trim (key.toList ++ [' ']) = key.toList := by
    obtain ⟨c, cs, hcons, hc⟩ := hkey.valueText.head
    have hdrop : (key.toList ++ [' ']).dropWhile isWhitespace = key.toList ++ [' '] := by
      rw [hcons, List.cons_append, List.dropWhile_cons_of_neg (by simp [hc])]
    obtain ⟨ds, d, hconcat, hd⟩ := hkey.valueText.last
    rw [trim, hdrop, List.rdropWhile_concat_pos _ _ _ rfl, hconcat,
      List.rdropWhile_concat_neg _ _ _ (by simp [hd])]
  have hvaluetrim : trim (' ' :: value) = value := by
    rw [trim, List.dropWhile_cons_of_pos rfl]
    exact hvalue.trim
  rw [RuntimeConfig.splitEntry, hentry, splitOnce_append hnot, Option.map_some]
  simp only [hkeytrim, hvaluetrim, String.ofList_toList]

/-- The line of a key sets it to its value. -/
theorem applyLine_entry {key : String} {value : List Char} (hkey : PlainKey key)
    (hvalue : ValueText value) (state : String × RuntimeConfig R) :
    RuntimeConfig.applyLine floats state (entry key value) = (do
      let value ← parseValue floats value
      let config ← RuntimeConfig.applyEntry state.1 key value state.2
      return (state.1, config)) := by
  obtain ⟨c, cs, hcons, hc⟩ := hkey.valueText.head
  have hentry : entry key value = c :: (cs ++ [' ', '=', ' '] ++ value) := by
    rw [entry, hcons, List.cons_append, List.cons_append]
  have hcomment : stripComment false false (entry key value) = entry key value := by
    rw [entry, stripComment_plain, hvalue.comment]
    intro d hd
    rcases List.mem_append.mp hd with hd | hd
    · exact ⟨(isPlain_spec (hkey.2 d hd)).1, (isPlain_spec (hkey.2 d hd)).2.1⟩
    · simp only [List.mem_cons, List.not_mem_nil, or_false] at hd
      rcases hd with rfl | rfl | rfl <;> decide
  have htrim : trim (entry key value) = entry key value := by
    refine trim_eq ⟨c, _, hentry, hc⟩ ?_
    obtain ⟨ds, d, hconcat, hd⟩ := hvalue.last
    exact ⟨key.toList ++ [' ', '=', ' '] ++ ds, d, by simp [entry, hconcat], hd⟩
  have hbracket : c ≠ '[' := (isPlain_spec (hkey.2 c (hcons ▸ List.mem_cons_self))).2.2.2.1
  have hsection : parseSection (entry key value) = none := by
    rw [parseSection, hentry, stripPrefix, if_neg hbracket]
    rfl
  rw [RuntimeConfig.applyLine, hcomment, htrim, if_neg (by rw [hentry]; simp), hsection]
  simp only [splitEntry_entry hkey hvalue]

/-- A line that is not changed by cutting the text into lines. -/
def LineText (line : List Char) : Prop := '\n' ∉ line ∧ line.getLast? ≠ some '\r'

theorem lineText_entry {key : String} {value : List Char} (hkey : PlainKey key)
    (hvalue : ValueText value) : LineText (entry key value) := by
  obtain ⟨ds, d, rfl, hd⟩ := hvalue.last
  refine ⟨?_, ?_⟩
  · have hline := hvalue.line
    rw [entry, List.mem_append, List.mem_append, not_or, not_or]
    exact ⟨⟨hkey.valueText.line, by decide⟩, hline⟩
  · rw [entry, ← List.append_assoc, List.getLast?_concat]
    rintro ⟨⟩
    cases hd

/-- A line that is read as a step from one state to another. -/
structure ReadsLine (floats : FloatText R) (state : String × RuntimeConfig R) (line : List Char)
    (state' : String × RuntimeConfig R) : Prop where
  apply : RuntimeConfig.applyLine floats state line = .ok state'
  text : LineText line

/-- Lines that are read one after the other. -/
inductive ReadsLines (floats : FloatText R) : String × RuntimeConfig R → List (List Char) →
    String × RuntimeConfig R → Prop
  | nil (state : String × RuntimeConfig R) : ReadsLines floats state [] state
  | cons {state₀ state₁ state₂ : String × RuntimeConfig R} {line : List Char}
      {lines : List (List Char)} (h : ReadsLine floats state₀ line state₁)
      (hlines : ReadsLines floats state₁ lines state₂) :
      ReadsLines floats state₀ (line :: lines) state₂

theorem ReadsLines.append {state₀ state₁ state₂ : String × RuntimeConfig R}
    {lines more : List (List Char)} (h : ReadsLines floats state₀ lines state₁)
    (hmore : ReadsLines floats state₁ more state₂) :
    ReadsLines floats state₀ (lines ++ more) state₂ := by
  induction h with
  | nil => exact hmore
  | cons h _ ih => exact .cons h (ih hmore)

theorem ReadsLines.foldlM {state state' : String × RuntimeConfig R} {lines : List (List Char)}
    (h : ReadsLines floats state lines state') :
    lines.foldlM (RuntimeConfig.applyLine floats) state = .ok state' := by
  induction h with
  | nil => rfl
  | cons h _ ih =>
      rw [List.foldlM_cons, h.apply]
      exact ih

theorem ReadsLines.lineText {state state' : String × RuntimeConfig R} {lines : List (List Char)}
    (h : ReadsLines floats state lines state') : ∀ line ∈ lines, LineText line := by
  induction h with
  | nil => exact nofun
  | cons h _ ih => exact List.forall_mem_cons.mpr ⟨h.text, ih⟩

/-! ## The values of a configuration -/

theorem parseValue_string {value : String} {text : List Char} (h : tomlString value = .ok text) :
    parseValue floats text = .ok (.string value) := by
  obtain ⟨inside, rfl, hinside⟩ := tomlString_eq_ok h
  have hinitial : stripPrefix '"' ('"' :: (inside ++ ['"'])) = some (inside ++ ['"']) := by
    simp [stripPrefix]
  have hsuffix : stripSuffix '"' (inside ++ ['"']) = some inside := by
    simp [stripSuffix]
  rw [parseValue, hinitial, Option.bind_some, hsuffix]
  simp only [hinside.parse]
  exact congrArg (fun s => Except.ok (ConfigValue.string s)) String.ofList_toList

/-- A value without quotes. -/
theorem stripPrefix_quote {text : List Char} (h : ∀ c ∈ text, c ≠ '"') :
    (stripPrefix '"' text).bind (stripSuffix '"') = none := by
  cases text with
  | nil => rfl
  | cons c cs =>
      rw [stripPrefix, if_neg (h c List.mem_cons_self)]
      rfl

theorem digitsValue_textNat (n : ℕ) : digitsValue (Json.textNat n) = n := by
  have hnat := Json.natOf_textNat n
  rw [Json.natOf] at hnat
  split at hnat
  case isTrue hzero =>
      rw [hzero, ← Option.some.inj hnat]
      rfl
  case isFalse =>
      split at hnat
      · exact Option.some.inj hnat
      · cases hnat

theorem parseI64_decimal {n : ℕ} (h : n < 2 ^ 63) : parseI64 (decimal n) = some (n : ℤ) := by
  obtain ⟨c, cs, hcons, hc⟩ := Json.head_textNat n
  have hdigits : ¬ (Json.textNat n = [] ∨ !(Json.textNat n).all Char.isDigit) := by
    rw [Json.isDigit_textNat, hcons]
    simp
  have hrange : (-2 ^ 63 : ℤ) ≤ n ∧ (n : ℤ) < 2 ^ 63 := by omega
  have hnot : ∀ d digits, d.isDigit = false → Json.textNat n = d :: digits → False := by
    intro d digits hd heq
    rw [hcons] at heq
    rw [(List.cons.inj heq).1, hd] at hc
    cases hc
  rw [decimal, parseI64]
  · simp only [if_neg hdigits, digitsValue_textNat, Bool.false_eq_true, if_false, if_pos hrange]
  · exact fun digits heq => hnot '-' digits rfl heq
  · exact fun digits heq => hnot '+' digits rfl heq

theorem isPlain_textNat (n : ℕ) : ∀ c ∈ Json.textNat n, isPlain c := by
  intro c hc
  have hdigit := List.all_eq_true.mp (Json.isDigit_textNat n) c hc
  simp [isPlain, hdigit]

theorem valueText_decimal (n : ℕ) : ValueText (decimal n) := by
  refine valueText_plain ?_ (isPlain_textNat n)
  obtain ⟨c, cs, hcons, -⟩ := Json.head_textNat n
  rw [decimal, hcons]
  simp

theorem parseValue_decimal {n : ℕ} (h : n < 2 ^ 63) :
    parseValue floats (decimal n) = .ok (.integer n) := by
  have hquote := stripPrefix_quote fun c hc => (isPlain_spec (isPlain_textNat n c hc)).1
  rw [parseValue, decimal, hquote]
  simp only [← decimal.eq_1, parseI64_decimal h]

theorem valueText_display {x : R} (hx : floats.Finite x) : ValueText (floats.display x) := by
  refine valueText_plain (floats.display_ne_nil x hx) fun c hc => ?_
  rcases floats.display_chars x hx c hc with h | rfl | rfl
  · simp [isPlain, h]
  · rfl
  · rfl

/-- A float that is printed without a point is read as an integer. -/
theorem parseValue_display {x : R} (hx : floats.Finite x) :
    parseValue floats (floats.display x) = .ok (match parseI64 (floats.display x) with
      | some n => .integer n
      | none => .float x) := by
  have hquote : ∀ c ∈ floats.display x, c ≠ '"' := by
    intro c hc
    rcases floats.display_chars x hx c hc with h | rfl | rfl
    · rintro rfl
      cases h
    · decide
    · decide
  rw [parseValue, stripPrefix_quote hquote]
  dsimp only
  split
  · rfl
  · rw [floats.fromStr_display x hx]

theorem valueText_bool (b : Bool) : ValueText (boolText b) := by
  cases b
  · exact valueText_plain (by decide) (List.all_eq_true.mp (by decide))
  · exact valueText_plain (by decide) (List.all_eq_true.mp (by decide))

theorem parseValue_bool (b : Bool) : parseValue floats (boolText b) = .ok (.bool b) := by
  cases b
  · have hint : parseI64 (boolText false) = none := by decide
    rw [parseValue, stripPrefix_quote (by simp [boolText])]
    simp only [hint]
    rw [boolText, floats.fromStr_false]
    rfl
  · have hint : parseI64 (boolText true) = none := by decide
    rw [parseValue, stripPrefix_quote (by simp [boolText])]
    simp only [hint]
    rw [boolText, floats.fromStr_true]
    rfl

end MlxRuntime
