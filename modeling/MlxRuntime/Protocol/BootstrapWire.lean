import MlxRuntime.Protocol.Events
import MlxRuntime.Protocol.Status

/-!
# Bootstrap messages on the wire

Python and Rust both write and read the lines `STATUS`, `READY` and `ERROR`.  A record in a line
is JSON; an `ERROR` line has the record of a structured error, or the text of an error as it is,
and a reader finds out which by reading the text as JSON.

Python's `json` is `Json.text` and `Json.parse`, its `str` of a value a parameter.  Rust's reader
of JSON text is a parameter too; the readers of records that are derived over it are modelled,
from objects and from arrays.  Python keeps values whatever their type; a record with a field of
another type is read as an error here.

## Main definitions

* `Language`, `structOf`, `modelErrorOf`, `modelStatusOf`, `workerErrorOf` — the readers of records.
* `encodeWorkerMessage`, `encodeBootstrapMessage` — the writers of Rust and of Python.
* `SerdeValue`, `PythonStr` — the parameters.
* `decodeBootstrapMessage` — the reader of Python.
-/

namespace MlxRuntime

/-- Who writes or reads. -/
inductive Language
  | python
  | rust
  deriving DecidableEq, Repr

variable {F : Type}

/-! ## Records as JSON -/

/-- The state, in snake case. -/
def ModelState.name : ModelState → String
  | .notLoaded => "not_loaded"
  | .downloading => "downloading"
  | .verifying => "verifying"
  | .loadingWeights => "loading_weights"
  | .initializingRuntime => "initializing_runtime"
  | .warmingUp => "warming_up"
  | .ready => "ready"
  | .degraded => "degraded"
  | .failed => "failed"
  | .unloading => "unloading"

/-- All states. -/
def ModelState.all : List ModelState :=
  [.notLoaded, .downloading, .verifying, .loadingWeights, .initializingRuntime, .warmingUp, .ready,
    .degraded, .failed, .unloading]

/-- A value or `null`. -/
def optionJson {α : Type} (write : α → Json F) : Option α → Json F
  | none => .null
  | some x => write x

/-- A number. -/
def natJson (n : ℕ) : Json F := .int n

/-- The members of an error. -/
def ModelError.members (e : ModelError) : List (String × Json F) :=
  [("code", .str e.code), ("message", .str e.message), ("at", natJson e.at_),
    ("backend", optionJson .str e.backend), ("stage", optionJson .str e.stage),
    ("category", optionJson .str e.category), ("detail", optionJson .str e.detail)]

/-- The members of the progress. -/
def ModelLoadProgress.members (p : ModelLoadProgress) : List (String × Json F) :=
  [("downloaded_bytes", optionJson natJson p.downloadedBytes),
    ("total_bytes", optionJson natJson p.totalBytes),
    ("loaded_tensors", optionJson natJson p.loadedTensors),
    ("total_tensors", optionJson natJson p.totalTensors),
    ("current_phase", optionJson .str p.currentPhase)]

/-- The members of a status. -/
def ModelStatus.members (s : ModelStatus) : List (String × Json F) :=
  [("model", .str s.model), ("revision", optionJson .str s.revision),
    ("state", .str s.state.name), ("ready", .bool s.ready), ("servable", .bool s.servable),
    ("progress", optionJson (fun p => .obj p.members) s.progress),
    ("device", optionJson .str s.device), ("dtype", optionJson .str s.dtype),
    ("loaded_at", optionJson natJson s.loadedAt),
    ("started_loading_at", optionJson natJson s.startedLoadingAt),
    ("last_transition_at", natJson s.lastTransitionAt),
    ("last_error", optionJson (fun e => .obj e.members) s.lastError),
    ("warmup_passed", .bool s.warmupPassed), ("last_warmup_at", optionJson natJson s.lastWarmupAt),
    ("last_warmup_latency_ms", optionJson natJson s.lastWarmupLatencyMs)]

/-- The members of a structured error of a worker. -/
def structuredMembers (message : String) (error : ModelError) : List (String × Json F) :=
  [("message", .str message), ("error", .obj error.members)]

/-! ## Reading records -/

def strOf : Json F → Option String
  | .str s => some s
  | _ => none

def boolOf : Json F → Option Bool
  | .bool b => some b
  | _ => none

/-- A number; Rust has a width for it. -/
def natOf (lang : Language) (width : ℕ) : Json F → Option ℕ
  | .int n => if 0 ≤ n ∧ (lang = .rust → n < 2 ^ width) then some n.toNat else none
  | _ => none

/-- The name of a state. -/
def stateOf (j : Json F) : Option ModelState :=
  (strOf j).bind fun s => ModelState.all.find? fun state => state.name = s

/-- A field that must be there. -/
def requiredField {α : Type} (read : Json F → Option α) (members : List (String × Json F))
    (name : String) : Option α :=
  (Json.get? members name).bind read

/-- A field that may be absent or `null`. -/
def optionalField {α : Type} (read : Json F → Option α) (members : List (String × Json F))
    (name : String) : Option (Option α) :=
  match Json.get? members name with
  | none | some .null => some none
  | some j => (read j).map some

/-- The fields of a record: the members of an object, of which a derived reader lets none of the
names it knows occur twice.  A derived reader also takes an array of the fields in order, without
those at the end that have a default. -/
def structOf (lang : Language) (names : List String) (least : ℕ) :
    Json F → Option (List (String × Json F))
  | .obj members => if lang = .rust → Json.Once members names then some members else none
  | .arr items =>
      if lang = .rust ∧ least ≤ items.length ∧ items.length ≤ names.length then
        some (names.zip items)
      else none
  | _ => none

def modelErrorNames : List String :=
  ["code", "message", "at", "backend", "stage", "category", "detail"]

/-- `ModelError` from its fields. -/
def readModelError (lang : Language) (members : List (String × Json F)) : Option ModelError := do
  let code ← requiredField strOf members "code"
  let message ← requiredField strOf members "message"
  let at_ ← requiredField (natOf lang 64) members "at"
  let backend ← optionalField strOf members "backend"
  let stage ← optionalField strOf members "stage"
  let category ← optionalField strOf members "category"
  let detail ← optionalField strOf members "detail"
  some ⟨code, message, at_, backend, stage, category, detail⟩

def modelErrorOf (lang : Language) (j : Json F) : Option ModelError :=
  (structOf lang modelErrorNames 7 j).bind (readModelError lang)

def modelProgressNames : List String :=
  ["downloaded_bytes", "total_bytes", "loaded_tensors", "total_tensors", "current_phase"]

/-- `ModelLoadProgress` from its fields. -/
def readModelProgress (lang : Language) (members : List (String × Json F)) :
    Option ModelLoadProgress := do
  let downloadedBytes ← optionalField (natOf lang 64) members "downloaded_bytes"
  let totalBytes ← optionalField (natOf lang 64) members "total_bytes"
  let loadedTensors ← optionalField (natOf lang 32) members "loaded_tensors"
  let totalTensors ← optionalField (natOf lang 32) members "total_tensors"
  let currentPhase ← optionalField strOf members "current_phase"
  some ⟨downloadedBytes, totalBytes, loadedTensors, totalTensors, currentPhase⟩

def modelProgressOf (lang : Language) (j : Json F) : Option ModelLoadProgress :=
  (structOf lang modelProgressNames 5 j).bind (readModelProgress lang)

def modelStatusNames : List String :=
  ["model", "revision", "state", "ready", "servable", "progress", "device", "dtype", "loaded_at",
    "started_loading_at", "last_transition_at", "last_error", "warmup_passed", "last_warmup_at",
    "last_warmup_latency_ms"]

/-- `ModelStatus` from its fields. -/
def readModelStatus (lang : Language) (members : List (String × Json F)) : Option ModelStatus := do
  let model ← requiredField strOf members "model"
  let revision ← optionalField strOf members "revision"
  let state ← requiredField stateOf members "state"
  let ready ← requiredField boolOf members "ready"
  let servable ← requiredField boolOf members "servable"
  let progress ← optionalField (modelProgressOf lang) members "progress"
  let device ← optionalField strOf members "device"
  let dtype ← optionalField strOf members "dtype"
  let loadedAt ← optionalField (natOf lang 64) members "loaded_at"
  let startedLoadingAt ← optionalField (natOf lang 64) members "started_loading_at"
  let lastTransitionAt ← requiredField (natOf lang 64) members "last_transition_at"
  let lastError ← optionalField (modelErrorOf lang) members "last_error"
  let warmupPassed ← requiredField boolOf members "warmup_passed"
  let lastWarmupAt ← optionalField (natOf lang 64) members "last_warmup_at"
  let lastWarmupLatencyMs ← optionalField (natOf lang 64) members "last_warmup_latency_ms"
  some ⟨model, revision, state, ready, servable, progress, device, dtype, loadedAt,
    startedLoadingAt, lastTransitionAt, lastError, warmupPassed, lastWarmupAt,
    lastWarmupLatencyMs⟩

def modelStatusOf (lang : Language) (j : Json F) : Option ModelStatus :=
  (structOf lang modelStatusNames 15 j).bind (readModelStatus lang)

/-- `WorkerError`, as Rust derives its reader; the structured error has a default. -/
def workerErrorOf (j : Json F) : Option WorkerError := do
  let members ← structOf .rust ["message", "error"] 1 j
  let message ← requiredField strOf members "message"
  let error ← optionalField (modelErrorOf .rust) members "error"
  some ⟨message, error⟩

/-! ## Rust -/

/-- The text that `serde_json` writes; no record has a number with a fraction. -/
def serdeText (members : List (String × Json Empty)) : List Char :=
  Json.write .compact Empty.elim (.obj members)

/-- `encode_worker_message`. -/
def encodeWorkerMessage : WorkerMessage → List Char
  | .status s => "STATUS\t".toList ++ serdeText s.members
  | .ready => "READY".toList
  | .error e =>
      match e.error with
      | some error => "ERROR\t".toList ++ serdeText (structuredMembers e.message error)
      | none => "ERROR\t".toList ++ (withoutNewlines e.message).toList

/-- `serde_json::from_str` to a value.  It reads what either language writes, up to its
recursion limit, and the characters of a string are all written in its text. -/
structure SerdeValue (F : Type) where
  fromStr : List Char → Option (Json F)
  fromStr_write : ∀ (style : Json.Style) (j : Json Empty), j.Regular → j.depth ≤ 127 →
    fromStr (Json.write style Empty.elim j) = some (j.bindFloat Empty.elim)
  fromStr_length : ∀ cs j s, fromStr cs = some j → .str s ∈ j.children → s.length < cs.length

/-- The derived readers over it. -/
def SerdeValue.bootstrapJson (serde : SerdeValue F) : BootstrapJson where
  modelStatus text := (serde.fromStr text).bind (modelStatusOf .rust)
  workerError text := (serde.fromStr text).bind workerErrorOf

/-! ## Python -/

/-- The text of `json.dumps`. -/
def dumps (members : List (String × Json Empty)) : List Char :=
  Json.text .integers (.obj members)

/-- `encode_bootstrap_message`. -/
def encodeBootstrapMessage : WorkerMessage → List Char
  | .ready => "READY\n".toList
  | .error e =>
      match e.error with
      | none => "ERROR\t".toList ++ (withoutNewlines e.message).toList ++ ['\n']
      | some error =>
          "ERROR\t".toList ++ dumps (structuredMembers (withoutNewlines e.message) error) ++
            ['\n']
  | .status s => "STATUS\t".toList ++ dumps s.members ++ ['\n']

/-- `str.isspace`: the white space of Rust, and the separators of ASCII. -/
def isPythonSpace (c : Char) : Bool := isWhitespace c || (0x1c ≤ c.toNat && c.toNat ≤ 0x1f)

/-- `str.strip`. -/
def strip (text : List Char) : List Char :=
  (text.dropWhile isPythonSpace).rdropWhile isPythonSpace

/-- `str` of a value that `json.loads` gives.  That of a value that is no string is one line
without a blank at its end, and no object with the member `message`: a key that has no quotes in
it is printed between single quotes. -/
structure PythonStr (format : Json.FloatFormat F) where
  str : Json F → String
  str_str : ∀ s, str (.str s) = s
  str_line : ∀ j, (∀ s, j ≠ .str s) → '\n' ∉ (str j).toList ∧
    (str j).toList.rdropWhile isPythonSpace = (str j).toList
  str_member : ∀ j members, (∀ s, j ≠ .str s) →
    Json.parse format (str j).toList = some (.obj members) → Json.get? members "message" = none

/-- `_model_error_from_dict` of a value that is there, or `None`. -/
def modelErrorFromDict : Option (Json F) → Option (Option ModelError)
  | none | some .null => some none
  | some j => (modelErrorOf .python j).map some

/-- `line.split("\t", 1)[1]`. -/
def afterTab (line : List Char) : List Char := ((splitOnce '\t' line).map Prod.snd).getD []

/-- The payload of an `ERROR` line. -/
def errorOfPayload (format : Json.FloatFormat F) (py : PythonStr format) (payload : List Char) :
    Option WorkerError :=
  match Json.parse format payload with
  | some (.obj members) => do
      let error ← modelErrorFromDict (Json.get? members "error")
      some ⟨((Json.get? members "message").map py.str).getD (String.ofList payload), error⟩
  | _ => some ⟨String.ofList payload, none⟩

/-- `decode_bootstrap_message`: no value where it raises, and `none` for another line. -/
def decodeBootstrapMessage (format : Json.FloatFormat F) (py : PythonStr format)
    (raw : List Char) : Option (Option WorkerMessage) :=
  let line := strip raw
  if line = "READY".toList then some (some .ready)
  else if "ERROR\t".toList.isPrefixOf line then
    (errorOfPayload format py (afterTab line)).map fun e => some (.error e)
  else if "STATUS\t".toList.isPrefixOf line then
    ((Json.parse format (afterTab line)).bind (modelStatusOf .python)).map fun s =>
      some (.status s)
  else some none

end MlxRuntime
