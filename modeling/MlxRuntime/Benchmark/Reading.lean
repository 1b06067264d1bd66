import MlxRuntime.Benchmark.Trial
import MlxRuntime.Lib.Http
import MlxRuntime.Protocol.Commands

/-!
# How the load generator reads a response

`_HttpConnection.post_json` reads from an `asyncio.StreamReader`: the status line, the header
fields, and the body with `_body_chunks`, whose chunks `_read_stream_response` cuts into
events and `_read_json_response` joins.  A coroutine is what it awaits next and what it makes
of the answer, so that it can be stopped wherever it waits.

The clock is left out of what is read.

## Main definitions

* `StreamReader.answer` — the methods of the reader, up to where they wait.
* `Phase`, `Phase.awaits`, `Phase.resume` — the coroutine.
* `Sink` — what is made of the body.
-/

namespace MlxRuntime.Benchmark

open Http Numerals

/-! ## `asyncio.StreamReader` -/

/-- What a coroutine awaits: `readline`, `readexactly`, `read(n)` and `read(-1)`. -/
inductive Await
  | line
  | exactly (n : ℕ)
  | upTo (n : ℕ)
  | toEnd

/-- The reader of a connection. -/
structure StreamReader where
  buffer : Bytes := []
  eof : Bool := false
  /-- The exception the connection was lost with. -/
  lost : Option Raised := none

/-- The default limit of a line, `2 ** 16`. -/
def lineLimit : ℕ := 65536

/-- `IncompleteReadError`. -/
def incompleteRead (partialSize expected : ℕ) : Raised :=
  ⟨"IncompleteReadError", s!"{partialSize} bytes read on a total of {expected} expected bytes"⟩

/-- The answer and the buffer it leaves; `none` is to wait. -/
def StreamReader.answer (r : StreamReader) : Await → Option (Except Raised Bytes × Bytes)
  | asked =>
      match r.lost with
      | some raised => some (.error raised, r.buffer)
      | none =>
          match asked with
          | .line =>
              match Lines.cutLine newline r.buffer with
              | some (line, rest) =>
                  if lineLimit < line.length - 1 then
                    some (.error ⟨"ValueError",
                      "Separator is found, but chunk is longer than limit"⟩, rest)
                  else some (.ok line, rest)
              | none =>
                  if lineLimit < r.buffer.length then
                    some (.error ⟨"ValueError",
                      "Separator is not found, and chunk exceed the limit"⟩, [])
                  else if r.eof then some (.ok r.buffer, [])
                  else none
          | .exactly n =>
              if n ≤ r.buffer.length then some (.ok (r.buffer.take n), r.buffer.drop n)
              else if r.eof then some (.error (incompleteRead r.buffer.length n), [])
              else none
          | .upTo n =>
              if r.buffer = [] ∧ r.eof = false then none
              else some (.ok (r.buffer.take n), r.buffer.drop n)
          | .toEnd => if r.eof then some (.ok r.buffer, []) else none

/-! ## What is made of the body -/

variable {F : Type}

/-- The functions of Python that are not written out here. -/
structure Python (F : Type) extends PyJson F where
  /-- The exception that a call raised. -/
  raised : PyError → Raised
  /-- `int(value)`. -/
  int : Json F → Except PyError ℤ
  /-- `repr` of bytes. -/
  repr : Bytes → String
  /-- `decode(errors="replace")`. -/
  decode : Bytes → String
  /-- The digest of a text in UTF-8. -/
  sha256 : String → String

/-- A blank of `str.strip` in Latin-1. -/
def isStrBlank (b : UInt8) : Bool :=
  9 ≤ b && b ≤ 13 || 28 ≤ b && b ≤ 32 || b = 133 || b = 160

/-- A blank of `bytes.strip`. -/
def isBytesBlank (b : UInt8) : Bool := 9 ≤ b && b ≤ 13 || b = 32

def loadGenerationError (message : String) : Raised := ⟨"LoadGenerationError", message⟩

def connectionError (message : String) : Raised := ⟨"ConnectionError", message⟩

/-- `value or default`. -/
def orElse (py : Python F) (default : Json F) : Option (Json F) → Json F
  | some value => if value.truthy py.toPyJson then value else default
  | none => default

/-- `value[0]`. -/
def Json.first : Json F → Except PyError (Json F)
  | .arr (x :: _) => .ok x
  | .arr [] => .error .indexError
  | .str s =>
      match s.toList with
      | c :: _ => .ok (.str (String.singleton c))
      | [] => .error .indexError
  | .obj _ => .error .keyError
  | value => .error (.typeError s!"'{value.typeName}' object is not subscriptable")

/-- The value is there and not `None`. -/
def given : Option (Json F) → Option (Json F)
  | some .null => none
  | value => value

/-- The variables of `_read_stream_response`, the buffer of the line that was begun apart. -/
structure Events (F : Type) where
  output : List String := []
  usage : Option (Json F) := none
  finishReason : Option (Json F) := none
  /-- `first_token_ns is not None`. -/
  started : Bool := false

/-- What an event says of the first choice. -/
def Events.choice (py : Python F) (e : Events F) (choice : Json F) :
    Except PyError (Events F) := do
  let content ← (orElse py (.obj []) (← choice.getAttr "delta")).getAttr "content"
  let e := match content.filter (·.truthy py.toPyJson) with
    | some text => { e with output := e.output ++ [py.str text], started := true }
    | none => e
  match given (← choice.getAttr "finish_reason") with
  | some reason => pure { e with finishReason := some (.str (py.str reason)) }
  | none => pure e

/-- An event. -/
def Events.event (py : Python F) (e : Events F) (data : Bytes) : Except PyError (Events F) := do
  let event ← py.loadsBytes data
  let choices := orElse py (.arr []) (← event.getAttr "choices")
  let e ← if choices.truthy py.toPyJson then e.choice py (← Json.first choices) else pure e
  match given (← event.getAttr "usage") with
  | some usage => pure { e with usage := some usage }
  | none => pure e

/-- A line of the stream, with its end. -/
def Events.line (py : Python F) (e : Events F) (raw : Bytes) : Except Raised (Events F) :=
  let line := raw.dropLast.rdropWhile (· = 13)
  if ascii "data:" <+: line then
    let data := stripBy isBytesBlank (line.drop 5)
    if data = [] ∨ data = ascii "[DONE]" then .ok e
    else (e.event py data).mapError py.raised
  else .ok e

/-- What the chunks of a body go to: they are joined, or cut into events. -/
inductive Sink (F : Type)
  | joined (body : Bytes)
  | events (buffer : Bytes) (e : Events F)

namespace Sink

/-- The sink of a response. -/
def start (streaming : Bool) (status : ℤ) : Sink F :=
  if streaming = true ∧ status = 200 then .events [] {} else .joined []

/-- One more chunk. -/
def feed (py : Python F) : Sink F → Bytes → Except Raised (Sink F)
  | .joined body, chunk => .ok (.joined (body ++ chunk))
  | .events buffer e, chunk =>
      ((Lines.lines newline (buffer ++ chunk)).foldlM (Events.line py) e).map
        (.events (Lines.tail newline (buffer ++ chunk)))

end Sink

/-- `_response_record`, the clock apart. -/
structure Answer (F : Type) where
  promptTokens : ℤ
  completionTokens : ℤ
  totalTokens : ℤ
  cachedTokens : ℤ
  outputSha256 : String
  finishReason : Option (Json F)

/-- `int(usage.get(key, 0))`. -/
def count (py : Python F) (usage : Json F) (key : String) : Except PyError ℤ := do
  py.int ((← usage.getAttr key).getD (.int 0))

def responseRecord (py : Python F) (output : List String) (finishReason : Option (Json F))
    (usage : Json F) : Except PyError (Answer F) := do
  let promptTokens ← count py usage "prompt_tokens"
  let completionTokens ← count py usage "completion_tokens"
  let totalTokens ← count py usage "total_tokens"
  let details := orElse py (.obj []) (← usage.getAttr "prompt_tokens_details")
  let cachedTokens ← count py details "cached_tokens"
  pure { promptTokens, completionTokens, totalTokens, cachedTokens, finishReason
         outputSha256 := py.sha256 (String.join output) }

/-- The record of a response that was joined: that of `_read_json_response`. -/
def jsonRecord (py : Python F) (body : Bytes) : Except Raised (Answer F) := do
  let payload ← (py.loadsBytes body).mapError py.raised
  let choices := orElse py (.arr []) (← (payload.getAttr "choices").mapError py.raised)
  if choices.truthy py.toPyJson then
    let first ← (Json.first choices).mapError py.raised
    let message := orElse py (.obj []) (← (first.getAttr "message").mapError py.raised)
    match given (← (message.getAttr "content").mapError py.raised) with
    | none => throw (loadGenerationError "non-streaming response contains no content")
    | some content =>
        match given (← (payload.getAttr "usage").mapError py.raised) with
        | none => throw (loadGenerationError "non-streaming response contains no usage")
        | some usage =>
            let reason ← (first.getAttr "finish_reason").mapError py.raised
            (responseRecord py [py.str content] reason usage).mapError py.raised
  else throw (loadGenerationError "non-streaming response contains no choice")

/-- What is returned at the end of the body. -/
def Sink.finish (py : Python F) (status : ℤ) : Sink F → Except Raised (Answer F)
  | .joined body =>
      if status ≠ 200 then .error (loadGenerationError s!"HTTP {status}: {py.decode body}")
      else jsonRecord py body
  | .events _ e =>
      if e.started = false then
        .error (loadGenerationError "stream completed without a generated token")
      else match e.usage with
        | none => .error (loadGenerationError "stream completed without usage")
        | some usage => (responseRecord py e.output e.finishReason usage).mapError py.raised

/-! ## The coroutine -/

/-- What the status line and the header lines say; of two fields of a name the later one
stands first. -/
structure Head where
  version : Bytes
  status : ℤ
  headers : List (Bytes × Bytes) := []

namespace Head

/-- `headers.get(key)`. -/
def get (h : Head) (key : String) : Option Bytes := h.headers.lookup (ascii key)

/-- `"chunked" in headers.get("transfer-encoding", "").lower()`. -/
def IsChunked (h : Head) : Prop :=
  ascii "chunked" <:+: ((h.get "transfer-encoding").getD []).map lower

instance : DecidablePred IsChunked := fun _ => inferInstanceAs (Decidable (_ <:+: _))

/-- `reusable`. -/
def Reusable (h : Head) : Prop :=
  h.version = version ∧ ((h.get "connection").getD []).map lower ≠ ascii "close" ∧
    ((h.get "content-length").isSome ∨ h.IsChunked)
where version := ascii "HTTP/1.1"

instance : DecidablePred Reusable := fun _ => inferInstanceAs (Decidable (_ ∧ _ ∧ _))

end Head

/-- Where the coroutine waits. -/
inductive Phase (F : Type)
  | statusLine
  | headers (h : Head)
  | sizeLine (h : Head) (sink : Sink F)
  | chunkData (h : Head) (sink : Sink F) (size : ℕ)
  | chunkEnd (h : Head) (sink : Sink F) (data : Bytes)
  | trailers (h : Head) (sink : Sink F)
  | fixed (h : Head) (sink : Sink F) (remaining : ℤ)
  | untilClosed (h : Head) (sink : Sink F)

/-- A coroutine that goes on waiting, or has returned. -/
abbrev Next (F : Type) := Phase F ⊕ Answer F × Bool

namespace Phase

/-- What is awaited. -/
def awaits : Phase F → Await
  | .statusLine | .headers _ | .sizeLine .. | .trailers .. => .line
  | .chunkData _ _ size => .exactly size
  | .chunkEnd .. => .exactly 2
  | .fixed _ _ remaining =>
      if remaining < 0 then .toEnd else .upTo (min 65536 remaining.toNat)
  | .untilClosed .. => .upTo 65536

end Phase

/-- The text before a byte and behind it. -/
def cut (sep : UInt8) (text : Bytes) : Option (Bytes × Bytes) :=
  (Lines.cutLine sep text).map fun (line, rest) => (line.dropLast, rest)

variable (py : Python F)

/-- The end of the body. -/
def returned (h : Head) (sink : Sink F) : Except Raised (Next F) :=
  (sink.finish py h.status).map fun answer => .inr (answer, decide h.Reusable)

/-- The status line, with its end. -/
def readStatusLine (line : Bytes) : Except Raised (Next F) :=
  let invalid := loadGenerationError s!"invalid HTTP status line: {py.repr line}"
  if line = [] then .error (connectionError "server closed the connection before the response")
  else match cut 32 line with
    | none => .error invalid
    | some (version, rest) =>
        match cut 32 rest with
        | none => .error invalid
        | some (rawStatus, _) =>
            match pyInt isStrBlank 10 rawStatus with
            | none => .error invalid
            | some status => .ok (.inl (.headers { version, status }))

/-- The beginning of `_body_chunks`. -/
def startBody (streaming : Bool) (h : Head) : Except Raised (Next F) :=
  let sink := Sink.start streaming h.status
  if h.IsChunked then .ok (.inl (.sizeLine h sink))
  else match h.get "content-length" with
    | some value =>
        match pyInt isStrBlank 10 value with
        | none => .error ⟨"ValueError",
            "invalid literal for int() with base 10: " ++ py.repr value⟩
        | some remaining =>
            if remaining = 0 then returned py h sink else .ok (.inl (.fixed h sink remaining))
    | none => .ok (.inl (.untilClosed h sink))

/-- A header line, with its end. -/
def readHeader (streaming : Bool) (h : Head) (line : Bytes) : Except Raised (Next F) :=
  if line = crlf ∨ line = [newline] then startBody py streaming h
  else if line = [] then
    .error (connectionError "server closed the connection in response headers")
  else match cut 58 line with
    | none => .error (loadGenerationError s!"invalid HTTP header: {py.repr line}")
    | some (key, value) => .ok (.inl (.headers { h with
        headers := ((stripBy isStrBlank key).map lower, stripBy isStrBlank value) :: h.headers }))

/-- The line before a chunk. -/
def readSize (h : Head) (sink : Sink F) (line : Bytes) : Except Raised (Next F) :=
  if line = [] then .error (connectionError "server closed a chunked response")
  else match pyInt isBytesBlank 16 (stripBy isBytesBlank (line.takeWhile (· ≠ 59))) with
    | none => .error (loadGenerationError s!"invalid HTTP chunk size: {py.repr line}")
    | some size =>
        if size = 0 then .ok (.inl (.trailers h sink))
        else if size < 0 then
          .error ⟨"ValueError", "readexactly size can not be less than zero"⟩
        else .ok (.inl (.chunkData h sink size.toNat))

/-- The coroutine goes on with an answer. -/
def Phase.resume (streaming : Bool) : Phase F → Bytes → Except Raised (Next F)
  | .statusLine, line => readStatusLine py line
  | .headers h, line => readHeader py streaming h line
  | .sizeLine h sink, line => readSize py h sink line
  | .chunkData h sink _, data => .ok (.inl (.chunkEnd h sink data))
  | .chunkEnd h sink data, ending =>
      if ending ≠ crlf then .error (loadGenerationError "HTTP chunk is missing CRLF")
      else (sink.feed py data).map fun sink => .inl (.sizeLine h sink)
  | .trailers h sink, trailer =>
      if trailer = crlf ∨ trailer = [newline] then returned py h sink
      else if trailer = [] then .error (connectionError "server closed chunked trailers")
      else .ok (.inl (.trailers h sink))
  | .fixed h sink remaining, chunk =>
      if chunk = [] then .error (connectionError "server closed a fixed-length response")
      else do
        let sink ← sink.feed py chunk
        let remaining := remaining - chunk.length
        if remaining = 0 then returned py h sink else pure (.inl (.fixed h sink remaining))
  | .untilClosed h sink, chunk =>
      if chunk = [] then returned py h sink
      else (sink.feed py chunk).map fun sink => .inl (.untilClosed h sink)

end MlxRuntime.Benchmark
