import MlxRuntime.Lib.Run
import MlxRuntime.Worker.Serial

/-!
# Frames from chunks

A socket gives its bytes in chunks, and a frame ends with a newline.  The v1 worker puts
frames together in a loop; the native worker calls itself once for each chunk, so that the
interpreter's stack bounds the chunks of one call.  While a request of the serial worker runs,
its `should_cancel` takes frames as well, and puts them aside.

A socket is its chunks to come, with the end of the stream after them.  What `select` answers is
an input; a `recv` that never returns is a call that never returns.

## Main definitions

* `CommandSocket` — a socket with its buffer.
* `NativeReader.readLine`, `CommandSocket.readCommandLine` — the two readers.
* `SerialReader` — the frame source of the serial loop and `should_cancel`.
* `CommandSocket.Delivers` — these frames were taken out, and nothing else.
-/

namespace MlxRuntime

/-- What one `recv(4096)` gives, before the end of the stream. -/
structure Chunk where
  bytes : Bytes
  nonempty : bytes ≠ []
  bounded : bytes.length ≤ 4096

/-- The bytes read and not yet used, and the chunks to come; `received` is history. -/
structure CommandSocket where
  buffer : Bytes := []
  coming : List Chunk
  received : Bytes := []

namespace CommandSocket

/-- `_pop_buffered_line`. -/
def popBufferedLine (s : CommandSocket) : Option (Bytes × CommandSocket) :=
  (Lines.cutLine newline s.buffer).map fun cut => (cut.1, { s with buffer := cut.2 })

/-- `read_buffer.extend(chunk)`. -/
def extend (s : CommandSocket) (chunk : Chunk) (coming : List Chunk) : CommandSocket where
  buffer := s.buffer ++ chunk.bytes
  coming := coming
  received := s.received ++ chunk.bytes

/-- The loop of `_read_command_line`; `ready` is the answer of `select`.  A poll asks it once, as
it leaves the loop after one chunk. -/
def readLoop (block ready : Bool) (s : CommandSocket) : List Chunk → Option Bytes × CommandSocket
  | [] => if !block && !ready then (none, s) else (some [], s)
  | chunk :: coming =>
      if !block && !ready then (none, s)
      else
        match (s.extend chunk coming).popBufferedLine with
        | some (line, s') => (some line, s')
        | none =>
            if !block then (none, s.extend chunk coming)
            else readLoop block ready (s.extend chunk coming) coming

/-- `_read_command_line`: a frame, `None`, or nothing at the end of the stream. -/
def readCommandLine (block ready : Bool) (s : CommandSocket) : Option Bytes × CommandSocket :=
  match s.popBufferedLine with
  | some (line, s') => (some line, s')
  | none => s.readLoop block ready s.coming

/-- `RecursionError`. -/
def recursionError : PyError := .runtimeError "maximum recursion depth exceeded"

/-- The native `_read_line`.  `frames` is what the interpreter's stack has left for it, and
`ready` are the answers of `select`, one for each call that does not block. -/
def readLine : ℕ → Bool → List Bool → CommandSocket → Except PyError (Option Bytes) × CommandSocket
  | 0, _, _, s => (.error recursionError, s)
  | frames + 1, block, ready, s =>
      match s.popBufferedLine with
      | some (line, s') => (.ok (some line), s')
      | none =>
          if !block && !ready.headD false then (.ok none, s)
          else
            match s.coming with
            | [] => (.ok (some []), s)
            | chunk :: coming =>
                readLine frames false (if block then ready else ready.tail) (s.extend chunk coming)

/-- The chunks that a call of `_read_line` receives, were it not for the stack. -/
def chunksTaken (block : Bool) (ready : List Bool) (s : CommandSocket) : List Chunk → ℕ
  | [] => 0
  | chunk :: coming =>
      if s.popBufferedLine.isSome || !block && !ready.headD false then 0
      else
        chunksTaken false (if block then ready else ready.tail) (s.extend chunk coming) coming + 1

/-- The frame in an answer of a reader. -/
def frameOf : Option Bytes → List Bytes
  | none | some [] => []
  | some line => [line]

/-- From `s` to `s'` these frames were taken out of the stream, and nothing else. -/
structure Delivers (s : CommandSocket) (frames : List Bytes) (s' : CommandSocket) : Prop where
  lines : ∀ frame ∈ frames, Lines.Line newline frame
  bytes : ∃ more, s'.received = s.received ++ more ∧
    s.buffer ++ more = frames.flatten ++ s'.buffer ∧
    s.coming.flatMap Chunk.bytes = more ++ s'.coming.flatMap Chunk.bytes

/-- The frames taken so far are the first of the stream received, and the buffer has the rest. -/
structure Framed (frames : List Bytes) (stream : Bytes) (s : CommandSocket) : Prop where
  complete : frames ++ Lines.lines newline s.buffer = Lines.lines newline s.received
  incomplete : Lines.tail newline s.buffer = Lines.tail newline s.received
  stream : s.received ++ s.coming.flatMap Chunk.bytes = stream

/-- No frame is left in the buffer. -/
def Drained (s : CommandSocket) : Prop := newline ∉ s.buffer

theorem Delivers.refl (s : CommandSocket) : Delivers s [] s :=
  ⟨nofun, [], by simp, by simp, rfl⟩

theorem Delivers.trans {s s' s'' : CommandSocket} {frames frames' : List Bytes}
    (h : Delivers s frames s') (h' : Delivers s' frames' s'') :
    Delivers s (frames ++ frames') s'' := by
  obtain ⟨more, hreceived, hbuffer, hcoming⟩ := h.bytes
  obtain ⟨more', hreceived', hbuffer', hcoming'⟩ := h'.bytes
  refine ⟨fun frame hframe => ?_, more ++ more', ?_, ?_, ?_⟩
  · rcases List.mem_append.mp hframe with hframe | hframe
    · exact h.lines frame hframe
    · exact h'.lines frame hframe
  · rw [hreceived', hreceived, List.append_assoc]
  · rw [← List.append_assoc, hbuffer, List.append_assoc, hbuffer', List.flatten_append,
      List.append_assoc]
  · rw [hcoming, hcoming', List.append_assoc]

theorem Delivers.framed {chunks : List Chunk} {frames : List Bytes} {s : CommandSocket}
    (h : Delivers { coming := chunks } frames s) :
    Framed frames (chunks.flatMap Chunk.bytes) s := by
  obtain ⟨more, hreceived, hbuffer, hcoming⟩ := h.bytes
  obtain rfl : s.received = more := hreceived
  have hstream : s.received = frames.flatten ++ s.buffer := hbuffer
  refine ⟨?_, ?_, hcoming.symm⟩
  · rw [hstream, Lines.lines_flatten_append h.lines]
  · rw [hstream, Lines.tail_flatten_append h.lines]

theorem frameOf_line {line : Bytes} (h : Lines.Line newline line) :
    frameOf (some line) = [line] := by
  obtain ⟨body, -, rfl⟩ := h
  cases body <;> rfl

theorem popBufferedLine_eq_some {s s' : CommandSocket} {line : Bytes}
    (h : s.popBufferedLine = some (line, s')) : Delivers s (frameOf (some line)) s' := by
  obtain ⟨⟨line', rest⟩, hcut, heq⟩ := Option.map_eq_some_iff.mp h
  obtain ⟨rfl, rfl⟩ := Prod.mk.inj heq
  obtain ⟨hline, hbuffer⟩ := Lines.cutLine_eq_some hcut
  rw [frameOf_line hline]
  refine ⟨by simpa using hline, [], by simp, ?_, rfl⟩
  simpa using hbuffer

theorem popBufferedLine_eq_none {s : CommandSocket} : s.popBufferedLine = none ↔ s.Drained := by
  rw [popBufferedLine, Option.map_eq_none_iff, Lines.cutLine_eq_none, Drained]

theorem delivers_extend {s : CommandSocket} {chunk : Chunk} {coming : List Chunk}
    (h : s.coming = chunk :: coming) : Delivers s [] (s.extend chunk coming) :=
  ⟨nofun, chunk.bytes, rfl, rfl, by rw [h]; rfl⟩

/-- What a reader does: it takes out the frame it answers, and it answers without a frame
only when none is left, and with the end of the stream only there. -/
structure Reads (s : CommandSocket) (answer : Option Bytes) (s' : CommandSocket) : Prop where
  delivers : Delivers s (frameOf answer) s'
  drained : frameOf answer = [] → s'.Drained
  ended : answer = some [] → s'.coming = []

theorem reads_line {s s' : CommandSocket} {line : Bytes}
    (h : s.popBufferedLine = some (line, s')) : Reads s (some line) s' := by
  have hline : frameOf (some line) = [line] := by
    obtain ⟨⟨line', rest⟩, hcut, heq⟩ := Option.map_eq_some_iff.mp h
    obtain ⟨rfl, -⟩ := Prod.mk.inj heq
    exact frameOf_line (Lines.cutLine_eq_some hcut).1
  refine ⟨popBufferedLine_eq_some h, fun hnil => ?_, fun hnil => ?_⟩
  · rw [hline] at hnil
    cases hnil
  · rw [hnil] at hline
    cases hline

/-- A reader that stops without a frame. -/
theorem reads_none {s : CommandSocket} (h : s.popBufferedLine = none) : Reads s none s :=
  ⟨.refl s, fun _ => popBufferedLine_eq_none.mp h, nofun⟩

theorem reads_end {s : CommandSocket} (h : s.popBufferedLine = none) (hcoming : s.coming = []) :
    Reads s (some []) s :=
  ⟨.refl s, fun _ => popBufferedLine_eq_none.mp h, fun _ => hcoming⟩

/-- A chunk is received first. -/
theorem Reads.after_chunk {s s' : CommandSocket} {chunk : Chunk} {coming : List Chunk}
    {answer : Option Bytes} (hcoming : s.coming = chunk :: coming)
    (h : Reads (s.extend chunk coming) answer s') : Reads s answer s' :=
  ⟨(delivers_extend hcoming).trans h.delivers, h.drained, h.ended⟩

theorem readLoop_reads (block ready : Bool) {s : CommandSocket} {coming : List Chunk}
    (hcoming : s.coming = coming) (hpop : s.popBufferedLine = none) :
    Reads s (s.readLoop block ready coming).1 (s.readLoop block ready coming).2 := by
  induction coming generalizing s with
  | nil =>
    rw [readLoop]
    split
    · exact reads_none hpop
    · exact reads_end hpop hcoming
  | cons chunk coming ih =>
    rw [readLoop]
    split
    · exact reads_none hpop
    · cases hline : (s.extend chunk coming).popBufferedLine with
      | some cut => exact (reads_line hline).after_chunk hcoming
      | none =>
        simp only
        split
        · exact (reads_none hline).after_chunk hcoming
        · exact (ih rfl hline).after_chunk hcoming

/-- The loop takes out the frame it answers with. -/
theorem readCommandLine_reads (block ready : Bool) (s : CommandSocket) :
    Reads s (s.readCommandLine block ready).1 (s.readCommandLine block ready).2 := by
  rw [readCommandLine]
  cases hline : s.popBufferedLine with
  | some cut => exact reads_line hline
  | none => exact readLoop_reads block ready rfl hline

/-- A call that blocks does not answer `None`. -/
theorem readCommandLine_block (ready : Bool) (s : CommandSocket) :
    (s.readCommandLine true ready).1 ≠ none := by
  have hloop (s : CommandSocket) (coming : List Chunk) :
      (s.readLoop true ready coming).1 ≠ none := by
    induction coming generalizing s with
    | nil => simp [readLoop]
    | cons chunk coming ih =>
      rw [readLoop]
      cases (s.extend chunk coming).popBufferedLine with
      | some cut => simp
      | none => simpa using ih (s.extend chunk coming)
  rw [readCommandLine]
  cases s.popBufferedLine with
  | some cut => simp
  | none => exact hloop s s.coming

/-- The recursion does the same, if it has a frame of the stack for each chunk and one more. -/
theorem readLine_reads {frames : ℕ} {block : Bool} {ready : List Bool} {s : CommandSocket}
    (h : chunksTaken block ready s s.coming < frames) :
    ∃ answer s', readLine frames block ready s = (.ok answer, s') ∧ Reads s answer s' := by
  induction frames generalizing block ready s with
  | zero => cases h
  | succ frames ih =>
    rw [readLine]
    cases hline : s.popBufferedLine with
    | some cut => exact ⟨_, _, rfl, reads_line hline⟩
    | none =>
      simp only
      split
      case isTrue => exact ⟨_, _, rfl, reads_none hline⟩
      case isFalse hready =>
        cases hcoming : s.coming with
        | nil => exact ⟨_, _, rfl, reads_end hline hcoming⟩
        | cons chunk coming =>
          have hlt : chunksTaken false (if block then ready else ready.tail) (s.extend chunk coming)
              coming < frames := by
            rw [hcoming, chunksTaken, hline, Option.isSome_none, Bool.false_or,
              if_neg hready] at h
            exact Nat.lt_of_succ_lt_succ h
          obtain ⟨answer, s', hread, hreads⟩ := ih hlt
          exact ⟨answer, s', hread, hreads.after_chunk hcoming⟩

/-- Else it raises, and what it received is in the buffer. -/
theorem readLine_raises {frames : ℕ} {block : Bool} {ready : List Bool} {s : CommandSocket}
    (h : frames ≤ chunksTaken block ready s s.coming) :
    ∃ s', readLine frames block ready s = (.error recursionError, s') ∧ Delivers s [] s' := by
  induction frames generalizing block ready s with
  | zero => exact ⟨s, rfl, .refl s⟩
  | succ frames ih =>
    cases hcoming : s.coming with
    | nil =>
      rw [hcoming] at h
      cases h
    | cons chunk coming =>
      rw [hcoming, chunksTaken] at h
      split at h
      case isTrue => cases h
      case isFalse hnot =>
        rw [Bool.or_eq_true, not_or, Option.not_isSome_iff_eq_none] at hnot
        obtain ⟨s', hread, hdelivers⟩ := ih (Nat.le_of_succ_le_succ h)
        refine ⟨s', ?_, (delivers_extend hcoming).trans hdelivers⟩
        rw [readLine, hnot.1]
        simp only [if_neg hnot.2, hcoming, hread]

/-! ## The native worker -/

/-- A call of `_read_line`, with the answers of `select`. -/
structure ReadCall where
  block : Bool
  ready : List Bool

/-- A call, with so many frames of the stack left for it. -/
def nativeStep (frames : ℕ) (s : CommandSocket) (call : ReadCall) :
    Except PyError (Option Bytes) × CommandSocket := s.readLine frames call.block call.ready

/-- The call receives fewer chunks than the stack has frames for it. -/
def Shallow (frames : ℕ) (s : CommandSocket) (call : ReadCall) : Prop :=
  chunksTaken call.block call.ready s s.coming < frames

/-- The frames in the answers. -/
def framesOf (answers : List (Except PyError (Option Bytes))) : List Bytes :=
  answers.flatMap fun answer => (answer.toOption.map frameOf).getD []

/-- Calls of `_read_line` return, with the frames of the stream in order; a call without a
frame leaves none behind, and the end of the stream is answered at the end only. -/
structure NativeFramed (frames : ℕ) (chunks : List Chunk) (calls : List ReadCall) : Prop where
  returns : ∀ answer ∈ Run.replies (nativeStep frames) { coming := chunks } calls,
    ∃ value, answer = .ok value
  framed : Framed (framesOf (Run.replies (nativeStep frames) { coming := chunks } calls))
    (chunks.flatMap Chunk.bytes) (Run.exec (nativeStep frames) { coming := chunks } calls)
  drained : ∀ before call after, calls = before ++ call :: after → ∀ answer s',
    nativeStep frames (Run.exec (nativeStep frames) { coming := chunks } before) call =
      (.ok answer, s') → frameOf answer = [] → s'.Drained ∧ (answer = some [] → s'.coming = [])

theorem nativeStep_cases (frames : ℕ) (s : CommandSocket) (call : ReadCall) :
    (Shallow frames s call ∧ ∃ answer s', nativeStep frames s call = (.ok answer, s') ∧
      Reads s answer s') ∨
    ¬ Shallow frames s call ∧ ∃ s', nativeStep frames s call = (.error recursionError, s') ∧
      Delivers s [] s' := by
  rcases Nat.lt_or_ge (chunksTaken call.block call.ready s s.coming) frames with h | h
  · exact .inl ⟨h, readLine_reads h⟩
  · exact .inr ⟨Nat.not_lt.mpr h, readLine_raises h⟩

theorem nativeStep_delivers (frames : ℕ) (s : CommandSocket) (call : ReadCall) :
    Delivers s (framesOf [(nativeStep frames s call).1]) (nativeStep frames s call).2 := by
  rcases nativeStep_cases frames s call with
    ⟨-, answer, s', hstep, hreads⟩ | ⟨-, s', hstep, hdelivers⟩
  · rw [hstep]
    simpa [framesOf, Except.toOption] using hreads.delivers
  · rw [hstep]
    simpa [framesOf, Except.toOption] using hdelivers

theorem native_delivers (frames : ℕ) (s : CommandSocket) (calls : List ReadCall) :
    Delivers s (framesOf (Run.replies (nativeStep frames) s calls))
      (Run.exec (nativeStep frames) s calls) := by
  induction calls generalizing s with
  | nil => exact .refl s
  | cons call calls ih =>
    have h := (nativeStep_delivers frames s call).trans (ih (nativeStep frames s call).2)
    simpa [framesOf, Run.replies] using h

theorem native_returns_iff (frames : ℕ) (s : CommandSocket) (calls : List ReadCall) :
    (∀ answer ∈ Run.replies (nativeStep frames) s calls, ∃ value, answer = .ok value) ↔
      Run.Each (nativeStep frames) (Shallow frames) s calls := by
  induction calls generalizing s with
  | nil => exact iff_of_true nofun trivial
  | cons call calls ih =>
    have hone : (∃ value, (nativeStep frames s call).1 = .ok value) ↔ Shallow frames s call := by
      rcases nativeStep_cases frames s call with ⟨h, answer, s', hstep, -⟩ | ⟨h, s', hstep, -⟩
      · exact iff_of_true ⟨answer, by rw [hstep]⟩ h
      · refine iff_of_false ?_ h
        rw [hstep]
        rintro ⟨value, hvalue⟩
        cases hvalue
    rw [Run.replies, List.forall_mem_cons, hone, ih, Run.Each]

theorem nativeFramed_iff (frames : ℕ) (chunks : List Chunk) (calls : List ReadCall) :
    NativeFramed frames chunks calls ↔
      Run.Each (nativeStep frames) (Shallow frames) { coming := chunks } calls := by
  refine ⟨fun h => (native_returns_iff frames _ calls).mp h.returns, fun h => ?_⟩
  refine ⟨(native_returns_iff frames _ calls).mpr h, (native_delivers frames _ calls).framed, ?_⟩
  rintro before call after - answer s' hstep hnone
  rcases nativeStep_cases frames (Run.exec (nativeStep frames) { coming := chunks } before) call
    with ⟨-, answer', s'', hstep', hreads⟩ | ⟨-, s'', hstep', -⟩
  · rw [hstep] at hstep'
    obtain ⟨hanswer, rfl⟩ := Prod.mk.inj hstep'
    obtain rfl := Except.ok.inj hanswer
    exact ⟨hreads.drained hnone, hreads.ended⟩
  · rw [hstep] at hstep'
    cases (Prod.mk.inj hstep').1

end CommandSocket

/-! ## The serial worker -/

variable {F : Type}

/-- What became of a frame that was taken out: the loop gets it, a `should_cancel` (by its
number) took it for its cancellation, or an exception lost it. -/
inductive Fate
  | kept
  | cancels (request : ℕ)
  | lost
  deriving DecidableEq

/-- The frame source of the serial loop, with the `should_cancel` of the last request.
`requests`, `served` and `taken` are history: the requests for which a `should_cancel` was made,
the frames the loop got, and all frames with their fate. -/
structure SerialReader (F : Type) where
  socket : CommandSocket
  pendingLines : List Bytes := []
  cancelled : Bool := false
  requests : List (Json F) := []
  served : List Bytes := []
  taken : List (Bytes × Fate) := []

/-- The steps: the loop wants its next frame, a request is begun, its engine asks. -/
inductive SerialRead (F : Type)
  | nextLine
  | makeShouldCancel (requestId : Json F)
  | shouldCancel (ready : Bool)

/-- What a step answers. -/
inductive SerialAnswer
  | line (raw : Bytes)
  | made
  | cancel (answer : Except PyError Bool)

namespace SerialReader

variable (py : PyJson F) (same : Json F → Json F → Bool)

/-- `should_cancel` after its read. -/
def cancelAnswer (w : SerialReader F) (requestId : Json F) :
    Option Bytes → SerialAnswer × SerialReader F
  | none => (.cancel (.ok false), w)
  | some [] => (.cancel (.ok true), { w with cancelled := true })
  | some pending =>
      match isMatchingCancelRequest py same pending requestId with
      | .ok true => (.cancel (.ok true), { w with
          cancelled := true
          taken := w.taken ++ [(pending, .cancels (w.requests.length - 1))] })
      | .ok false => (.cancel (.ok false), { w with
          pendingLines := w.pendingLines ++ [pending], taken := w.taken ++ [(pending, .kept)] })
      | .error e => (.cancel (.error e), { w with taken := w.taken ++ [(pending, .lost)] })

/-- A step. -/
def step (w : SerialReader F) : SerialRead F → SerialAnswer × SerialReader F
  | .nextLine =>
      match w.pendingLines with
      | raw :: rest => (.line raw, { w with pendingLines := rest, served := w.served ++ [raw] })
      | [] =>
          match w.socket.readCommandLine true false with
          | (some (b :: raw), socket) => (.line (b :: raw), { w with
              socket := socket, served := w.served ++ [b :: raw]
              taken := w.taken ++ [(b :: raw, .kept)] })
          | (_, socket) => (.line [], { w with socket := socket })
  | .makeShouldCancel requestId =>
      (.made, { w with cancelled := false, requests := w.requests ++ [requestId] })
  | .shouldCancel ready =>
      match w.requests.getLast? with
      | none => (.cancel (.ok false), w)
      | some requestId =>
          if w.cancelled then (.cancel (.ok true), w)
          else cancelAnswer py same { w with socket := (w.socket.readCommandLine false ready).2 }
            requestId (w.socket.readCommandLine false ready).1

/-- A frame that an engine's question takes is one that `json.loads` reads, or refuses with an
exception that is caught. -/
def Loads (w : SerialReader F) : SerialRead F → Prop
  | .shouldCancel ready => w.cancelled = false → ∀ requestId ∈ w.requests.getLast?,
      ∀ line ∈ CommandSocket.frameOf (w.socket.readCommandLine false ready).1,
      ∃ answer, isMatchingCancelRequest py same line requestId = .ok answer
  | _ => True

/-- The frames that the loop got and those put aside are the frames of the stream in order, but
for one that cancels its request for each `should_cancel`. -/
structure SerialFramed (stream : Bytes) (w : SerialReader F) : Prop where
  framed : CommandSocket.Framed (w.taken.map Prod.fst) stream w.socket
  inOrder : w.served ++ w.pendingLines = (w.taken.filter (·.2 = .kept)).map Prod.fst
  matching : ∀ entry ∈ w.taken, entry.2 ≠ .kept → ∃ k requestId, entry.2 = .cancels k ∧
    w.requests[k]? = some requestId ∧ isMatchingCancelRequest py same entry.1 requestId = .ok true
  once : ∀ k, w.taken.countP (·.2 = .cancels k) ≤ 1

/-- Everything that came was handed over. -/
structure Ended (w : SerialReader F) : Prop where
  drained : w.socket.Drained
  coming : w.socket.coming = []
  pending : w.pendingLines = []

variable {py same} {chunks : List Chunk} {w : SerialReader F}

/-- `SerialFramed`, with what makes it inductive. -/
structure Inv (py : PyJson F) (same : Json F → Json F → Bool) (chunks : List Chunk)
    (w : SerialReader F) : Prop where
  delivers : CommandSocket.Delivers { coming := chunks } (w.taken.map Prod.fst) w.socket
  inOrder : w.served ++ w.pendingLines = (w.taken.filter (·.2 = .kept)).map Prod.fst
  matching : ∀ entry ∈ w.taken, entry.2 ≠ .kept → ∃ k requestId, entry.2 = .cancels k ∧
    w.requests[k]? = some requestId ∧ isMatchingCancelRequest py same entry.1 requestId = .ok true
  once : ∀ k, w.taken.countP (·.2 = .cancels k) ≤ 1
  /-- The last `should_cancel` has taken no cancellation before it remembers one. -/
  fresh : w.cancelled = false → ∀ entry ∈ w.taken, entry.2 ≠ .cancels (w.requests.length - 1)

theorem Inv.framed (h : Inv py same chunks w) :
    SerialFramed py same (chunks.flatMap Chunk.bytes) w :=
  ⟨h.delivers.framed, h.inOrder, h.matching, h.once⟩

theorem inv_init : Inv py same chunks { socket := { coming := chunks } } where
  delivers := .refl _
  inOrder := rfl
  matching _ h := nomatch h
  once _ := Nat.zero_le _
  fresh _ _ h := nomatch h

/-- A read that gave no frame. -/
theorem Inv.read (h : Inv py same chunks w) {socket : CommandSocket}
    (hsocket : CommandSocket.Delivers w.socket [] socket) :
    Inv py same chunks { w with socket := socket } := by
  refine ⟨?_, h.inOrder, h.matching, h.once, h.fresh⟩
  simpa using h.delivers.trans hsocket

/-- A frame is taken out and kept, for now or for later. -/
theorem Inv.keep (h : Inv py same chunks w) {socket : CommandSocket} {line : Bytes}
    {served pending : List Bytes} (hsocket : CommandSocket.Delivers w.socket [line] socket)
    (horder : served ++ pending = w.served ++ w.pendingLines ++ [line]) :
    Inv py same chunks { w with
      socket := socket, served := served, pendingLines := pending
      taken := w.taken ++ [(line, .kept)] } := by
  refine ⟨?_, ?_, fun entry hentry hkept => ?_, fun k => ?_, fun hfresh entry hentry => ?_⟩
  · simpa using h.delivers.trans hsocket
  · simp [horder, h.inOrder]
  · rcases List.mem_append.mp hentry with hentry | hentry
    · exact h.matching entry hentry hkept
    · obtain rfl := List.mem_singleton.mp hentry
      exact absurd rfl hkept
  · simpa using h.once k
  · rcases List.mem_append.mp hentry with hentry | hentry
    · exact h.fresh hfresh entry hentry
    · obtain rfl := List.mem_singleton.mp hentry
      simp

/-- A frame cancels the request of the last `should_cancel`. -/
theorem Inv.cancel (h : Inv py same chunks w) {socket : CommandSocket} {line : Bytes}
    {requestId : Json F} (hsocket : CommandSocket.Delivers w.socket [line] socket)
    (hlast : w.requests.getLast? = some requestId) (hnot : w.cancelled = false)
    (hmatching : isMatchingCancelRequest py same line requestId = .ok true) :
    Inv py same chunks { w with
      socket := socket, cancelled := true
      taken := w.taken ++ [(line, .cancels (w.requests.length - 1))] } := by
  refine ⟨?_, ?_, fun entry hentry hkept => ?_, fun k => ?_, nofun⟩
  · simpa using h.delivers.trans hsocket
  · simpa using h.inOrder
  · rcases List.mem_append.mp hentry with hentry | hentry
    · exact h.matching entry hentry hkept
    · obtain rfl := List.mem_singleton.mp hentry
      exact ⟨_, requestId, rfl, by rwa [← List.getLast?_eq_getElem?], hmatching⟩
  · by_cases hk : k = w.requests.length - 1
    · have hnone : w.taken.countP (·.2 = .cancels k) = 0 := by
        rw [List.countP_eq_zero, hk]
        simpa using h.fresh hnot
      rw [List.countP_append, hnone]
      simp [hk]
    · simpa [Ne.symm hk] using h.once k

theorem Inv.makeShouldCancel (h : Inv py same chunks w) (requestId : Json F) :
    Inv py same chunks { w with cancelled := false, requests := w.requests ++ [requestId] } := by
  have hlt {k : ℕ} {id : Json F} (hk : w.requests[k]? = some id) : k < w.requests.length :=
    (List.getElem?_eq_some_iff.mp hk).1
  refine ⟨h.delivers, h.inOrder, fun entry hentry hkept => ?_, h.once, fun _ entry hentry heq => ?_⟩
  · obtain ⟨k, id, hfate, hk, hmatching⟩ := h.matching entry hentry hkept
    exact ⟨k, id, hfate, by rw [List.getElem?_append_left (hlt hk), hk], hmatching⟩
  · obtain ⟨k, id, hfate, hk, -⟩ := h.matching entry hentry (by rw [heq]; nofun)
    rw [heq, List.length_append] at hfate
    injection hfate with hfate
    exact absurd (hlt hk) (by rw [← hfate]; simp)

theorem Inv.step (h : Inv py same chunks w) {op : SerialRead F} (hop : Loads py same w op) :
    Inv py same chunks (w.step py same op).2 := by
  cases op with
  | nextLine =>
    rw [SerialReader.step]
    cases hpending : w.pendingLines with
    | cons raw rest =>
      refine ⟨h.delivers, ?_, h.matching, h.once, h.fresh⟩
      simpa [hpending] using h.inOrder
    | nil =>
      have hreads := (w.socket.readCommandLine_reads true false).delivers
      generalize w.socket.readCommandLine true false = answer at hreads
      obtain ⟨_ | _ | ⟨b, raw⟩, socket⟩ := answer
      · simpa [hpending] using h.read hreads
      · simpa [hpending] using h.read hreads
      · exact h.keep hreads (by simp [hpending])
  | makeShouldCancel requestId => exact h.makeShouldCancel requestId
  | shouldCancel ready =>
    rw [SerialReader.step]
    cases hlast : w.requests.getLast? with
    | none => exact h
    | some requestId =>
      simp only
      split
      case isTrue => exact h
      case isFalse hcancelled =>
        have hnot : w.cancelled = false := by simpa using hcancelled
        have hreads := (w.socket.readCommandLine_reads false ready).delivers
        have hloads := hop hnot requestId hlast
        generalize w.socket.readCommandLine false ready = answer at hreads hloads
        obtain ⟨_ | _ | ⟨b, raw⟩, socket⟩ := answer
        · exact h.read hreads
        · have hread := h.read hreads
          exact ⟨hread.delivers, hread.inOrder, hread.matching, hread.once, nofun⟩
        · obtain ⟨matching, hmatching⟩ := hloads _ List.mem_cons_self
          cases matching with
          | true =>
            simp only [cancelAnswer, hmatching]
            exact h.cancel hreads hlast hnot hmatching
          | false =>
            simp only [cancelAnswer, hmatching]
            exact h.keep hreads (by simp)

/-- The loop stops at the end of the stream, with no frame left. -/
theorem Inv.ended (h : Inv py same chunks w) (hend : (w.step py same .nextLine).1 = .line []) :
    Ended (w.step py same .nextLine).2 := by
  simp only [SerialReader.step] at hend ⊢
  cases hpending : w.pendingLines with
  | cons raw rest =>
    have hraw : raw ∈ w.taken.map Prod.fst := by
      have hmem : raw ∈ w.served ++ w.pendingLines := by simp [hpending]
      rw [h.inOrder] at hmem
      obtain ⟨entry, hentry, rfl⟩ := List.mem_map.mp hmem
      exact List.mem_map_of_mem (List.mem_of_mem_filter hentry)
    obtain ⟨body, -, rfl⟩ := h.delivers.lines raw hraw
    rw [hpending] at hend
    injection hend with hnil
    simp at hnil
  | nil =>
    rw [hpending] at hend
    have hreads := w.socket.readCommandLine_reads true false
    have hblock := w.socket.readCommandLine_block false
    generalize w.socket.readCommandLine true false = answer at hend hreads hblock
    obtain ⟨_ | _ | ⟨b, raw⟩, socket⟩ := answer
    · exact absurd rfl hblock
    · exact ⟨hreads.drained rfl, hreads.ended rfl, rfl⟩
    · injection hend with hnil
      cases hnil

/-- An exception in an engine's question loses the frame. -/
theorem not_framed_of_lost {op : SerialRead F} {stream : Bytes} (hop : ¬ Loads py same w op) :
    ¬ SerialFramed py same stream (w.step py same op).2 := by
  cases op with
  | shouldCancel ready =>
    simp only [Loads, not_forall] at hop
    obtain ⟨hnot, requestId, hlast, line, hline, hraises⟩ := hop
    obtain ⟨e, he⟩ : ∃ e, isMatchingCancelRequest py same line requestId = .error e := by
      cases hmatching : isMatchingCancelRequest py same line requestId with
      | ok answer => exact absurd ⟨answer, hmatching⟩ hraises
      | error e => exact ⟨e, rfl⟩
    have hlost : (line, Fate.lost) ∈ (w.step py same (.shouldCancel ready)).2.taken := by
      rw [SerialReader.step, hlast, hnot]
      generalize w.socket.readCommandLine false ready = answer at hline
      obtain ⟨_ | _ | ⟨b, raw⟩, socket⟩ := answer
      · cases hline
      · cases hline
      · obtain rfl := List.mem_singleton.mp hline
        simp [cancelAnswer, he]
    intro h
    obtain ⟨k, id, hfate, -⟩ := h.matching _ hlost nofun
    cases hfate
  | nextLine | makeShouldCancel _ => exact absurd trivial hop

theorem inv_exec {ops : List (SerialRead F)}
    (hops : Run.Each (step py same) (Loads py same) { socket := { coming := chunks } } ops) :
    Inv py same chunks (Run.exec (step py same) { socket := { coming := chunks } } ops) := by
  have hstep : ∀ (w : SerialReader F) op, Inv py same chunks w → Loads py same w op →
      Inv py same chunks (w.step py same op).2 := fun w op h hop => h.step hop
  exact Run.exec_invariant hstep inv_init hops

end SerialReader

/-- **The frames of the stream, in order.** For every stream, however it comes in chunks: calls
of the native `_read_line` return its frames in order if and only if each of them receives fewer
chunks than the stack has frames for it.  The serial loop gets the frames in order, but for one
that cancels its request for each `should_cancel`, and stops with none left, as long as no
`should_cancel` raises. -/
theorem frames_in_order (py : PyJson F) (same : Json F → Json F → Bool) (chunks : List Chunk) :
    (∀ frames calls, CommandSocket.NativeFramed frames chunks calls ↔
      Run.Each (CommandSocket.nativeStep frames) (CommandSocket.Shallow frames)
        { coming := chunks } calls) ∧
    ∀ ops, Run.Each (SerialReader.step py same) (SerialReader.Loads py same)
        { socket := { coming := chunks } } ops →
      SerialReader.SerialFramed py same (chunks.flatMap Chunk.bytes)
        (Run.exec (SerialReader.step py same) { socket := { coming := chunks } } ops) ∧
      ∀ w, Run.exec (SerialReader.step py same) { socket := { coming := chunks } } ops = w →
        (w.step py same .nextLine).1 = .line [] → (w.step py same .nextLine).2.Ended := by
  refine ⟨fun frames calls => CommandSocket.nativeFramed_iff frames chunks calls,
    fun ops hops => ?_⟩
  have hinv := SerialReader.inv_exec hops
  exact ⟨hinv.framed, fun w hw => hw ▸ hinv.ended⟩

theorem isMatchingCancelRequest_noise (same : Json Empty → Json Empty → Bool)
    (requestId : Json Empty) :
    isMatchingCancelRequest plainJson same noiseLine requestId = .ok false := by
  rfl

/-- Two frames in three chunks. -/
def noiseChunks : List Chunk :=
  [⟨[110, 111], by decide, by decide⟩, ⟨[105, 115, 101, 10, 110], by decide, by decide⟩,
    ⟨[111, 105, 115, 101, 10], by decide, by decide⟩]

/-- The second frame comes while a request runs. -/
def noiseReads : List (SerialRead Empty) :=
  [.nextLine, .makeShouldCancel (.str "chat-1"), .shouldCancel true]

theorem frames_in_order_noise :
    CommandSocket.NativeFramed 3 noiseChunks [⟨true, [true]⟩, ⟨false, [true]⟩] ∧
    SerialReader.SerialFramed plainJson (fun _ _ => false) (noiseChunks.flatMap Chunk.bytes)
      (Run.exec (SerialReader.step plainJson fun _ _ => false)
        { socket := { coming := noiseChunks } } noiseReads) := by
  have hreads : Run.Each (SerialReader.step plainJson fun _ _ => false)
      (SerialReader.Loads plainJson fun _ _ => false) { socket := { coming := noiseChunks } }
      noiseReads := by
    refine ⟨trivial, trivial, fun _ requestId _ line hline => ⟨false, ?_⟩, trivial⟩
    obtain rfl : line = noiseLine := List.mem_singleton.mp hline
    exact isMatchingCancelRequest_noise _ requestId
  obtain ⟨hnative, hserial⟩ := frames_in_order plainJson (fun _ _ => false) noiseChunks
  refine ⟨(hnative 3 _).mpr ⟨?_, ?_, trivial⟩, (hserial noiseReads hreads).1⟩
  · change CommandSocket.chunksTaken _ _ _ _ < 3
    decide
  · change CommandSocket.chunksTaken _ _ _ _ < 3
    decide

/-- One byte of a frame that goes on. -/
def oneByte : Chunk := ⟨[120], by decide, by decide⟩

open CommandSocket in
/-- A call that finds no newline and a ready socket receives all there is. -/
theorem chunksTaken_oneByte {n m : ℕ} (hle : n ≤ m) {block : Bool} {s : CommandSocket}
    (hbuffer : newline ∉ s.buffer) :
    chunksTaken block (List.replicate m true) s (List.replicate n oneByte) = n := by
  induction n generalizing m block s with
  | zero => rfl
  | succ n ih =>
    obtain ⟨m, rfl⟩ : ∃ k, m = k + 1 := ⟨m - 1, by omega⟩
    have hnone : s.popBufferedLine = none := popBufferedLine_eq_none.mpr hbuffer
    have hnext : newline ∉ (s.extend oneByte (List.replicate n oneByte)).buffer := by
      rw [extend, List.mem_append, not_or]
      exact ⟨hbuffer, by decide⟩
    rw [List.replicate_succ, chunksTaken.eq_def]
    simp only [hnone, Option.isSome_none, Bool.false_or, List.replicate_succ, List.headD_cons,
      Bool.not_true, Bool.and_false, Bool.false_eq_true, if_false, List.tail_cons]
    cases block with
    | true => rw [if_pos rfl, ← List.replicate_succ, ih (Nat.le_of_succ_le hle) hnext]
    | false => rw [if_neg (by decide), ih (Nat.le_of_succ_le_succ hle) hnext]

/-- No stack is deep enough for every frame. -/
theorem depth_unbounded : ¬ ∃ frames, ∀ chunks calls,
    CommandSocket.NativeFramed frames chunks calls := by
  rintro ⟨frames, h⟩
  have hframed := h (List.replicate frames oneByte) [⟨true, List.replicate frames true⟩]
  have hshallow := ((CommandSocket.nativeFramed_iff frames _ _).mp hframed).1
  have htaken : CommandSocket.chunksTaken true (List.replicate frames true)
      { coming := List.replicate frames oneByte } (List.replicate frames oneByte) = frames :=
    chunksTaken_oneByte (Nat.le_refl frames) (by simp)
  rw [CommandSocket.Shallow, htaken] at hshallow
  exact Nat.lt_irrefl _ hshallow

end MlxRuntime
