import MlxRuntime.Lib.Lines
import MlxRuntime.Lib.Run
import MlxRuntime.Protocol.Status

/-!
# The bootstrap of a worker

`bootstrap_worker` reads lines from the socket of a worker until it is ready.  A read that
takes longer than 50 ms fails, and the loop turns: it looks at the shutdown flag, the deadline
and the process, and reads again.  `read_line` is `read_until` on a `BufReader`: what it read
before an error stays in the string, and the loop clears the string on every turn.

The results of the system calls and of the three checks are inputs of the steps.  A socket
is read in pieces of any size.

## Main definitions

* `Bootstrap`, `BootstrapOp`, `Bootstrap.step` — the loop, one system call or turn a step.
* `expected` — what the loop should act on, given the lines of the stream.
* `Bootstrap.Framed` — the loop acts on the lines of the stream, in order.
* `Bootstrap.Whole` — the steps that do not cut a line.
-/

namespace MlxRuntime

/-- How the loop ends by itself. -/
inductive BootstrapEnd
  | ready
  | rejected (error : WorkerError)
  | unrecognized (line : List Char)
  | notUtf8
  | closed
  | io (error : String)
  deriving DecidableEq

/-- The message of the error that `bootstrap_worker` returns. -/
def BootstrapEnd.message : BootstrapEnd → Option String
  | .ready => none
  | .rejected error => some error.message
  | .unrecognized line => some ("unrecognized bootstrap message: " ++ String.ofList (trim line))
  | .notUtf8 => some "stream did not contain valid UTF-8"
  | .closed => some "worker closed the bootstrap socket"
  | .io error => some error

/-- Where the loop is: at the top, in `read` with no bytes buffered, or out. -/
inductive BootstrapPhase
  | top
  | reading
  | interrupted (message : String)
  | ended (result : BootstrapEnd)
  deriving DecidableEq

/-- The loop.  `buffer` is the one of the `BufReader`, `acted` what the lines decoded to.
`received` and `taken` are history: the bytes of the stream so far, and the lines decoded. -/
structure Bootstrap where
  buffer : Bytes := []
  line : Bytes := []
  phase : BootstrapPhase := .top
  acted : List (Option WorkerMessage) := []
  received : Bytes := []
  taken : List Bytes := []
  deriving DecidableEq

/-- The result of `read`; no bytes are the end of the stream. -/
inductive SocketRead
  | data (bytes : Bytes)
  | timeout
  | interrupted
  | failed (error : String)
  deriving DecidableEq

/-- A step: the top of the loop with the result of its checks, or a system call. -/
inductive BootstrapOp
  | turn (check : Except String Unit)
  | read (result : SocketRead)

namespace Bootstrap

variable (json : BootstrapJson)

/-- The loop body after a line. -/
def act (b : Bootstrap) (text : List Char) : Bootstrap :=
  let message := decodeWorkerMessage json text
  let b := { b with acted := b.acted ++ [message], taken := b.taken ++ [b.line] }
  match message with
  | some (.status _) => { b with phase := .top }
  | some .ready => { b with phase := .ended .ready }
  | some (.error error) => { b with phase := .ended (.rejected error) }
  | none => { b with phase := .ended (.unrecognized text) }

/-- `read_line` returns. -/
def finish (b : Bootstrap) : Bootstrap :=
  match fromUtf8 b.line with
  | some text => b.act json text
  | none => { b with phase := .ended .notUtf8 }

/-- `read_until`, up to the next system call. -/
def scan (b : Bootstrap) : Bootstrap :=
  match Lines.cutLine newline b.buffer with
  | some (line, rest) => { b with line := b.line ++ line, buffer := rest }.finish json
  | none => { b with line := b.line ++ b.buffer, buffer := [], phase := .reading }

/-- A step, where it is enabled. -/
def step? (b : Bootstrap) (op : BootstrapOp) : Option Bootstrap :=
  match b.phase, op with
  | .top, .turn (.ok _) => some ({ b with line := [] }.scan json)
  | .top, .turn (.error message) => some { b with phase := .interrupted message }
  | .reading, .read (.data []) =>
      if b.line = [] then some { b with phase := .ended .closed } else some (b.finish json)
  | .reading, .read (.data bytes) =>
      some ({ b with buffer := bytes, received := b.received ++ bytes }.scan json)
  | .reading, .read .timeout => some { b with phase := .top }
  | .reading, .read .interrupted => some b
  | .reading, .read (.failed error) => some { b with phase := .ended (.io error) }
  | _, _ => none

/-- A step, answered with whether it was enabled. -/
def step (b : Bootstrap) (op : BootstrapOp) : Bool × Bootstrap :=
  match b.step? json op with
  | some b' => (true, b')
  | none => (false, b)

/-- What a loop acts on that reads these lines: their messages, up to the one that ends it. -/
def expected : List Bytes → List (Option WorkerMessage)
  | [] => []
  | line :: rest =>
      match fromUtf8 line with
      | none => []
      | some text =>
          match decodeWorkerMessage json text with
          | some (.status status) => some (.status status) :: expected rest
          | message => [message]

/-- The loop acts on the messages of the lines of the stream, in order, and on all of them
once it waits for bytes or is over. -/
structure Framed (b : Bootstrap) : Prop where
  lines : b.taken <+: Lines.lines newline b.received
  inOrder : b.acted <+: expected json (Lines.lines newline b.received)
  all : (b.phase = .reading ∨ ∃ result, b.phase = .ended result) →
    b.acted = expected json (Lines.lines newline b.received)
  /-- What is not recognized is a line of the stream. -/
  unrecognized : ∀ text, b.phase = .ended (.unrecognized text) →
    ∃ line ∈ Lines.lines newline b.received, fromUtf8 line = some text ∧
      decodeWorkerMessage json text = none

/-- The step does not cut a line: no timeout, and no end of the stream, after a line has begun.
A stream that ends in bytes that are no text ends with an error. -/
def Whole (b : Bootstrap) : BootstrapOp → Prop
  | .read .timeout => b.phase = .reading → b.line = []
  | .read (.data []) => b.phase = .reading → b.line = [] ∨ fromUtf8 b.line = none
  | _ => True

/-- Where the loop is after a message. -/
def phaseAfter (text : List Char) : Option WorkerMessage → BootstrapPhase
  | some (.status _) => .top
  | some .ready => .ended .ready
  | some (.error error) => .ended (.rejected error)
  | none => .ended (.unrecognized text)

theorem act_eq (b : Bootstrap) (text : List Char) :
    b.act json text = { b with
      acted := b.acted ++ [decodeWorkerMessage json text]
      taken := b.taken ++ [b.line]
      phase := phaseAfter text (decodeWorkerMessage json text) } := by
  simp only [act]
  rcases decodeWorkerMessage json text with _ | _ | _ | _ <;> rfl

/-! ## The invariant -/

variable {json : BootstrapJson} {b : Bootstrap}

/-- The lines read so far leave the loop running: what follows them is acted on after them. -/
def Running (json : BootstrapJson) (b : Bootstrap) : Prop :=
  (∀ line ∈ b.taken, Lines.Line newline line) ∧
    ∀ more, expected json (b.taken ++ more) = b.acted ++ expected json more

/-- The bytes received are the lines read, the line begun and the bytes buffered. -/
def Accounted (b : Bootstrap) : Prop :=
  b.received = b.taken.flatten ++ b.line ++ b.buffer ∧ newline ∉ b.line

/-- No byte is lost while the loop runs, and it is right when it is over. -/
def Inv (json : BootstrapJson) (b : Bootstrap) : Prop :=
  match b.phase with
  | .top | .interrupted _ => Running json b ∧ b.received = b.taken.flatten ++ b.buffer
  | .reading => Running json b ∧ Accounted b ∧ b.buffer = []
  | .ended _ => Framed json b

/-- While the loop runs, the lines of the stream are those read and those to come. -/
theorem Running.lines_received (h : Running json b) {rest : Bytes}
    (hreceived : b.received = b.taken.flatten ++ rest) :
    Lines.lines newline b.received = b.taken ++ Lines.lines newline rest := by
  rw [hreceived, Lines.lines_flatten_append h.1]

theorem Running.lines_accounted (h : Running json b) (hb : Accounted b) (hbuffer : b.buffer = []) :
    Lines.lines newline b.received = b.taken := by
  have hreceived : b.received = b.taken.flatten ++ b.line := by simp [hb.1, hbuffer]
  rw [h.lines_received hreceived, Lines.lines_of_notMem hb.2, List.append_nil]

/-- The loop is over without another line. -/
theorem Running.framed (h : Running json b)
    (hlines : Lines.lines newline b.received = b.taken) {result : BootstrapEnd}
    (hresult : ∀ text, result ≠ .unrecognized text) :
    Framed json { b with phase := .ended result } := by
  have hacted : b.acted = expected json (Lines.lines newline b.received) := by
    rw [hlines]
    simpa [expected] using (h.2 []).symm
  refine ⟨?_, ?_, fun _ => hacted, fun text htext => ?_⟩
  · exact hlines ▸ List.prefix_rfl
  · exact hacted ▸ List.prefix_rfl
  · exact absurd (BootstrapPhase.ended.inj htext) (hresult text)

theorem framed_of_inv (h : Inv json b) : Framed json b := by
  have hrunning (hr : Running json b) (rest : Bytes)
      (hreceived : b.received = b.taken.flatten ++ rest) (hphase : ∀ r, b.phase ≠ .ended r)
      (hall : b.phase = .reading → Lines.lines newline rest = []) : Framed json b := by
    have hlines := hr.lines_received hreceived
    refine ⟨hlines ▸ List.prefix_append .., ?_, fun hp => ?_, fun text ht => absurd ht (hphase _)⟩
    · rw [hlines, hr.2]
      exact List.prefix_append ..
    · rcases hp with hp | ⟨r, hp⟩
      · rw [hlines, hall hp, hr.2]
        simp [expected]
      · exact absurd hp (hphase r)
  cases hphase : b.phase with
  | top =>
      simp only [Inv, hphase] at h
      exact hrunning h.1 b.buffer h.2 (by simp [hphase]) (by simp [hphase])
  | interrupted message =>
      simp only [Inv, hphase] at h
      exact hrunning h.1 b.buffer h.2 (by simp [hphase]) (by simp [hphase])
  | reading =>
      simp only [Inv, hphase] at h
      obtain ⟨hr, hb, hbuffer⟩ := h
      refine hrunning hr b.line (by simp [hb.1, hbuffer]) (by simp [hphase]) fun _ => ?_
      exact Lines.lines_of_notMem hb.2
  | ended result => simpa only [Inv, hphase] using h

/-- The loop is over, and acted on every line up to the end. -/
theorem framed_ended {result : BootstrapEnd} (hphase : b.phase = .ended result)
    (htaken : b.taken <+: Lines.lines newline b.received)
    (hacted : b.acted = expected json (Lines.lines newline b.received))
    (hresult : ∀ text, result = .unrecognized text →
      ∃ line ∈ Lines.lines newline b.received, fromUtf8 line = some text ∧
        decodeWorkerMessage json text = none) : Framed json b where
  lines := htaken
  inOrder := hacted ▸ List.prefix_rfl
  all _ := hacted
  unrecognized text htext := hresult text (BootstrapPhase.ended.inj (hphase.symm.trans htext))

theorem inv_of_ended {result : BootstrapEnd} (hphase : b.phase = .ended result)
    (h : Framed json b) : Inv json b := by
  rw [Inv, hphase]
  exact h

/-- A line of the stream was read. -/
theorem inv_finish (h : Running json b) (hline : Lines.Line newline b.line)
    (hreceived : b.received = b.taken.flatten ++ b.line ++ b.buffer) :
    Inv json (b.finish json) := by
  have hlines : Lines.lines newline b.received =
      b.taken ++ b.line :: Lines.lines newline b.buffer := by
    have hrest : b.received = b.taken.flatten ++ (b.line ++ b.buffer) := by simp [hreceived]
    rw [h.lines_received hrest, Lines.lines_line_append hline]
  have hmem : b.line ∈ Lines.lines newline b.received := by simp [hlines]
  have htaken : b.taken ++ [b.line] <+: Lines.lines newline b.received := by
    rw [hlines]
    exact ⟨Lines.lines newline b.buffer, by simp⟩
  have hexpected : expected json (Lines.lines newline b.received) =
      b.acted ++ expected json (b.line :: Lines.lines newline b.buffer) := by rw [hlines, h.2]
  unfold finish
  cases htext : fromUtf8 b.line with
  | none =>
      refine inv_of_ended rfl (framed_ended rfl ?_ ?_ nofun)
      · exact (List.prefix_append ..).trans htaken
      · rw [hexpected]
        simp [expected, htext]
  | some text =>
      have hnext (m : Option WorkerMessage) (hm : decodeWorkerMessage json text = m)
          (hstatus : ∀ status, m ≠ some (.status status)) :
          b.acted ++ [m] = expected json (Lines.lines newline b.received) := by
        rw [hexpected, expected, htext]
        rcases m with _ | status | _ | error <;> simp only [hm]
        exact absurd rfl (hstatus status)
      simp only [act_eq]
      cases hm : decodeWorkerMessage json text with
      | none =>
          have hacted := hnext none hm (by simp)
          refine inv_of_ended rfl (framed_ended rfl htaken hacted fun text' ht => ?_)
          obtain rfl := BootstrapEnd.unrecognized.inj ht
          exact ⟨b.line, hmem, htext, hm⟩
      | some message =>
          cases message with
          | status status =>
              refine ⟨⟨fun line hl => ?_, fun more => ?_⟩, by simpa using hreceived⟩
              · rcases List.mem_append.mp hl with hl | hl
                · exact h.1 line hl
                · rwa [List.mem_singleton.mp hl]
              · rw [List.append_assoc, h.2, List.singleton_append, expected, htext]
                simp only [hm]
                rw [List.append_assoc, List.singleton_append]
          | ready =>
              have hacted := hnext _ hm (by simp)
              exact inv_of_ended rfl (framed_ended rfl htaken hacted (by simp))
          | error error =>
              have hacted := hnext _ hm (by simp)
              exact inv_of_ended rfl (framed_ended rfl htaken hacted (by simp))

theorem inv_scan (h : Running json b) (hb : Accounted b) : Inv json (b.scan json) := by
  unfold scan
  cases hcut : Lines.cutLine newline b.buffer with
  | none =>
      refine ⟨h, ⟨by simp [hb.1], ?_⟩, rfl⟩
      have hbuffer := Lines.cutLine_eq_none.mp hcut
      simp [hb.2, hbuffer]
  | some cut =>
      obtain ⟨line, rest⟩ := cut
      obtain ⟨hline, hbuffer⟩ := Lines.cutLine_eq_some hcut
      refine inv_finish (b := { b with line := b.line ++ line, buffer := rest }) h ?_ ?_
      · exact Lines.Line.append hb.2 hline
      · simp [hb.1, hbuffer]

theorem inv_step? {op : BootstrapOp} {b' : Bootstrap} (h : Inv json b) (hwhole : Whole b op)
    (hop : b.step? json op = some b') : Inv json b' := by
  cases hphase : b.phase with
  | top =>
      simp only [Inv, hphase] at h
      obtain ⟨hr, hreceived⟩ := h
      rcases op with ⟨error | _⟩ | result
      · obtain rfl : { b with phase := .interrupted error } = b' := by
          simpa [step?, hphase] using hop
        exact ⟨hr, hreceived⟩
      · obtain rfl : ({ b with line := [] } : Bootstrap).scan json = b' := by
          simpa [step?, hphase] using hop
        exact inv_scan hr ⟨by simpa using hreceived, nofun⟩
      · simp [step?, hphase] at hop
  | reading =>
      simp only [Inv, hphase] at h
      obtain ⟨hr, hb, hbuffer⟩ := h
      have hlines := hr.lines_accounted hb hbuffer
      rcases op with check | ⟨_ | ⟨byte, bytes⟩⟩ | _ | _ | error
      · simp [step?, hphase] at hop
      · by_cases hempty : b.line = []
        · obtain rfl : { b with phase := .ended .closed } = b' := by
            simpa [step?, hphase, hempty] using hop
          exact inv_of_ended rfl (hr.framed hlines nofun)
        · obtain rfl : b.finish json = b' := by simpa [step?, hphase, hempty] using hop
          have htext := (hwhole hphase).resolve_left hempty
          simp only [finish, htext]
          exact inv_of_ended rfl (hr.framed hlines nofun)
      · obtain rfl : ({ b with
            buffer := byte :: bytes, received := b.received ++ byte :: bytes } : Bootstrap).scan
              json = b' := by simpa [step?, hphase] using hop
        exact inv_scan hr ⟨by simp [hb.1, hbuffer], hb.2⟩
      · obtain rfl : { b with phase := .top } = b' := by simpa [step?, hphase] using hop
        exact ⟨hr, by simpa [hwhole hphase] using hb.1⟩
      · obtain rfl : b = b' := by simpa [step?, hphase] using hop
        simp only [Inv, hphase]
        exact ⟨hr, hb, hbuffer⟩
      · obtain rfl : { b with phase := .ended (.io error) } = b' := by
          simpa [step?, hphase] using hop
        exact inv_of_ended rfl (hr.framed hlines nofun)
  | interrupted message => simp [step?, hphase] at hop
  | ended result => simp [step?, hphase] at hop

theorem inv_step (h : Inv json b) {op : BootstrapOp} (hwhole : Whole b op) :
    Inv json (b.step json op).2 := by
  simp only [step]
  split
  case h_1 b' hop => exact inv_step? h hwhole hop
  case h_2 => exact h

theorem inv_init : Inv json {} := ⟨⟨nofun, fun _ => rfl⟩, rfl⟩

theorem inv_exec {ops : List BootstrapOp} (hops : Run.Each (step json) Whole {} ops) :
    Inv json (Run.exec (step json) {} ops) := by
  have hstep : ∀ (b : Bootstrap) (op : BootstrapOp), Inv json b → Whole b op →
      Inv json (b.step json op).2 := fun b op h hwhole => inv_step h hwhole
  exact Run.exec_invariant hstep inv_init hops

/-! ## Lines that are cut -/

/-- A line cut by a timeout is not read as it was sent. -/
theorem not_framed_of_timeout (h : Inv json b) (hphase : b.phase = .reading)
    (hline : b.line ≠ []) {bytes : Bytes} (hbytes : newline ∉ bytes)
    (htext : fromUtf8 (bytes ++ [newline]) ≠ none) :
    ¬ Framed json (Run.exec (step json) b
      [.read .timeout, .turn (.ok ()), .read (.data (bytes ++ [newline]))]) := by
  simp only [Inv, hphase] at h
  obtain ⟨hr, hb, hbuffer⟩ := h
  obtain ⟨text, htext⟩ := Option.ne_none_iff_exists'.mp htext
  have hrest : Lines.Line newline (bytes ++ [newline]) := ⟨bytes, hbytes, rfl⟩
  have hcut : Lines.cutLine newline (bytes ++ [newline]) = some (bytes ++ [newline], []) := by
    simpa using Lines.cutLine_line_append hrest []
  -- the line that was begun is cleared, and the rest is read as a line
  have hexec : Run.exec (step json) b
      [.read .timeout, .turn (.ok ()), .read (.data (bytes ++ [newline]))] =
      ({ b with
        line := bytes ++ [newline], phase := .reading
        received := b.received ++ (bytes ++ [newline]) } : Bootstrap).act json text := by
    have hne : bytes ++ [newline] ≠ [] := by simp
    have hread (b' : Bootstrap) (hphase' : b'.phase = .reading) (hline' : b'.line = []) :
        (b'.step json (.read (.data (bytes ++ [newline])))).2 =
          ({ b' with
            line := bytes ++ [newline], buffer := []
            received := b'.received ++ (bytes ++ [newline]) } : Bootstrap).act json text := by
      cases hdata : bytes ++ [newline] with
      | nil => exact absurd hdata hne
      | cons byte rest =>
          rw [hdata] at hcut htext
          simp [step, step?, hphase', scan, hcut, finish, hline', htext]
    simp only [Run.exec_cons, Run.exec_nil]
    rw [hread]
    all_goals simp [step, step?, hphase, scan, hbuffer, Lines.cutLine]
  rw [hexec, act_eq]
  intro hframed
  have hreceived : b.received ++ (bytes ++ [newline]) =
      b.taken.flatten ++ (b.line ++ (bytes ++ [newline])) := by simp [hb.1, hbuffer]
  have hlines : Lines.lines newline (b.received ++ (bytes ++ [newline])) =
      b.taken ++ [b.line ++ (bytes ++ [newline])] := by
    rw [hreceived, Lines.lines_flatten_append hr.1]
    simpa using Lines.lines_line_append (Lines.Line.append hb.2 hrest) []
  have hsame : bytes ++ [newline] = b.line ++ (bytes ++ [newline]) := by
    have := hframed.lines
    rw [hlines] at this
    simpa using this
  exact hline (by simpa using hsame)

/-- A line cut by the end of the stream is read although it is not one. -/
theorem not_framed_of_eof (h : Inv json b) (hphase : b.phase = .reading) (hline : b.line ≠ [])
    (htext : fromUtf8 b.line ≠ none) :
    ¬ Framed json (b.step json (.read (.data []))).2 := by
  simp only [Inv, hphase] at h
  obtain ⟨hr, hb, hbuffer⟩ := h
  obtain ⟨text, htext⟩ := Option.ne_none_iff_exists'.mp htext
  have hstep : (b.step json (.read (.data []))).2 = b.act json text := by
    simp [step, step?, hphase, hline, finish, htext]
  rw [hstep, act_eq]
  intro hframed
  have hlines := hframed.lines.length_le
  simp only [hr.lines_accounted hb hbuffer, List.length_append, List.length_singleton] at hlines
  omega

/-- **Framing.** If no timeout and no end of the stream falls inside a line, the loop acts on the
lines of the stream, however it is split.  Otherwise there is a way to go on after which it
does not. -/
theorem framed_of_whole (json : BootstrapJson) (ops : List BootstrapOp)
    (hops : Run.Each (step json) Whole {} ops) :
    (∀ before, before <+: ops → Framed json (Run.exec (step json) {} before)) ∧
    ∀ op, ((Run.exec (step json) {} ops).step json op).1 = true →
      ¬ Whole (Run.exec (step json) {} ops) op →
      ∃ more, ¬ Framed json (Run.exec (step json) {} (ops ++ op :: more)) := by
  refine ⟨fun before hbefore => ?_, fun op henabled hcut => ?_⟩
  · obtain ⟨after, rfl⟩ := hbefore
    exact framed_of_inv (inv_exec hops.of_append)
  · have h := inv_exec hops
    rcases op with check | ⟨_ | ⟨byte, bytes⟩⟩ | _ | _ | error
    · exact absurd trivial hcut
    · simp only [Whole, Classical.not_imp, not_or] at hcut
      refine ⟨[], ?_⟩
      rw [Run.exec_append]
      exact not_framed_of_eof h hcut.1 hcut.2.1 hcut.2.2
    · exact absurd trivial hcut
    · simp only [Whole, Classical.not_imp] at hcut
      refine ⟨[.turn (.ok ()), .read (.data ([] ++ [newline]))], ?_⟩
      rw [Run.exec_append]
      exact not_framed_of_timeout h hcut.1 hcut.2 List.not_mem_nil (by decide)
    · exact absurd trivial hcut
    · exact absurd trivial hcut

/-- Readers of JSON that accept nothing; the line `READY` has none. -/
def noJson : BootstrapJson := ⟨fun _ => none, fun _ => none⟩

/-- `READY` in two pieces, after a timeout. -/
def splitReady : List BootstrapOp :=
  [.turn (.ok ()), .read .timeout, .turn (.ok ()), .read (.data [82, 69]),
    .read (.data [65, 68, 89, 10])]

theorem splitReady_framed : Run.Each (step noJson) Whole {} splitReady ∧
    Framed noJson (Run.exec (step noJson) {} splitReady) := by
  have hops : Run.Each (step noJson) Whole {} splitReady :=
    ⟨trivial, fun _ => rfl, trivial, trivial, trivial, trivial⟩
  exact ⟨hops, (framed_of_whole noJson splitReady hops).1 _ List.prefix_rfl⟩

/-- `READY` in two pieces, with the timeout between them. -/
def cutReady : List BootstrapOp :=
  [.turn (.ok ()), .read (.data [82, 69]), .read .timeout, .turn (.ok ()),
    .read (.data [65, 68, 89, 10])]

/-- Then the rest of the line is not recognized. -/
theorem cutReady_unrecognized :
    (Run.exec (step noJson) {} cutReady).phase = .ended (.unrecognized ['A', 'D', 'Y', '\n']) ∧
    expected noJson (Lines.lines newline (Run.exec (step noJson) {} cutReady).received) =
      [some .ready] ∧
    ¬ Framed noJson (Run.exec (step noJson) {} cutReady) := by
  have hphase : (Run.exec (step noJson) {} cutReady).phase =
      .ended (.unrecognized ['A', 'D', 'Y', '\n']) := by decide
  have hexpected : expected noJson
      (Lines.lines newline (Run.exec (step noJson) {} cutReady).received) = [some .ready] := by
    decide
  have hacted : (Run.exec (step noJson) {} cutReady).acted = [none] := by decide
  refine ⟨hphase, hexpected, fun hframed => ?_⟩
  have hall := hframed.all (.inr ⟨_, hphase⟩)
  rw [hexpected, hacted] at hall
  cases hall

end Bootstrap
end MlxRuntime
