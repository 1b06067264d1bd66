import MlxRuntime.Benchmark.Reading

/-!
# What is left of a response

While a well-formed response is read, what has not been read is the end of it that belongs to
the phase of the reader.  When the reader returns, it has read the response to its last byte,
or the response ends where the connection does.

A response that is cut off ends in an error: once the end of the stream has cut a line, the
next thing that is awaited does not come.

## Main definitions

* `Remains py streaming r phase rest` — `rest` is what this phase has still to read of `r`.
* `Attributed py streaming r answer` — the answer is that of the body of `r`.
* `Tracks`, `Tracks.resume` — every step keeps to the response.
-/

namespace MlxRuntime.Benchmark

open Http Numerals

variable {F : Type} (py : Python F) {streaming : Bool} {r : Response}

/-! ## Chunks in any split -/

theorem split_append (xs ys : Bytes) : Lines.lines newline (xs ++ ys) =
      Lines.lines newline xs ++ Lines.lines newline (Lines.tail newline xs ++ ys) ∧
    Lines.tail newline (xs ++ ys) = Lines.tail newline (Lines.tail newline xs ++ ys) := by
  obtain ⟨hflat, hlines, -⟩ := @Lines.split_spec _ _ newline xs
  have heq : xs ++ ys = (Lines.lines newline xs).flatten ++ (Lines.tail newline xs ++ ys) := by
    rw [← List.append_assoc, hflat]
  constructor
  · conv_lhs => rw [heq]
    exact Lines.lines_flatten_append hlines _
  · conv_lhs => rw [heq]
    exact Lines.tail_flatten_append hlines _

/-- Two chunks are as good as one. -/
theorem Sink.feed_append {sink sink' sink'' : Sink F} {chunk chunk' : Bytes}
    (h : sink.feed py chunk = .ok sink') (h' : sink'.feed py chunk' = .ok sink'') :
    sink.feed py (chunk ++ chunk') = .ok sink'' := by
  cases sink with
  | joined body =>
      obtain rfl := Except.ok.inj h
      obtain rfl := Except.ok.inj h'
      rw [Sink.feed, List.append_assoc]
  | events buffer e =>
      obtain ⟨hlines, htail⟩ := split_append (buffer ++ chunk) chunk'
      rw [Sink.feed] at h
      cases hfold : (Lines.lines newline (buffer ++ chunk)).foldlM (Events.line py) e with
      | error raised =>
          rw [hfold] at h
          cases h
      | ok e' =>
          rw [hfold] at h
          obtain rfl := Except.ok.inj h
          rw [Sink.feed] at h'
          rw [Sink.feed, ← List.append_assoc, hlines, htail, List.foldlM_append, hfold]
          exact h'

/-- The sink holds what was taken of the body. -/
def Fed (streaming : Bool) (r : Response) (sink : Sink F) (taken : Bytes) : Prop :=
  (Sink.start streaming (valueOf 10 r.status)).feed py taken = .ok sink

theorem fed_start : Fed py streaming r (Sink.start streaming (valueOf 10 r.status)) [] := by
  rw [Fed, Sink.start]
  split <;> rfl

/-- The record of a body that is there at once. -/
def answerOf (streaming : Bool) (status : ℤ) (body : Bytes) : Except Raised (Answer F) := do
  (← (Sink.start streaming status).feed py body).finish py status

/-- The answer is that of the body, or of the part of a body that came before the connection
ended, when nothing but the end of the connection ends it. -/
def Attributed (streaming : Bool) (r : Response) (answer : Answer F) : Prop :=
  ∃ body, body <+: r.content ∧ (¬ r.UntilClosed → body = r.content) ∧
    answerOf py streaming (valueOf 10 r.status) body = .ok answer

/-! ## The head -/

/-- A header as it is kept. -/
def headerOf (f : HeaderField) : Bytes × Bytes :=
  ((stripBy isStrBlank f.name).map lower, stripBy isStrBlank (f.value ++ crlf))

/-- What is known behind some of the fields. -/
def headOf (r : Response) (fields : List HeaderField) : Head :=
  { version := Response.version, status := valueOf 10 r.status
    headers := (fields.map headerOf).reverse }

/-- What is still to be read. -/
def Remains (streaming : Bool) (r : Response) : Phase F → Bytes → Prop
  | .statusLine, rest => rest = r.bytes
  | .headers h, rest => ∃ read left, r.fields = read ++ left ∧ h = headOf r read ∧
      rest = left.flatMap HeaderField.bytes ++ (crlf ++ r.body.bytes)
  | .sizeLine h sink, rest => h = headOf r r.fields ∧ ∃ read left last trailers,
      r.body = .chunked (read ++ left) last trailers ∧
      Fed py streaming r sink (read.flatMap BodyChunk.data) ∧
      rest = left.flatMap BodyChunk.bytes ++ endBytes last trailers
  | .chunkData h sink size, rest => h = headOf r r.fields ∧ ∃ read c left last trailers,
      r.body = .chunked (read ++ c :: left) last trailers ∧
      Fed py streaming r sink (read.flatMap BodyChunk.data) ∧ size = c.data.length ∧
      rest = c.data ++ (crlf ++ (left.flatMap BodyChunk.bytes ++ endBytes last trailers))
  | .chunkEnd h sink data, rest => h = headOf r r.fields ∧ ∃ read c left last trailers,
      r.body = .chunked (read ++ c :: left) last trailers ∧
      Fed py streaming r sink (read.flatMap BodyChunk.data) ∧ data = c.data ∧
      rest = crlf ++ (left.flatMap BodyChunk.bytes ++ endBytes last trailers)
  | .trailers h sink, rest => h = headOf r r.fields ∧ ∃ chunks last read left,
      r.body = .chunked chunks last (read ++ left) ∧
      Fed py streaming r sink (chunks.flatMap BodyChunk.data) ∧
      rest = left.flatMap HeaderField.bytes ++ crlf
  | .fixed h sink remaining, rest => h = headOf r r.fields ∧ ∃ taken,
      r.body = .sized (taken ++ rest) ∧ Fed py streaming r sink taken ∧ remaining = rest.length
  | .untilClosed h sink, rest => h = headOf r r.fields ∧ ∃ taken,
      r.body = .untilClosed (taken ++ rest) ∧ Fed py streaming r sink taken

/-- What holds after a step that leaves `rest` unread. -/
def Consumed (streaming : Bool) (r : Response) (rest : Bytes) : Next F → Prop
  | .inl phase => Remains py streaming r phase rest
  | .inr (answer, reusable) => Attributed py streaming r answer ∧ (reusable → rest = [])

/-! ## Blanks and names -/

theorem isStrBlank_cases {b : UInt8} (h : isStrBlank b) :
    b ∈ ([9, 10, 11, 12, 13, 28, 29, 30, 31, 32, 133, 160] : Bytes) := by
  simp only [isStrBlank, Bool.or_eq_true, Bool.and_eq_true, decide_eq_true_eq,
    UInt8.le_iff_toNat_le, ← UInt8.toNat_inj, UInt8.reduceToNat] at h
  simp only [List.mem_cons, List.not_mem_nil, or_false, ← UInt8.toNat_inj, UInt8.reduceToNat]
  omega

theorem isStrBlank_of_isBytesBlank {b : UInt8} (h : isBytesBlank b) : isStrBlank b := by
  simp only [isBytesBlank, isStrBlank, Bool.or_eq_true, Bool.and_eq_true, decide_eq_true_eq,
    UInt8.le_iff_toNat_le, ← UInt8.toNat_inj, UInt8.reduceToNat] at h ⊢
  omega

/-- A blank is no digit. -/
theorem not_isStrBlank_of_digit {base : ℕ} {b : UInt8} (h : (digitIn base b).isSome) :
    isStrBlank b = false := by
  by_contra hblank
  rw [Bool.not_eq_false] at hblank
  have hmem := isStrBlank_cases hblank
  simp only [List.mem_cons, List.not_mem_nil, or_false] at hmem
  rcases hmem with rfl | rfl | rfl | rfl | rfl | rfl | rfl | rfl | rfl | rfl | rfl | rfl <;>
    exact digit_ne h _ rfl rfl

theorem not_isBytesBlank_of_digit {base : ℕ} {b : UInt8} (h : (digitIn base b).isSome) :
    isBytesBlank b = false := by
  by_contra hblank
  rw [Bool.not_eq_false] at hblank
  exact absurd (isStrBlank_of_isBytesBlank hblank) (by simp [not_isStrBlank_of_digit h])

theorem not_isStrBlank_of_nameChar {b : UInt8} (h : isNameChar b) : isStrBlank b = false := by
  rw [isNameChar, Bool.or_eq_true, decide_eq_true_eq] at h
  rcases h with h | h
  · exact not_isStrBlank_of_digit h
  · have hmarks : (ascii "!#$%&'*+-.^_`|~").all (! isStrBlank ·) := by decide
    simpa using List.all_eq_true.mp hmarks b h

/-- A blank is in no word of small letters. -/
theorem not_isStrBlank_of_lower {b : UInt8} {name : Bytes} (h : lower b ∈ name)
    (hname : name.all (! isStrBlank ·)) : isStrBlank b = false := by
  by_contra hblank
  rw [Bool.not_eq_false] at hblank
  have hlower : lower b = b := by
    have hmem := isStrBlank_cases hblank
    simp only [List.mem_cons, List.not_mem_nil, or_false] at hmem
    rcases hmem with rfl | rfl | rfl | rfl | rfl | rfl | rfl | rfl | rfl | rfl | rfl | rfl <;> rfl
  rw [hlower] at h
  have hnot := List.all_eq_true.mp hname b h
  rw [hblank] at hnot
  cases hnot

theorem isStrBlank_of_isBlank {b : UInt8} (h : isBlank b) : isStrBlank b := by
  rw [isBlank, Bool.or_eq_true, decide_eq_true_eq, decide_eq_true_eq] at h
  rcases h with rfl | rfl <;> rfl

theorem isBytesBlank_of_crlf {b : UInt8} (h : b ∈ crlf) : isBytesBlank b := by
  rw [crlf, List.mem_cons, List.mem_singleton] at h
  rcases h with rfl | rfl <;> rfl

/-- The value that is kept is what the field says. -/
theorem strip_says {f : HeaderField} {core : Bytes} (h : f.Says core)
    (hcore : ∀ b ∈ core, isStrBlank b = false) : stripBy isStrBlank (f.value ++ crlf) = core := by
  obtain ⟨left, right, hvalue, hleft, hright⟩ := h
  rw [hvalue, List.append_assoc, List.append_assoc]
  refine strip_pad (fun b hb => isStrBlank_of_isBlank (hleft b hb)) hcore fun b hb => ?_
  rcases List.mem_append.mp hb with hb | hb
  · exact isStrBlank_of_isBlank (hright b hb)
  · exact isStrBlank_of_isBytesBlank (isBytesBlank_of_crlf hb)

/-! ## What the fields say -/

theorem headerOf_named {f : HeaderField} (hf : f.WellFormed) {name : String} :
    (headerOf f).1 = ascii name ↔ f.Named name := by
  have hblank := fun b hb => not_isStrBlank_of_nameChar (hf.name b hb)
  rw [headerOf, strip_of_notBlank hblank, HeaderField.Named]

/-- A header is there when a field has its name, with the value of one of these. -/
theorem get_headOf (hr : r.WellFormed) (name : String) :
    ((headOf r r.fields).get name = none ∧ ∀ f ∈ r.fields, ¬ f.Named name) ∨
      ∃ f ∈ r.fields, f.Named name ∧
        (headOf r r.fields).get name = some (stripBy isStrBlank (f.value ++ crlf)) := by
  rw [Head.get, headOf]
  dsimp only
  cases hget : ((r.fields.map headerOf).reverse).lookup (ascii name) with
  | none =>
      refine .inl ⟨rfl, fun f hf hnamed => ?_⟩
      rw [List.lookup_eq_none_iff] at hget
      have hne := hget (headerOf f) (List.mem_reverse.mpr (List.mem_map_of_mem hf))
      exact absurd ((headerOf_named (hr.fields f hf)).mpr hnamed).symm (by simpa using hne)
  | some value =>
      have hmem := List.mem_reverse.mp (Json.mem_of_lookup hget)
      obtain ⟨f, hf, heq⟩ := List.mem_map.mp hmem
      refine .inr ⟨f, hf, (headerOf_named (hr.fields f hf)).mp (congrArg Prod.fst heq), ?_⟩
      exact congrArg some (congrArg Prod.snd heq).symm

/-- A body in chunks is announced. -/
theorem isChunked_headOf (hr : r.WellFormed) {chunks : List BodyChunk} {last : SizeLine}
    {trailers : List HeaderField} (hbody : r.body = .chunked chunks last trailers) :
    (headOf r r.fields).IsChunked := by
  have hframed := hr.framed
  rw [Response.Framed, hbody] at hframed
  obtain ⟨⟨f, hf, hnamed⟩, hcoding, -⟩ := hframed
  rcases get_headOf hr "transfer-encoding" with ⟨-, hnone⟩ | ⟨f', hf', hnamed', hget⟩
  · exact absurd hnamed (hnone f hf)
  · obtain ⟨coding, hsays, hlower⟩ := hcoding f' hf' hnamed'
    have hnot : ∀ b ∈ coding, isStrBlank b = false := by
      intro b hb
      have hmem : lower b ∈ ascii "chunked" := hlower ▸ List.mem_map_of_mem hb
      exact not_isStrBlank_of_lower hmem (by decide)
    rw [Head.IsChunked, hget, strip_says hsays hnot, Option.getD_some, hlower]

theorem not_isChunked_headOf (hr : r.WellFormed)
    (h : ∀ f ∈ r.fields, ¬ f.Named "transfer-encoding") : ¬ (headOf r r.fields).IsChunked := by
  rcases get_headOf hr "transfer-encoding" with ⟨hget, -⟩ | ⟨f, hf, hnamed, -⟩
  · rw [Head.IsChunked, hget]
    decide
  · exact absurd hnamed (h f hf)

/-- The length of a sized body is announced. -/
theorem get_contentLength (hr : r.WellFormed) {data : Bytes} (hbody : r.body = .sized data) :
    ∃ value, (headOf r r.fields).get "content-length" = some value ∧
      ∀ n, pyInt isStrBlank 10 value = some n → n = data.length := by
  have hframed := hr.framed
  rw [Response.Framed, hbody] at hframed
  obtain ⟨⟨f, hf, hnamed⟩, -, hlength⟩ := hframed
  rcases get_headOf hr "content-length" with ⟨-, hnone⟩ | ⟨f', hf', hnamed', hget⟩
  · exact absurd hnamed (hnone f hf)
  · obtain ⟨digits, hsays, hdigits, hvalue⟩ := hlength f' hf' hnamed'
    have hnot : ∀ b ∈ digits, isStrBlank b = false :=
      fun b hb => not_isStrBlank_of_digit (hdigits.2 b hb)
    refine ⟨digits, by rw [hget, strip_says hsays hnot], fun n hn => ?_⟩
    rw [pyInt_digits hnot hdigits hn, hvalue]

/-- A body that ends with the connection is not announced, and its connection is not used
again. -/
theorem headOf_untilClosed (hr : r.WellFormed) (h : r.UntilClosed) :
    ¬ (headOf r r.fields).IsChunked ∧ (headOf r r.fields).get "content-length" = none ∧
      ¬ (headOf r r.fields).Reusable := by
  obtain ⟨data, hbody⟩ := h
  have hframed := hr.framed
  rw [Response.Framed, hbody] at hframed
  have hchunked := not_isChunked_headOf hr fun f hf => (hframed f hf).2
  have hlength : (headOf r r.fields).get "content-length" = none := by
    rcases get_headOf hr "content-length" with ⟨hget, -⟩ | ⟨f, hf, hnamed, -⟩
    · exact hget
    · exact absurd hnamed (hframed f hf).1
  refine ⟨hchunked, hlength, fun hreusable => ?_⟩
  rcases hreusable.2.2 with hsome | hsome
  · rw [hlength] at hsome
    cases hsome
  · exact hchunked hsome

/-! ## The answers of the reader -/

/-- What an answer is: the front of the buffer, as much as was asked for. -/
theorem answer_ok {reader : StreamReader} {asked : Await} {bytes buffer : Bytes}
    (h : reader.answer asked = some (.ok bytes, buffer)) :
    reader.buffer = bytes ++ buffer ∧ match asked with
      | .line => Lines.Line newline bytes ∨ reader.eof ∧ buffer = [] ∧ newline ∉ bytes
      | .exactly n => bytes.length = n
      | .upTo n => bytes.length ≤ n ∧ (0 < n → bytes = [] → reader.eof)
      | .toEnd => True := by
  rw [StreamReader.answer.eq_def] at h
  cases hlost : reader.lost with
  | some raised => simp [hlost] at h
  | none =>
      rw [hlost] at h
      cases asked with
      | line =>
          cases hcut : Lines.cutLine newline reader.buffer with
          | some cut =>
              obtain ⟨line, rest⟩ := cut
              simp only [hcut] at h
              split at h
              · simp at h
              · obtain ⟨hline, hbuffer⟩ := Lines.cutLine_eq_some hcut
                simp only [Option.some.injEq, Prod.mk.injEq, Except.ok.injEq] at h
                obtain ⟨rfl, rfl⟩ := h
                exact ⟨hbuffer, .inl hline⟩
          | none =>
              simp only [hcut] at h
              split_ifs at h with hlong heof
              · simp at h
              · simp only [Option.some.injEq, Prod.mk.injEq, Except.ok.injEq] at h
                obtain ⟨rfl, rfl⟩ := h
                exact ⟨(List.append_nil _).symm, .inr ⟨heof, rfl, Lines.cutLine_eq_none.mp hcut⟩⟩
      | exactly n =>
          dsimp only at h
          split_ifs at h with hle
          · simp only [Option.some.injEq, Prod.mk.injEq, Except.ok.injEq] at h
            obtain ⟨rfl, rfl⟩ := h
            exact ⟨(List.take_append_drop n _).symm, List.length_take_of_le hle⟩
          · simp at h
      | upTo n =>
          dsimp only at h
          split_ifs at h with hwait
          simp only [Option.some.injEq, Prod.mk.injEq, Except.ok.injEq] at h
          obtain ⟨rfl, rfl⟩ := h
          refine ⟨(List.take_append_drop n _).symm, List.length_take_le _ _, fun hpos hnil => ?_⟩
          rcases List.take_eq_nil_iff.mp hnil with hzero | hempty
          · omega
          · simpa [hempty] using hwait
      | toEnd =>
          dsimp only at h
          split_ifs at h
          simp only [Option.some.injEq, Prod.mk.injEq, Except.ok.injEq] at h
          obtain ⟨rfl, rfl⟩ := h
          exact ⟨(List.append_nil _).symm, trivial⟩

/-! ## The ends of the body -/

theorem cut_append {sep : UInt8} {text : Bytes} (h : sep ∉ text) (rest : Bytes) :
    cut sep (text ++ sep :: rest) = some (text, rest) := by
  have heq : text ++ sep :: rest = (text ++ [sep]) ++ rest := by simp
  rw [cut, heq, Lines.cutLine_line_append ⟨text, h, rfl⟩]
  simp

variable {py}

/-- The chunk goes to the sink. -/
theorem Fed.feed {sink sink' : Sink F} {taken chunk : Bytes}
    (h : Fed py streaming r sink taken) (hfeed : sink.feed py chunk = .ok sink') :
    Fed py streaming r sink' (taken ++ chunk) :=
  Sink.feed_append py h hfeed

/-- A reader that returns has the answer of what it has taken. -/
theorem returned_eq {h : Head} {sink : Sink F} {next : Next F}
    (hnext : returned py h sink = .ok next) :
    ∃ answer, sink.finish py h.status = .ok answer ∧ next = .inr (answer, decide h.Reusable) := by
  rw [returned] at hnext
  cases hfinish : sink.finish py h.status with
  | error raised =>
      rw [hfinish] at hnext
      cases hnext
  | ok answer =>
      rw [hfinish] at hnext
      exact ⟨answer, rfl, (Except.ok.inj hnext).symm⟩

theorem consumed_returned {sink : Sink F} {taken rest : Bytes} {next : Next F}
    (hfed : Fed py streaming r sink taken)
    (hnext : returned py (headOf r r.fields) sink = .ok next) (hfront : taken <+: r.content)
    (hall : ¬ r.UntilClosed → taken = r.content)
    (hrest : (headOf r r.fields).Reusable → rest = []) :
    Consumed py streaming r rest next := by
  obtain ⟨answer, hfinish, rfl⟩ := returned_eq hnext
  refine ⟨⟨taken, hfront, hall, ?_⟩, fun h => hrest (of_decide_eq_true h)⟩
  rw [answerOf, show (Sink.start streaming _).feed py taken = .ok sink from hfed]
  exact hfinish

/-- The whole content was taken. -/
theorem consumed_returned_all {sink : Sink F} {next : Next F}
    (hfed : Fed py streaming r sink r.content)
    (hnext : returned py (headOf r r.fields) sink = .ok next) :
    Consumed py streaming r [] next :=
  consumed_returned hfed hnext List.prefix_rfl (fun _ => rfl) fun _ => rfl

/-! ## Each phase -/

theorem resume_statusLine (hr : r.WellFormed) {next : Next F}
    (h : readStatusLine py r.statusLine = .ok next) :
    Consumed py streaming r (r.fields.flatMap HeaderField.bytes ++ (crlf ++ r.body.bytes))
      next := by
  have hne : r.statusLine ≠ [] := by simp [Response.statusLine]
  have hversion : 32 ∉ Response.version := by decide
  have hstatus : 32 ∉ r.status := fun hmem =>
    digit_ne (hr.status.2 _ hmem) 32 rfl rfl
  have hblank : ∀ b ∈ r.status, isStrBlank b = false :=
    fun b hb => not_isStrBlank_of_digit (hr.status.2 b hb)
  rw [readStatusLine, if_neg hne, Response.statusLine, cut_append hversion] at h
  dsimp only at h
  rw [cut_append hstatus] at h
  dsimp only at h
  cases hint : pyInt isStrBlank 10 r.status with
  | none =>
      rw [hint] at h
      cases h
  | some status =>
      rw [hint] at h
      obtain rfl := Except.ok.inj h
      obtain rfl := pyInt_digits hblank hr.status hint
      exact ⟨[], r.fields, rfl, rfl, rfl⟩

theorem startBody_consumed (hr : r.WellFormed) {next : Next F}
    (h : startBody py streaming (headOf r r.fields) = .ok next) :
    Consumed py streaming r r.body.bytes next := by
  have hstart : Fed py streaming r (Sink.start streaming (headOf r r.fields).status) [] :=
    fed_start py
  rw [startBody] at h
  cases hbody : r.body with
  | chunked chunks last trailers =>
      rw [if_pos (isChunked_headOf hr hbody)] at h
      obtain rfl := Except.ok.inj h
      exact ⟨rfl, [], chunks, last, trailers, hbody, hstart, rfl⟩
  | sized data =>
      have hframed := hr.framed
      rw [Response.Framed, hbody] at hframed
      obtain ⟨value, hget, hlength⟩ := get_contentLength hr hbody
      rw [if_neg (not_isChunked_headOf hr hframed.2.1), hget] at h
      dsimp only at h
      cases hint : pyInt isStrBlank 10 value with
      | none =>
          rw [hint] at h
          cases h
      | some n =>
          rw [hint] at h
          obtain rfl := hlength n hint
          dsimp only at h
          split at h
          case isTrue hzero =>
              obtain rfl : data = [] := List.length_eq_zero_iff.mp (by exact_mod_cast hzero)
              have hcontent : r.content = [] := by rw [Response.content, hbody]
              exact consumed_returned_all (hcontent ▸ hstart) h
          case isFalse =>
              obtain rfl := Except.ok.inj h
              exact ⟨rfl, [], hbody, hstart, rfl⟩
  | untilClosed data =>
      obtain ⟨hchunked, hlength, -⟩ := headOf_untilClosed hr ⟨data, hbody⟩
      rw [if_neg hchunked, hlength] at h
      obtain rfl := Except.ok.inj h
      exact ⟨rfl, [], hbody, hstart⟩

/-- A field is no blank line, and it is cut at the colon behind its name. -/
theorem readHeader_field {f : HeaderField} (hf : f.WellFormed) (h : Head) :
    readHeader py streaming h f.bytes =
      .ok (.inl (.headers { h with headers := headerOf f :: h.headers })) := by
  have hcolon : 58 ∉ f.name := fun hmem => absurd (hf.name _ hmem) (by decide)
  have hmem : 58 ∈ f.bytes := by simp [HeaderField.bytes]
  have hnot : ¬ (f.bytes = crlf ∨ f.bytes = [newline]) := by
    rintro (heq | heq) <;> rw [heq] at hmem <;> exact absurd hmem (by decide)
  rw [readHeader, if_neg hnot, if_neg (List.ne_nil_of_mem hmem), HeaderField.bytes,
    cut_append hcolon]
  rfl

theorem resume_headers (hr : r.WellFormed) {read left : List HeaderField} {line rest : Bytes}
    {next : Next F} (hfields : r.fields = read ++ left) (hline : Lines.Line newline line)
    (hrest : left.flatMap HeaderField.bytes ++ (crlf ++ r.body.bytes) = line ++ rest)
    (h : readHeader py streaming (headOf r read) line = .ok next) :
    Consumed py streaming r rest next := by
  cases left with
  | nil =>
      obtain ⟨rfl, rfl⟩ := line_unique line_crlf hline hrest
      rw [List.append_nil] at hfields
      rw [readHeader, if_pos (.inl rfl), ← hfields] at h
      exact startBody_consumed hr h
  | cons f left =>
      have hf := hr.fields f (by simp [hfields])
      rw [List.flatMap_cons, List.append_assoc] at hrest
      obtain ⟨rfl, rfl⟩ := line_unique hf.line hline hrest
      rw [readHeader_field hf] at h
      obtain rfl := Except.ok.inj h
      exact ⟨read ++ [f], left, by simp [hfields], by simp [headOf], rfl⟩

/-- In front of the semicolon stands the size, and perhaps blanks. -/
theorem strip_sizeLine {l : SizeLine} (hl : l.WellFormed) :
    stripBy isBytesBlank (l.bytes.takeWhile (· ≠ 59)) = l.size := by
  have hdigit : ∀ b ∈ l.size, decide (b ≠ 59) = true := fun b hb =>
    decide_eq_true (digit_ne (hl.size.2 b hb) 59 rfl)
  have hsize : ∀ b ∈ l.size, isBytesBlank b = false := fun b hb =>
    not_isBytesBlank_of_digit (hl.size.2 b hb)
  have hpad : ∀ b ∈ (l.extension ++ crlf).takeWhile (· ≠ 59), isBytesBlank b := by
    have hblank : ∀ b ∈ l.extension.takeWhile isBlank, isBytesBlank b ∧ decide (b ≠ 59) := by
      intro b hb
      have hb := List.mem_takeWhile_imp hb
      rw [isBlank, Bool.or_eq_true, decide_eq_true_eq, decide_eq_true_eq] at hb
      rcases hb with rfl | rfl <;> exact ⟨rfl, rfl⟩
    have hsplit := List.takeWhile_append_dropWhile (p := isBlank) (l := l.extension)
    intro b hb
    cases hdrop : l.extension.dropWhile isBlank with
    | nil =>
        rw [hdrop, List.append_nil] at hsplit
        rcases List.mem_append.mp ((List.takeWhile_prefix _).subset hb) with hb | hb
        · exact (hblank b (by rw [hsplit]; exact hb)).1
        · exact isBytesBlank_of_crlf hb
    | cons c rest =>
        obtain rfl : c = 59 := hl.semicolon c (by rw [hdrop]; rfl)
        rw [← hsplit, hdrop, List.append_assoc,
          List.takeWhile_append_of_pos fun b hb => (hblank b hb).2, List.cons_append,
          List.takeWhile_cons_of_neg (by decide), List.append_nil] at hb
        exact (hblank b hb).1
  rw [SizeLine.bytes, List.takeWhile_append_of_pos hdigit]
  have hnil : ∀ b ∈ ([] : Bytes), isBytesBlank b := fun b hb => absurd hb List.not_mem_nil
  exact strip_pad hnil hsize hpad

theorem readSize_line {l : SizeLine} (hl : l.WellFormed) {h : Head} {sink : Sink F} {next : Next F}
    (hnext : readSize py h sink l.bytes = .ok next) :
    next = if valueOf 16 l.size = 0 then .inl (.trailers h sink)
      else .inl (.chunkData h sink (valueOf 16 l.size)) := by
  have hne : l.bytes ≠ [] := by simp [SizeLine.bytes, crlf]
  have hblank : ∀ b ∈ l.size, isBytesBlank b = false := fun b hb =>
    not_isBytesBlank_of_digit (hl.size.2 b hb)
  rw [readSize, if_neg hne, strip_sizeLine hl] at hnext
  cases hint : pyInt isBytesBlank 16 l.size with
  | none =>
      rw [hint] at hnext
      cases hnext
  | some n =>
      rw [hint] at hnext
      obtain rfl := pyInt_digits hblank hl.size hint
      have hnot : ¬ (valueOf 16 l.size : ℤ) < 0 := by omega
      simp only [Nat.cast_eq_zero, if_neg hnot, Int.toNat_natCast] at hnext
      split_ifs at hnext ⊢ <;> exact (Except.ok.inj hnext).symm

theorem resume_sizeLine (hr : r.WellFormed) {sink : Sink F} {read left : List BodyChunk}
    {last : SizeLine} {trailers : List HeaderField} {line rest : Bytes} {next : Next F}
    (hbody : r.body = .chunked (read ++ left) last trailers)
    (hfed : Fed py streaming r sink (read.flatMap BodyChunk.data)) (hline : Lines.Line newline line)
    (hrest : left.flatMap BodyChunk.bytes ++ endBytes last trailers = line ++ rest)
    (h : readSize py (headOf r r.fields) sink line = .ok next) :
    Consumed py streaming r rest next := by
  have hframed := hr.framed
  rw [Response.Framed, hbody] at hframed
  obtain ⟨-, -, hchunks, ⟨hlast, hzero⟩, -⟩ := hframed
  cases left with
  | nil =>
      obtain ⟨rfl, rfl⟩ := line_unique hlast.line hline hrest
      rw [List.append_nil] at hbody
      rw [readSize_line hlast h, if_pos hzero]
      exact ⟨rfl, read, last, [], trailers, hbody, hfed, rfl⟩
  | cons c left =>
      have hc := hchunks c (by simp)
      rw [List.flatMap_cons, BodyChunk.bytes, List.append_assoc, List.append_assoc] at hrest
      obtain ⟨rfl, rfl⟩ := line_unique hc.line.line hline hrest
      have hpos : valueOf 16 c.size ≠ 0 := by
        rw [hc.size]
        exact mt List.length_eq_zero_iff.mp hc.data
      rw [readSize_line hc.line h, if_neg hpos]
      exact ⟨rfl, read, c, left, last, trailers, hbody, hfed, hc.size, by rw [List.append_assoc]⟩

theorem resume_trailers (hr : r.WellFormed) {sink : Sink F} {chunks : List BodyChunk}
    {last : SizeLine} {read left : List HeaderField} {line rest : Bytes} {next : Next F}
    (hbody : r.body = .chunked chunks last (read ++ left))
    (hfed : Fed py streaming r sink (chunks.flatMap BodyChunk.data))
    (hline : Lines.Line newline line)
    (hrest : left.flatMap HeaderField.bytes ++ crlf = line ++ rest)
    (h : Phase.resume py streaming (.trailers (headOf r r.fields) sink) line = .ok next) :
    Consumed py streaming r rest next := by
  have hframed := hr.framed
  rw [Response.Framed, hbody] at hframed
  obtain ⟨-, -, -, -, htrailers⟩ := hframed
  rw [Phase.resume] at h
  cases left with
  | nil =>
      obtain ⟨rfl, rfl⟩ := line_unique line_crlf hline (hrest.trans rfl : crlf ++ [] = line ++ rest)
      rw [if_pos (.inl rfl)] at h
      have hcontent : r.content = chunks.flatMap BodyChunk.data := by rw [Response.content, hbody]
      exact consumed_returned_all (hcontent ▸ hfed) h
  | cons f left =>
      have hf := htrailers f (by simp)
      have hmem : 58 ∈ f.bytes := by simp [HeaderField.bytes]
      have hnot : ¬ (f.bytes = crlf ∨ f.bytes = [newline]) := by
        rintro (heq | heq) <;> rw [heq] at hmem <;> exact absurd hmem (by decide)
      rw [List.flatMap_cons, List.append_assoc] at hrest
      obtain ⟨rfl, rfl⟩ := line_unique hf.line hline hrest
      rw [if_neg hnot, if_neg (List.ne_nil_of_mem hmem)] at h
      obtain rfl := Except.ok.inj h
      exact ⟨rfl, chunks, last, read ++ [f], left, by simp [hbody], hfed, rfl⟩

/-! ## Cut lines -/

/-- What is awaited next does not come when the stream has ended. -/
def Doomed : Phase F → Prop
  | .headers _ | .trailers .. => True
  | .chunkData _ _ size => 0 < size
  | _ => False

/-- A line that is cut off leads to where nothing more comes. -/
theorem resume_cut {phase : Phase F} {line : Bytes} {next : Next F} (hasks : phase.awaits = .line)
    (hline : newline ∉ line) (h : phase.resume py streaming line = .ok next) :
    ∃ phase', next = .inl phase' ∧ Doomed phase' := by
  have hnot : ¬ (line = crlf ∨ line = [newline]) := by
    rintro (rfl | rfl) <;> exact hline (by decide)
  cases phase with
  | statusLine =>
      rw [Phase.resume, readStatusLine] at h
      split at h
      · cases h
      split at h
      · cases h
      split at h
      · cases h
      split at h
      · cases h
      · exact ⟨_, (Except.ok.inj h).symm, trivial⟩
  | headers head =>
      rw [Phase.resume, readHeader, if_neg hnot] at h
      split at h
      · cases h
      split at h
      · cases h
      · exact ⟨_, (Except.ok.inj h).symm, trivial⟩
  | sizeLine head sink =>
      rw [Phase.resume, readSize] at h
      split at h
      · cases h
      split at h
      · cases h
      split_ifs at h with hzero hneg
      · exact ⟨_, (Except.ok.inj h).symm, trivial⟩
      · refine ⟨_, (Except.ok.inj h).symm, ?_⟩
        rw [Doomed]
        omega
  | trailers head sink =>
      rw [Phase.resume, if_neg hnot] at h
      split at h
      · cases h
      · exact ⟨_, (Except.ok.inj h).symm, trivial⟩
  | chunkData | chunkEnd | untilClosed => cases hasks
  | fixed head sink remaining =>
      rw [Phase.awaits] at hasks
      split at hasks <;> cases hasks

/-- Nothing good comes of a phase that is doomed. -/
theorem resume_doomed {phase : Phase F} {reader : StreamReader} {bytes buffer : Bytes}
    {next : Next F} (hdoomed : Doomed phase) (hempty : reader.buffer = [])
    (hanswer : reader.answer phase.awaits = some (.ok bytes, buffer))
    (h : phase.resume py streaming bytes = .ok next) : False := by
  obtain ⟨hbuffer, hasked⟩ := answer_ok hanswer
  obtain ⟨rfl, rfl⟩ := List.append_eq_nil_iff.mp (hbuffer.symm.trans hempty)
  cases phase with
  | headers head =>
      rw [Phase.resume, readHeader, if_neg (by decide), if_pos rfl] at h
      cases h
  | trailers head sink =>
      rw [Phase.resume, if_neg (by decide), if_pos rfl] at h
      cases h
  | chunkData head sink size =>
      change [].length = size at hasked
      rw [List.length_nil] at hasked
      exact absurd hdoomed (by rw [Doomed]; omega)
  | statusLine | sizeLine | chunkEnd | fixed | untilClosed => exact hdoomed

/-! ## Every step -/

/-- The reader of a connection, in a phase and with `coming` still to come, keeps to the
response, or the end of the stream has cut a line. -/
def Tracks (py : Python F) (streaming : Bool) (r : Response) (phase : Phase F)
    (reader : StreamReader) (coming : Bytes) : Prop :=
  Remains py streaming r phase (reader.buffer ++ coming) ∨
    reader.eof ∧ reader.buffer = [] ∧ Doomed phase

/-- A line that is awaited is a whole one, or cut off. -/
theorem resume_line {phase : Phase F} {reader : StreamReader} {coming bytes buffer : Bytes}
    {next : Next F} (hasks : phase.awaits = .line)
    (hwhole : Lines.Line newline bytes → reader.buffer ++ coming = bytes ++ (buffer ++ coming) →
      Consumed py streaming r (buffer ++ coming) next)
    (hanswer : reader.answer phase.awaits = some (.ok bytes, buffer))
    (h : phase.resume py streaming bytes = .ok next) :
    Consumed py streaming r (buffer ++ coming) next ∨
      reader.eof ∧ buffer = [] ∧ ∃ phase', next = .inl phase' ∧ Doomed phase' := by
  rw [hasks] at hanswer
  obtain ⟨hbuffer, hline | ⟨heof, hempty, hcut⟩⟩ := answer_ok hanswer
  · exact .inl (hwhole hline (by rw [hbuffer, List.append_assoc]))
  · exact .inr ⟨heof, hempty, resume_cut hasks hcut h⟩

/-- **A step of the reader** takes from the response what belongs to its phase. -/
theorem Tracks.resume {phase : Phase F} {reader : StreamReader} {coming bytes buffer : Bytes}
    {next : Next F} (hr : r.WellFormed) (h : Tracks py streaming r phase reader coming)
    (hanswer : reader.answer phase.awaits = some (.ok bytes, buffer))
    (hnext : phase.resume py streaming bytes = .ok next) :
    Consumed py streaming r (buffer ++ coming) next ∨
      reader.eof ∧ buffer = [] ∧ ∃ phase', next = .inl phase' ∧ Doomed phase' := by
  rcases h with h | ⟨-, hempty, hdoomed⟩
  swap
  · exact (resume_doomed hdoomed hempty hanswer hnext).elim
  cases phase with
  | statusLine =>
      refine resume_line rfl (fun hline heq => ?_) hanswer hnext
      obtain ⟨rfl, hrest⟩ := line_unique hr.line hline ((show _ = r.bytes from h).symm.trans heq)
      rw [← hrest]
      exact resume_statusLine hr hnext
  | headers head =>
      obtain ⟨read, left, hfields, rfl, hrest⟩ := h
      exact resume_line rfl (fun hline heq => resume_headers hr hfields hline
        (hrest.symm.trans heq) hnext) hanswer hnext
  | sizeLine head sink =>
      obtain ⟨rfl, read, left, last, trailers, hbody, hfed, hrest⟩ := h
      exact resume_line rfl (fun hline heq => resume_sizeLine hr hbody hfed hline
        (hrest.symm.trans heq) hnext) hanswer hnext
  | trailers head sink =>
      obtain ⟨rfl, chunks, last, read, left, hbody, hfed, hrest⟩ := h
      exact resume_line rfl (fun hline heq => resume_trailers hr hbody hfed hline
        (hrest.symm.trans heq) hnext) hanswer hnext
  | chunkData head sink size =>
      obtain ⟨rfl, read, c, left, last, trailers, hbody, hfed, rfl, hrest⟩ := h
      obtain ⟨hbuffer, hlength⟩ := answer_ok hanswer
      rw [hbuffer, List.append_assoc] at hrest
      obtain ⟨rfl, hafter⟩ := List.append_inj hrest hlength
      obtain rfl := Except.ok.inj hnext
      exact .inl ⟨rfl, read, c, left, last, trailers, hbody, hfed, rfl, hafter⟩
  | chunkEnd head sink data =>
      obtain ⟨rfl, read, c, left, last, trailers, hbody, hfed, rfl, hrest⟩ := h
      obtain ⟨hbuffer, hlength⟩ := answer_ok hanswer
      rw [hbuffer, List.append_assoc] at hrest
      obtain ⟨rfl, hafter⟩ := List.append_inj hrest hlength
      rw [Phase.resume, if_neg (not_not.mpr rfl)] at hnext
      cases hfeed : sink.feed py c.data with
      | error raised =>
          rw [hfeed] at hnext
          cases hnext
      | ok sink' =>
          rw [hfeed] at hnext
          obtain rfl := Except.ok.inj hnext
          have hfed' := hfed.feed hfeed
          exact .inl ⟨rfl, read ++ [c], left, last, trailers, by simp [hbody], by simpa using hfed',
            hafter⟩
  | fixed head sink remaining =>
      obtain ⟨rfl, taken, hbody, hfed, rfl⟩ := h
      have hasks : (Phase.fixed (headOf r r.fields) sink
          ((reader.buffer ++ coming).length : ℤ)).awaits =
          .upTo (min 65536 (reader.buffer ++ coming).length) := by
        rw [Phase.awaits, if_neg (by omega), Int.toNat_natCast]
      rw [hasks] at hanswer
      obtain ⟨hbuffer, -⟩ := answer_ok hanswer
      rw [Phase.resume] at hnext
      split at hnext
      · cases hnext
      cases hfeed : sink.feed py bytes with
      | error raised =>
          rw [hfeed] at hnext
          cases hnext
      | ok sink' =>
          rw [hfeed] at hnext
          have hfed' := hfed.feed hfeed
          have hrest : taken ++ (reader.buffer ++ coming) =
              taken ++ bytes ++ (buffer ++ coming) := by
            rw [hbuffer]
            simp
          have hremaining : ((reader.buffer ++ coming).length : ℤ) - bytes.length =
              (buffer ++ coming).length := by
            rw [hbuffer]
            simp
          rw [hrest] at hbody
          change (if ((reader.buffer ++ coming).length : ℤ) - bytes.length = 0
            then returned py (headOf r r.fields) sink' else _) = _ at hnext
          rw [hremaining] at hnext
          left
          split at hnext
          case isTrue hzero =>
              have hnil : buffer ++ coming = [] :=
                List.length_eq_zero_iff.mp (by exact_mod_cast hzero)
              rw [hnil, List.append_nil] at hbody
              have hcontent : r.content = taken ++ bytes := by rw [Response.content, hbody]
              rw [hnil]
              exact consumed_returned_all (hcontent ▸ hfed') hnext
          case isFalse =>
              obtain rfl := Except.ok.inj hnext
              exact ⟨rfl, _, hbody, hfed', rfl⟩
  | untilClosed head sink =>
      obtain ⟨rfl, taken, hbody, hfed⟩ := h
      obtain ⟨hbuffer, -⟩ := answer_ok hanswer
      rw [hbuffer, List.append_assoc] at hbody
      have hcontent : r.content = taken ++ (bytes ++ (buffer ++ coming)) := by
        rw [Response.content, hbody]
      rw [Phase.resume] at hnext
      left
      split at hnext
      case isTrue hnil =>
          exact consumed_returned hfed hnext ⟨_, hcontent.symm⟩
            (fun hnot => absurd ⟨_, hbody⟩ hnot)
            fun hreusable => absurd hreusable (headOf_untilClosed hr ⟨_, hbody⟩).2.2
      case isFalse =>
          cases hfeed : sink.feed py bytes with
          | error raised =>
              rw [hfeed] at hnext
              cases hnext
          | ok sink' =>
              rw [hfeed] at hnext
              obtain rfl := Except.ok.inj hnext
              exact ⟨rfl, taken ++ bytes, by rw [hbody, List.append_assoc], hfed.feed hfeed⟩

end MlxRuntime.Benchmark
