import MlxRuntime.Lib.Numerals

/-!
# Responses of HTTP/1.1

What a server sends for one request: a status line, header fields, and a body of a declared
length, in chunks, or up to the end of the connection.  A request that asks for no transfer
coding is answered in chunks or without a coding.

## Main definitions

* `HeaderField`, `BodyChunk`, `Body`, `Response` — the parts of a response, and `bytes` of each.
* `Response.content` — what the body carries.
* `Response.WellFormed` — the response says how long its body is.
-/

namespace MlxRuntime.Http

open Numerals

/-- The bytes of a text. -/
def ascii (text : String) : Bytes := toUtf8 text.toList

/-- The end of a line. -/
def crlf : Bytes := [13, newline]

/-- `str.lower` of a character of Latin-1. -/
def lower (b : UInt8) : UInt8 :=
  if 65 ≤ b ∧ b ≤ 90 ∨ 192 ≤ b ∧ b ≤ 222 ∧ b ≠ 215 then b + 32 else b

/-- A byte of a line. -/
def InLine (b : UInt8) : Prop := b ≠ 13 ∧ b ≠ newline

/-- A blank between the parts of a line. -/
def isBlank (b : UInt8) : Bool := b = 32 || b = 9

/-- A character of a name: a letter, a digit or one of the marks. -/
def isNameChar (b : UInt8) : Bool :=
  (digitIn 36 b).isSome || b ∈ ascii "!#$%&'*+-.^_`|~"

/-! ## Header fields -/

/-- A line of the head: a name, a colon, and a value with the blanks around it. -/
structure HeaderField where
  name : Bytes
  value : Bytes

namespace HeaderField

def bytes (f : HeaderField) : Bytes := f.name ++ 58 :: (f.value ++ crlf)

structure WellFormed (f : HeaderField) : Prop where
  name_ne : f.name ≠ []
  name : ∀ b ∈ f.name, isNameChar b
  value : ∀ b ∈ f.value, InLine b

/-- The field has this name, in capitals or not. -/
def Named (f : HeaderField) (name : String) : Prop := f.name.map lower = ascii name

/-- The value without the blanks around it. -/
def Says (f : HeaderField) (core : Bytes) : Prop :=
  ∃ left right, f.value = left ++ (core ++ right) ∧ (∀ b ∈ left, isBlank b) ∧ ∀ b ∈ right, isBlank b

end HeaderField

/-! ## Bodies -/

/-- The line before a chunk: its size, and an extension behind a semicolon. -/
structure SizeLine where
  size : Bytes
  extension : Bytes

namespace SizeLine

def bytes (l : SizeLine) : Bytes := l.size ++ (l.extension ++ crlf)

structure WellFormed (l : SizeLine) : Prop where
  size : Digits 16 l.size
  extension : ∀ b ∈ l.extension, InLine b
  semicolon : ∀ b ∈ (l.extension.dropWhile isBlank).head?, b = 59

end SizeLine

/-- A chunk. -/
structure BodyChunk extends SizeLine where
  data : Bytes

namespace BodyChunk

def bytes (c : BodyChunk) : Bytes := c.toSizeLine.bytes ++ (c.data ++ crlf)

structure WellFormed (c : BodyChunk) : Prop where
  line : c.toSizeLine.WellFormed
  size : valueOf 16 c.size = c.data.length
  data : c.data ≠ []

end BodyChunk

/-- A body of a declared length, in chunks with a last one and trailers, or up to the end. -/
inductive Body
  | sized (data : Bytes)
  | chunked (chunks : List BodyChunk) (last : SizeLine) (trailers : List HeaderField)
  | untilClosed (data : Bytes)

/-- The last chunk and the trailers. -/
def endBytes (last : SizeLine) (trailers : List HeaderField) : Bytes :=
  last.bytes ++ (trailers.flatMap HeaderField.bytes ++ crlf)

def Body.bytes : Body → Bytes
  | .sized data => data
  | .chunked chunks last trailers => chunks.flatMap BodyChunk.bytes ++ endBytes last trailers
  | .untilClosed data => data

/-! ## Responses -/

/-- A response. -/
structure Response where
  status : Bytes
  reason : Bytes
  fields : List HeaderField
  body : Body

namespace Response

def version : Bytes := ascii "HTTP/1.1"

def statusLine (r : Response) : Bytes := version ++ 32 :: (r.status ++ 32 :: (r.reason ++ crlf))

def bytes (r : Response) : Bytes :=
  r.statusLine ++ (r.fields.flatMap HeaderField.bytes ++ (crlf ++ r.body.bytes))

/-- What the body carries. -/
def content (r : Response) : Bytes :=
  match r.body with
  | .sized data => data
  | .chunked chunks _ _ => chunks.flatMap BodyChunk.data
  | .untilClosed data => data

/-- The end of the body is the end of the connection. -/
def UntilClosed (r : Response) : Prop := ∃ data, r.body = .untilClosed data

/-- The fields say what the body is. -/
def Framed (r : Response) : Prop :=
  match r.body with
  | .sized data => (∃ f ∈ r.fields, f.Named "content-length") ∧
      (∀ f ∈ r.fields, ¬ f.Named "transfer-encoding") ∧
      ∀ f ∈ r.fields, f.Named "content-length" →
        ∃ digits, f.Says digits ∧ Digits 10 digits ∧ valueOf 10 digits = data.length
  | .chunked chunks last trailers => (∃ f ∈ r.fields, f.Named "transfer-encoding") ∧
      (∀ f ∈ r.fields, f.Named "transfer-encoding" →
        ∃ coding, f.Says coding ∧ coding.map lower = ascii "chunked") ∧
      (∀ c ∈ chunks, c.WellFormed) ∧ (last.WellFormed ∧ valueOf 16 last.size = 0) ∧
      ∀ f ∈ trailers, f.WellFormed
  | .untilClosed _ => ∀ f ∈ r.fields, ¬ f.Named "content-length" ∧ ¬ f.Named "transfer-encoding"

structure WellFormed (r : Response) : Prop where
  status : Digits 10 r.status
  reason : ∀ b ∈ r.reason, InLine b
  fields : ∀ f ∈ r.fields, f.WellFormed
  framed : r.Framed

end Response

/-- A well-formed response. -/
abbrev Reply := {r : Response // r.WellFormed}

/-! ## Lines -/

/-- What is in a line has no end of line in it. -/
theorem line_append_crlf (text : Bytes) (h : ∀ b ∈ text, InLine b) :
    Lines.Line newline (text ++ crlf) := by
  refine ⟨text ++ [13], ?_, by simp [crlf]⟩
  intro hmem
  rcases List.mem_append.mp hmem with hmem | hmem
  · exact (h _ hmem).2 rfl
  · simp [newline] at hmem

theorem line_crlf : Lines.Line newline crlf := line_append_crlf [] nofun

/-- Digits are in a line. -/
theorem inLine_of_digit {base : ℕ} {b : UInt8} (h : (digitIn base b).isSome) : InLine b :=
  ⟨digit_ne h 13 rfl, digit_ne h newline rfl⟩

theorem inLine_of_nameChar {b : UInt8} (h : isNameChar b) : InLine b := by
  rw [isNameChar, Bool.or_eq_true, decide_eq_true_eq] at h
  rcases h with h | h
  · exact inLine_of_digit h
  · constructor <;> rintro rfl <;> exact absurd h (by decide)

theorem HeaderField.WellFormed.line {f : HeaderField} (h : f.WellFormed) :
    Lines.Line newline f.bytes := by
  have hline := line_append_crlf (f.name ++ 58 :: f.value) fun b hb => by
    rcases List.mem_append.mp hb with hb | hb
    · exact inLine_of_nameChar (h.name b hb)
    · rcases List.mem_cons.mp hb with rfl | hb
      · exact ⟨by decide, by decide⟩
      · exact h.value b hb
  simpa [HeaderField.bytes] using hline

theorem SizeLine.WellFormed.line {l : SizeLine} (h : l.WellFormed) :
    Lines.Line newline l.bytes := by
  have hline := line_append_crlf (l.size ++ l.extension) fun b hb => by
    rcases List.mem_append.mp hb with hb | hb
    · exact inLine_of_digit (h.size.2 b hb)
    · exact h.extension b hb
  simpa [SizeLine.bytes] using hline

theorem Response.WellFormed.line {r : Response} (h : r.WellFormed) :
    Lines.Line newline r.statusLine := by
  have hline := line_append_crlf (Response.version ++ 32 :: (r.status ++ 32 :: r.reason))
    fun b hb => by
      simp only [List.mem_append, List.mem_cons] at hb
      rcases hb with hb | rfl | hb | rfl | hb
      · revert b
        exact fun b hb => ⟨by rintro rfl; exact absurd hb (by decide),
          by rintro rfl; exact absurd hb (by decide)⟩
      · exact ⟨by decide, by decide⟩
      · exact inLine_of_digit (h.status.2 b hb)
      · exact ⟨by decide, by decide⟩
      · exact h.reason b hb
  simpa [Response.statusLine] using hline

/-- A first line is one, however the text is continued. -/
theorem line_unique {line line' rest rest' : Bytes} (h : Lines.Line newline line)
    (h' : Lines.Line newline line') (heq : line ++ rest = line' ++ rest') :
    line = line' ∧ rest = rest' := by
  have hcut := Lines.cutLine_line_append h rest
  rw [heq, Lines.cutLine_line_append h' rest'] at hcut
  obtain ⟨rfl, rfl⟩ := Prod.mk.inj (Option.some.inj hcut)
  exact ⟨rfl, rfl⟩

end MlxRuntime.Http
