import Mathlib.Data.List.Basic

/-!
# Terminated lines

A stream of symbols is cut after every terminator: complete lines, each ending in its
terminator, and a tail without one.  A reader that takes symbols as they come finds the
same lines however the stream is split.

## Main definitions

* `Line sep line` — a complete line.
* `lines`, `tail` — the complete lines of a stream, and what follows the last of them.
* `lines_append`, `tail_append` — a line that is complete is not changed by what follows.
* `cutLine` — the first line, and the rest.
* `fromUtf8` — the text of a line.
-/

namespace MlxRuntime

/-- The bytes of a stream. -/
abbrev Bytes := List UInt8

/-- The end of a line of text. -/
def newline : UInt8 := 10

/-- The text of bytes that are UTF-8. -/
def fromUtf8 (bytes : Bytes) : Option (List Char) :=
  (String.fromUTF8? ⟨bytes.toArray⟩).map String.toList

/-- The bytes of a text, in UTF-8. -/
def toUtf8 (cs : List Char) : Bytes := cs.flatMap String.utf8EncodeChar

theorem fromUtf8_toUtf8 (cs : List Char) : fromUtf8 (toUtf8 cs) = some cs := by
  have hvalid : cs.utf8Encode.IsValidUTF8 := ByteArray.isValidUTF8_utf8Encode
  have htext : String.fromUTF8 cs.utf8Encode hvalid = String.ofList cs := rfl
  have hbytes : (⟨(toUtf8 cs).toArray⟩ : ByteArray) = cs.utf8Encode := by
    rw [List.utf8Encode]
    ext1
    exact List.data_toByteArray.symm
  rw [fromUtf8, hbytes, String.fromUTF8?, dif_pos hvalid, htext, Option.map_some,
    String.toList_ofList]

theorem utf8EncodeChar_ascii {c : Char} (h : c.toNat < 128) :
    String.utf8EncodeChar c = [UInt8.ofNat c.toNat] := by
  have hval : c.val.toNat ≤ 127 := Nat.le_of_lt_succ h
  simp only [String.utf8EncodeChar, hval, if_true]
  rfl

/-- ASCII characters are a byte each. -/
theorem toUtf8_ascii {cs : List Char} (h : ∀ c ∈ cs, c.toNat < 128) :
    toUtf8 cs = cs.map fun c => UInt8.ofNat c.toNat := by
  rw [toUtf8, List.map_eq_flatMap]
  exact List.flatMap_congr fun c hc => utf8EncodeChar_ascii (h c hc)

/-- The text of ASCII characters, a byte each. -/
theorem fromUtf8_ascii {cs : List Char} (h : ∀ c ∈ cs, c.toNat < 128) :
    fromUtf8 (cs.map fun c => UInt8.ofNat c.toNat) = some cs := by
  rw [← toUtf8_ascii h, fromUtf8_toUtf8]

namespace Lines

universe u

variable {α : Type u} [DecidableEq α] {sep : α}

/-- A line: symbols that are not the terminator, and the terminator. -/
def Line (sep : α) (line : List α) : Prop := ∃ body, sep ∉ body ∧ line = body ++ [sep]

/-- The complete lines of a stream, and its tail. -/
def split (sep : α) : List α → List (List α) × List α
  | [] => ([], [])
  | x :: xs =>
      if x = sep then ([x] :: (split sep xs).1, (split sep xs).2)
      else match (split sep xs).1 with
        | [] => ([], x :: (split sep xs).2)
        | line :: rest => ((x :: line) :: rest, (split sep xs).2)

/-- The complete lines of a stream. -/
def lines (sep : α) (xs : List α) : List (List α) := (split sep xs).1

/-- What follows the last terminator. -/
def tail (sep : α) (xs : List α) : List α := (split sep xs).2

@[simp] theorem lines_nil : lines sep [] = [] := rfl

@[simp] theorem tail_nil : tail sep [] = [] := rfl

/-- A stream without the terminator is all tail. -/
theorem split_of_notMem {xs : List α} (h : sep ∉ xs) : split sep xs = ([], xs) := by
  induction xs with
  | nil => rfl
  | cons x xs ih =>
      rw [List.mem_cons, not_or] at h
      rw [split, if_neg (Ne.symm h.1), ih h.2]

theorem lines_of_notMem {xs : List α} (h : sep ∉ xs) : lines sep xs = [] := by
  rw [lines, split_of_notMem h]

/-- A line at the head is the first line. -/
theorem split_line_append {line : List α} (h : Line sep line) (xs : List α) :
    split sep (line ++ xs) = (line :: lines sep xs, tail sep xs) := by
  obtain ⟨body, hbody, rfl⟩ := h
  induction body with
  | nil => simp [split, lines, tail]
  | cons x body ih =>
      rw [List.mem_cons, not_or] at hbody
      have hrest := ih hbody.2
      simp only [List.append_assoc, List.cons_append, List.nil_append] at hrest ⊢
      rw [split, if_neg (Ne.symm hbody.1), hrest]

theorem lines_line_append {line : List α} (h : Line sep line) (xs : List α) :
    lines sep (line ++ xs) = line :: lines sep xs := by
  rw [lines, split_line_append h]

/-- Complete lines stay what they are, whatever follows. -/
theorem lines_flatten_append {ls : List (List α)} (h : ∀ line ∈ ls, Line sep line) (xs : List α) :
    lines sep (ls.flatten ++ xs) = ls ++ lines sep xs := by
  induction ls with
  | nil => rfl
  | cons line ls ih =>
      rw [List.flatten_cons, List.append_assoc, lines_line_append (h line List.mem_cons_self),
        ih fun l hl => h l (List.mem_cons_of_mem _ hl), List.cons_append]

theorem tail_flatten_append {ls : List (List α)} (h : ∀ line ∈ ls, Line sep line) (xs : List α) :
    tail sep (ls.flatten ++ xs) = tail sep xs := by
  induction ls with
  | nil => rfl
  | cons line ls ih =>
      rw [List.flatten_cons, List.append_assoc, tail, split_line_append (h line List.mem_cons_self)]
      exact ih fun l hl => h l (List.mem_cons_of_mem _ hl)

/-- A stream is its lines and its tail, and there is no terminator in the tail. -/
theorem split_spec (xs : List α) :
    (lines sep xs).flatten ++ tail sep xs = xs ∧ (∀ line ∈ lines sep xs, Line sep line) ∧
      sep ∉ tail sep xs := by
  induction xs with
  | nil => exact ⟨rfl, nofun, nofun⟩
  | cons x xs ih =>
      obtain ⟨hflat, hlines, htail⟩ := ih
      simp only [lines, tail] at hflat hlines htail ⊢
      rw [split]
      by_cases hx : x = sep
      · rw [if_pos hx]
        refine ⟨by simp [hflat], ?_, htail⟩
        intro line hline
        rcases List.mem_cons.mp hline with rfl | hline
        · exact ⟨[], nofun, by rw [hx]; rfl⟩
        · exact hlines line hline
      · rw [if_neg hx]
        split
        case h_1 hempty =>
            rw [hempty] at hflat
            exact ⟨by simpa using hflat, nofun, by simp [Ne.symm hx, htail]⟩
        case h_2 line rest hcons =>
            rw [hcons] at hflat hlines
            refine ⟨by simpa using hflat, ?_, htail⟩
            intro l hl
            rcases List.mem_cons.mp hl with rfl | hl
            · obtain ⟨body, hbody, rfl⟩ := hlines line List.mem_cons_self
              exact ⟨x :: body, by simp [Ne.symm hx, hbody], rfl⟩
            · exact hlines l (List.mem_cons_of_mem _ hl)

/-- The first line, with its terminator, and the rest. -/
def cutLine (sep : α) : List α → Option (List α × List α)
  | [] => none
  | x :: xs =>
      if x = sep then some ([x], xs)
      else (cutLine sep xs).map fun (line, rest) => (x :: line, rest)

theorem cutLine_eq_none {xs : List α} : cutLine sep xs = none ↔ sep ∉ xs := by
  induction xs with
  | nil => simp [cutLine]
  | cons x xs ih =>
      rw [cutLine]
      by_cases hx : x = sep
      · simp [hx]
      · simp [hx, ih, Ne.symm hx]

theorem cutLine_eq_some {xs line rest : List α} (h : cutLine sep xs = some (line, rest)) :
    Line sep line ∧ xs = line ++ rest := by
  induction xs generalizing line with
  | nil => cases h
  | cons x xs ih =>
      rw [cutLine] at h
      by_cases hx : x = sep
      · rw [if_pos hx] at h
        obtain ⟨rfl, rfl⟩ := Prod.mk.inj (Option.some.inj h)
        exact ⟨⟨[], nofun, by rw [hx]; rfl⟩, rfl⟩
      · rw [if_neg hx] at h
        obtain ⟨⟨line', rest'⟩, hcut, heq⟩ := Option.map_eq_some_iff.mp h
        obtain ⟨rfl, rfl⟩ := Prod.mk.inj heq
        obtain ⟨⟨body, hbody, rfl⟩, rfl⟩ := ih hcut
        exact ⟨⟨x :: body, by simp [Ne.symm hx, hbody], rfl⟩, rfl⟩

theorem cutLine_line_append {line : List α} (h : Line sep line) (rest : List α) :
    cutLine sep (line ++ rest) = some (line, rest) := by
  obtain ⟨body, hbody, rfl⟩ := h
  induction body with
  | nil => simp [cutLine]
  | cons x body ih =>
      rw [List.mem_cons, not_or] at hbody
      rw [List.cons_append, List.cons_append, cutLine, if_neg (Ne.symm hbody.1), ih hbody.2]
      rfl

omit [DecidableEq α] in
/-- A line that was begun is completed by the first line of what follows. -/
theorem Line.append {begun line : List α} (hbegun : sep ∉ begun) (h : Line sep line) :
    Line sep (begun ++ line) := by
  obtain ⟨body, hbody, rfl⟩ := h
  exact ⟨begun ++ body, by simp [hbegun, hbody], by simp⟩

end Lines
end MlxRuntime
