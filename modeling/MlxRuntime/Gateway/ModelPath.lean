import Mathlib.Data.List.DropRight
import Mathlib.Data.List.Chain
import MlxRuntime.Lib.Lines

/-!
# The model of a path

`/models/{model}/status` and `/models/{model}/ready` name a model, percent-encoded.  The
decoder walks over the bytes of the segment; its two digits are cut from the text, which
panics inside a character, and read by `u8::from_str_radix`, which takes a sign.

A position in the segment is modelled by the bytes from there on.

## Main definitions

* `percentDecode`, `modelPathName` — the functions of the source.
* `Encodes` — every way to percent-encode a name.
* `WellEscaped` — every `%` is followed by two hex digits or is the last byte.
* `Harmless` — the segments on which the decoder keeps its promise.
-/

namespace MlxRuntime

/-- A slice of a text that does not start and end between characters. -/
inductive Panic
  | charBoundary
  deriving DecidableEq

namespace ModelPath

/-- `b'%'`. -/
def percent : UInt8 := 37

/-- `b'+'`. -/
def plus : UInt8 := 43

/-- `char::to_digit(16)` of a byte. -/
def toDigit (b : UInt8) : Option ℕ :=
  if 48 ≤ b.toNat ∧ b.toNat ≤ 57 then some (b.toNat - 48)
  else if 97 ≤ b.toNat ∧ b.toNat ≤ 102 then some (b.toNat - 87)
  else if 65 ≤ b.toNat ∧ b.toNat ≤ 70 then some (b.toNat - 55)
  else none

/-- The digits of a number below 256. -/
def digits : Bytes → ℕ → Option UInt8
  | [], value => some (UInt8.ofNat value)
  | b :: rest, value =>
      match toDigit b with
      | some digit => if value * 16 + digit < 256 then digits rest (value * 16 + digit) else none
      | none => none

/-- `u8::from_str_radix(_, 16)`. -/
def fromStrRadix : Bytes → Option UInt8
  | [] => none
  | [b] => digits [b] 0
  | b :: rest => if b = plus then digits rest 0 else digits (b :: rest) 0

/-- `is_char_boundary` at the start of these bytes. -/
def isCharBoundary : Bytes → Bool
  | [] => true
  | b :: _ => b < 128 || 192 ≤ b

/-- The loop of `percent_decode`, over the bytes from `index` on. -/
def decodeLoop : Bytes → Except Panic (Option Bytes)
  | [] => .ok (some [])
  | value :: x :: y :: rest =>
      if value = percent then
        if isCharBoundary (x :: y :: rest) ∧ isCharBoundary rest then
          match fromStrRadix [x, y] with
          | some byte => (decodeLoop rest).map (Option.map (byte :: ·))
          | none => .ok none
        else .error .charBoundary
      else (decodeLoop (x :: y :: rest)).map (Option.map (value :: ·))
  | value :: rest => (decodeLoop rest).map (Option.map (value :: ·))

/-- `percent_decode`. -/
def percentDecode (segment : List Char) : Except Panic (Option (List Char)) :=
  (decodeLoop (toUtf8 segment)).map fun bytes => bytes.bind fromUtf8

/-- `trim_matches`. -/
def trimMatches (c : Char) (text : List Char) : List Char :=
  (text.dropWhile (· = c)).rdropWhile (· = c)

/-- `model_path_name`. -/
def modelPathName (path : List Char) : Except Panic (Option (List Char)) :=
  match (trimMatches '/' path).splitOn '/' with
  | [first, model, last] =>
      if first = "models".toList ∧ (last = "status".toList ∨ last = "ready".toList) then
        percentDecode model
      else .ok none
  | _ => .ok none

/-! ## The promise -/

/-- The byte is a hex digit. -/
def IsHex (b : UInt8) : Prop := (toDigit b).isSome

instance : DecidablePred IsHex := fun b => inferInstanceAs (Decidable ((toDigit b).isSome = true))

/-- The bytes of a name, and those of a segment in which any of them, and at least `%`, `/`
and those outside ASCII, are written as `%` and two hex digits. -/
inductive Encodes : Bytes → Bytes → Prop
  | nil : Encodes [] []
  | kept {b : UInt8} {name segment : Bytes} (hpercent : b ≠ percent) (hslash : b ≠ 47)
      (hascii : b < 128) (h : Encodes name segment) : Encodes (b :: name) (b :: segment)
  | escaped {b x y : UInt8} {high low : ℕ} {name segment : Bytes} (hhigh : toDigit x = some high)
      (hlow : toDigit y = some low) (hb : b.toNat = high * 16 + low) (h : Encodes name segment) :
      Encodes (b :: name) (percent :: x :: y :: segment)

/-- Every `%` is followed by two hex digits, or is the last byte. -/
def WellEscaped (raw : Bytes) : Prop :=
  ∀ before after, raw = before ++ percent :: after →
    after = [] ∨ ∃ x y rest, after = x :: y :: rest ∧ IsHex x ∧ IsHex y

/-- What the decoder promises of a segment. -/
structure Decodes (segment : List Char) : Prop where
  /-- It does not panic. -/
  total : ∃ name, percentDecode segment = .ok name
  /-- It inverts every encoder. -/
  inverts : ∀ name, Encodes (toUtf8 name) (toUtf8 segment) →
    percentDecode segment = .ok (some name)
  /-- It gives a name only for a segment that is well escaped. -/
  strict : ∀ name, percentDecode segment = .ok (some name) → WellEscaped (toUtf8 segment)

/-! ## Where the promise is kept -/

/-- The escapes of a segment, a `%` and two bytes each, with what follows. -/
def escapes : Bytes → List (Bytes × Bytes)
  | [] => []
  | value :: x :: y :: rest =>
      if value = percent then ([x, y], rest) :: escapes rest else escapes (x :: y :: rest)
  | _ :: rest => escapes rest

/-- The first escape whose digits `from_str_radix` refuses. -/
def refused (raw : Bytes) : Option (Bytes × Bytes) :=
  (escapes raw).find? fun escape => (fromStrRadix escape.1).isNone

/-- The bytes that a segment stands for, when no escape is refused. -/
def standsFor : Bytes → Bytes
  | [] => []
  | value :: x :: y :: rest =>
      if value = percent then (fromStrRadix [x, y]).getD 0 :: standsFor rest
      else value :: standsFor (x :: y :: rest)
  | value :: rest => value :: standsFor rest

/-- The first refused escape does not end inside a character; and a segment without one that
stands for a text has no sign in an escape and does not end in `%` and one byte. -/
structure Harmless (raw : Bytes) : Prop where
  whole : ∀ escape, refused raw = some escape → isCharBoundary escape.2
  plain : refused raw = none → (fromUtf8 (standsFor raw)).isSome →
    ¬ [percent, plus] <:+: raw ∧ ∀ b, ¬ [percent, b] <:+ raw

/-! ## The loop -/

/-- A hex digit is an ASCII byte other than `%`, `+` and `/`. -/
theorem IsHex.spec {b : UInt8} (h : IsHex b) :
    b < 128 ∧ b ≠ percent ∧ b ≠ plus ∧ b ≠ 47 ∧ ∀ digit, toDigit b = some digit → digit < 16 := by
  have hcases : ∃ digit, toDigit b = some digit ∧ digit < 16 ∧ 48 ≤ b.toNat ∧ b.toNat < 128 := by
    obtain ⟨digit, hdigit⟩ := Option.isSome_iff_exists.mp h
    refine ⟨digit, hdigit, ?_⟩
    simp only [toDigit] at hdigit
    split at hdigit
    · cases hdigit
      omega
    · split at hdigit
      · cases hdigit
        omega
      · split at hdigit
        · cases hdigit
          omega
        · cases hdigit
  obtain ⟨digit, hdigit, hlt, hlow, hascii⟩ := hcases
  have hne (c : UInt8) (hc : c.toNat < 48) : b ≠ c := by
    rintro rfl
    omega
  refine ⟨UInt8.lt_iff_toNat_lt.mpr hascii, hne percent (by decide), hne plus (by decide),
    hne 47 (by decide), fun other hother => ?_⟩
  obtain rfl := Option.some.inj (hdigit.symm.trans hother)
  exact hlt

/-- Two hex digits are a byte. -/
theorem fromStrRadix_hex {x y b : UInt8} {high low : ℕ} (hhigh : toDigit x = some high)
    (hlow : toDigit y = some low) (hb : b.toNat = high * 16 + low) :
    fromStrRadix [x, y] = some b := by
  have hx : IsHex x := by simp [IsHex, hhigh]
  have hy : IsHex y := by simp [IsHex, hlow]
  obtain ⟨-, -, hplus, -, hltx⟩ := hx.spec
  have hx16 := hltx high hhigh
  have hy16 := hy.spec.2.2.2.2 low hlow
  have hbyte : UInt8.ofNat (high * 16 + low) = b := by
    rw [← hb]
    exact UInt8.ofNat_toNat
  simp only [fromStrRadix, if_neg hplus, digits, hhigh, hlow]
  rw [if_pos (by omega), if_pos (by omega), Nat.zero_mul, Nat.zero_add, hbyte]

/-- What `from_str_radix` takes for two bytes: hex digits, the first of them maybe a sign. -/
theorem fromStrRadix_isSome {x y : UInt8} (h : (fromStrRadix [x, y]).isSome) :
    (IsHex x ∨ x = plus) ∧ IsHex y := by
  simp only [fromStrRadix] at h
  split at h
  case isTrue hplus =>
    refine ⟨.inr hplus, ?_⟩
    simp only [digits] at h
    split at h
    · simp [IsHex, *]
    · cases h
  case isFalse =>
    simp only [digits] at h
    split at h
    case h_2 => cases h
    case h_1 high hhigh =>
      split at h
      case isFalse => cases h
      case isTrue =>
        split at h
        case h_2 => cases h
        case h_1 low hlow => exact ⟨.inl (by simp [IsHex, hhigh]), by simp [IsHex, hlow]⟩

/-! ## Characters and bytes -/

/-- After a byte of ASCII a character starts. -/
def Whole (raw : Bytes) : Prop := raw.IsChain fun b c => b < 128 → isCharBoundary [c]

theorem isCharBoundary_cons (b : UInt8) (rest : Bytes) :
    isCharBoundary (b :: rest) = isCharBoundary [b] := rfl

/-- A character starts with a byte that no character goes on with. -/
theorem utf8EncodeChar_spec (c : Char) : ∃ b rest, String.utf8EncodeChar c = b :: rest ∧
    isCharBoundary [b] ∧ (rest = [] ∨ ¬ b < 128) ∧ ∀ x ∈ rest, ¬ x < 128 := by
  have hbyte (n : ℕ) (hn : n < 256) : (UInt8.ofNat n).toNat = n := Nat.mod_eq_of_lt hn
  have hlead (n : ℕ) (hlow : 192 ≤ n) (hn : n < 256) : isCharBoundary [UInt8.ofNat n] ∧
      ¬ UInt8.ofNat n < 128 := by
    have h192 : (192 : UInt8) ≤ UInt8.ofNat n := by
      rw [UInt8.le_iff_toNat_le, hbyte n hn]
      exact hlow
    have h128 : ¬ UInt8.ofNat n < 128 := by
      rw [UInt8.lt_iff_toNat_lt, hbyte n hn]
      exact Nat.not_lt.mpr (Nat.le_trans (by decide) hlow)
    exact ⟨by simp [isCharBoundary, h192], h128⟩
  have htrail (n : ℕ) : ¬ UInt8.ofNat (n % 64 + 128) < 128 := by
    rw [UInt8.lt_iff_toNat_lt, hbyte _ (by omega)]
    exact Nat.not_lt.mpr (Nat.le_add_left 128 _)
  simp only [String.utf8EncodeChar]
  split
  case isTrue hv =>
    refine ⟨_, _, rfl, ?_, .inl rfl, nofun⟩
    have h128 : UInt8.ofNat c.val.toNat < 128 := by
      rw [UInt8.lt_iff_toNat_lt, hbyte _ (by omega)]
      exact Nat.lt_succ_of_le hv
    simp only [isCharBoundary, Bool.or_eq_true, decide_eq_true_eq]
    exact .inl h128
  case isFalse =>
    split
    · obtain ⟨hstart, hascii⟩ := hlead (c.val.toNat / 64 % 32 + 192) (by omega) (by omega)
      exact ⟨_, _, rfl, hstart, .inr hascii, by
        simpa only [List.forall_mem_cons] using ⟨htrail _, nofun⟩⟩
    · split
      · obtain ⟨hstart, hascii⟩ := hlead (c.val.toNat / 4096 % 16 + 224) (by omega) (by omega)
        exact ⟨_, _, rfl, hstart, .inr hascii, by
          simpa only [List.forall_mem_cons] using ⟨htrail _, htrail _, nofun⟩⟩
      · obtain ⟨hstart, hascii⟩ := hlead (c.val.toNat / 262144 % 8 + 240) (by omega) (by omega)
        exact ⟨_, _, rfl, hstart, .inr hascii, by
          simpa only [List.forall_mem_cons] using ⟨htrail _, htrail _, htrail _, nofun⟩⟩

theorem isCharBoundary_toUtf8 (cs : List Char) : isCharBoundary (toUtf8 cs) := by
  cases cs with
  | nil => rfl
  | cons c cs =>
    obtain ⟨b, rest, hc, hstart, -⟩ := utf8EncodeChar_spec c
    rw [toUtf8, List.flatMap_cons, hc, List.cons_append, isCharBoundary_cons, hstart]

theorem whole_toUtf8 (cs : List Char) : Whole (toUtf8 cs) := by
  induction cs with
  | nil => exact .nil
  | cons c cs ih =>
    obtain ⟨b, rest, hc, -, hascii, hrest⟩ := utf8EncodeChar_spec c
    have hgoes : Whole (rest ++ toUtf8 cs) := by
      clear hc hascii
      induction rest with
      | nil => exact ih
      | cons x rest ih' =>
        rw [List.forall_mem_cons] at hrest
        exact (ih' hrest.2).cons fun _ _ hx => absurd hx hrest.1
    rw [toUtf8, List.flatMap_cons, hc]
    refine hgoes.cons fun y hy hb => ?_
    obtain rfl : rest = [] := hascii.resolve_right (not_not_intro hb)
    obtain ⟨after, hafter⟩ := List.head?_eq_some_iff.mp hy
    have hstart := isCharBoundary_toUtf8 cs
    rwa [show toUtf8 cs = y :: after from hafter, isCharBoundary_cons] at hstart

/-- The bytes after an ASCII byte start with a character. -/
theorem Whole.boundary {b : UInt8} {rest : Bytes} (h : Whole (b :: rest)) (hb : b < 128) :
    isCharBoundary rest := by
  cases rest with
  | nil => rfl
  | cons c rest => exact (List.isChain_cons_cons.mp h).1 hb

theorem Whole.tail {b : UInt8} {rest : Bytes} (h : Whole (b :: rest)) : Whole rest :=
  List.IsChain.tail h

/-! ## What the loop gives -/

@[simp] theorem refused_escape {x y : UInt8} {rest : Bytes} :
    refused (percent :: x :: y :: rest) =
      if (fromStrRadix [x, y]).isNone then some ([x, y], rest) else refused rest := by
  simp only [refused, escapes, if_true, List.find?_cons]
  cases (fromStrRadix [x, y]).isNone <;> rfl

theorem refused_skip {value : UInt8} {rest : Bytes}
    (h : value ≠ percent ∨ ∀ x y tail, rest ≠ x :: y :: tail) :
    refused (value :: rest) = refused rest ∧ standsFor (value :: rest) = value :: standsFor rest := by
  match rest, h with
  | [], _ => exact ⟨rfl, rfl⟩
  | [_], _ => exact ⟨rfl, rfl⟩
  | x :: y :: rest, h =>
    have hne : value ≠ percent := h.resolve_right fun hshort => hshort x y rest rfl
    simp only [refused, escapes, standsFor, if_neg hne, and_self]

/-- What the loop comes to: a panic or nothing at the first refused escape, and else what the
segment stands for. -/
def outcome (raw : Bytes) : Except Panic (Option Bytes) :=
  match refused raw with
  | some escape => if isCharBoundary escape.2 then .ok none else .error .charBoundary
  | none => .ok (some (standsFor raw))

theorem outcome_push {value : UInt8} {raw rest : Bytes} (hrefused : refused raw = refused rest)
    (hstands : standsFor raw = value :: standsFor rest) :
    (outcome rest).map (Option.map (value :: ·)) = outcome raw := by
  simp only [outcome, hrefused, hstands]
  cases refused rest with
  | none => rfl
  | some escape =>
    change Except.map _ (if _ then _ else _) = if _ then _ else _
    split <;> rfl

theorem decodeLoop_eq {raw : Bytes} (h : Whole raw) : decodeLoop raw = outcome raw := by
  fun_induction decodeLoop raw with
  | case1 => rfl
  | case2 x y rest hboundary byte hbyte ih =>
    rw [ih h.tail.tail.tail]
    exact outcome_push (by rw [refused_escape, hbyte]; rfl) (by simp [standsFor, hbyte])
  | case3 x y rest hboundary hnone => simp [outcome, hnone, hboundary.2]
  | case4 x y rest hboundary =>
    have hstart : isCharBoundary (x :: y :: rest) := h.boundary (by decide)
    have hcut : isCharBoundary rest = false := by simpa [hstart] using hboundary
    have hrefused : fromStrRadix [x, y] = none := by
      by_contra hsome
      have hascii := (fromStrRadix_isSome (Option.isSome_iff_ne_none.mpr hsome)).2.spec.1
      rw [h.tail.tail.boundary hascii] at hcut
      cases hcut
    simp [outcome, hrefused, hcut]
  | case5 value x y rest hne ih =>
    rw [ih h.tail]
    obtain ⟨hrefused, hstands⟩ : refused (value :: x :: y :: rest) = refused (x :: y :: rest) ∧ _ :=
      refused_skip (.inl hne)
    exact outcome_push hrefused hstands
  | case6 value rest hshort ih =>
    rw [ih h.tail]
    obtain ⟨hrefused, hstands⟩ : refused (value :: rest) = refused rest ∧ _ :=
      refused_skip (.inr hshort)
    exact outcome_push hrefused hstands

/-! ## Encoded names -/

/-- An encoded name has no refused escape, and stands for the name. -/
theorem Encodes.standsFor {name raw : Bytes} (h : Encodes name raw) :
    refused raw = none ∧ standsFor raw = name := by
  induction h with
  | nil => exact ⟨rfl, rfl⟩
  | kept hpercent hslash hascii h ih =>
    obtain ⟨hrefused, hstands⟩ := refused_skip (.inl hpercent)
    exact ⟨hrefused.trans ih.1, hstands.trans (by rw [ih.2])⟩
  | escaped hhigh hlow hb h ih =>
    have hbyte := fromStrRadix_hex hhigh hlow hb
    refine ⟨?_, ?_⟩
    · rw [refused_escape, hbyte]
      exact ih.1
    · simp only [ModelPath.standsFor, if_true, hbyte, Option.getD_some, ih.2]

theorem percentDecode_encoded {name segment : List Char}
    (h : Encodes (toUtf8 name) (toUtf8 segment)) : percentDecode segment = .ok (some name) := by
  have hrun : decodeLoop (toUtf8 segment) = .ok (some (toUtf8 name)) := by
    rw [decodeLoop_eq (whole_toUtf8 segment), outcome, h.standsFor.1, h.standsFor.2]
  rw [percentDecode, hrun]
  exact congrArg Except.ok (fromUtf8_toUtf8 name)

theorem Encodes.slash_notMem {name raw : Bytes} (h : Encodes name raw) : 47 ∉ raw := by
  induction h with
  | nil => exact List.not_mem_nil
  | kept hpercent hslash hascii h ih => simp [ih, Ne.symm hslash]
  | @escaped b x y high low name segment hhigh hlow hb h ih =>
    have hx : IsHex x := by simp [IsHex, hhigh]
    have hy : IsHex y := by simp [IsHex, hlow]
    simp only [List.mem_cons, not_or]
    exact ⟨by decide, hx.spec.2.2.2.1.symm, hy.spec.2.2.2.1.symm, ih⟩

/-- A `/` in a text is a `/` in its bytes. -/
theorem slash_mem_toUtf8 {cs : List Char} (h : '/' ∈ cs) : 47 ∈ toUtf8 cs :=
  List.mem_flatMap.mpr ⟨'/', h, by decide⟩

/-- **An encoded name is found in both paths.** -/
theorem modelPathName_encoded {name segment last : List Char}
    (h : Encodes (toUtf8 name) (toUtf8 segment))
    (hlast : last = "status".toList ∨ last = "ready".toList) :
    modelPathName ("/models/".toList ++ segment ++ '/' :: last) = .ok (some name) := by
  have hslash : '/' ∉ segment := fun hmem => h.slash_notMem (slash_mem_toUtf8 hmem)
  have hsplit : ("models".toList ++ '/' :: (segment ++ '/' :: last)).splitOn '/' =
      ["models".toList, segment, last] := by
    rw [List.splitOn_append_cons_self_of_not_mem (by decide),
      List.splitOn_append_cons_self_of_not_mem hslash, List.splitOn_eq_singleton]
    rcases hlast with rfl | rfl <;> decide
  have htrim : trimMatches '/' ("/models/".toList ++ segment ++ '/' :: last) =
      "models".toList ++ '/' :: (segment ++ '/' :: last) := by
    have hfront : ("/models/".toList ++ segment ++ '/' :: last).dropWhile (· = '/') =
        "models".toList ++ '/' :: (segment ++ '/' :: last) := by
      simp [List.dropWhile]
    rw [trimMatches, hfront, List.rdropWhile_eq_self_iff]
    rcases hlast with rfl | rfl <;> simp
  have hname := percentDecode_encoded h
  rw [modelPathName, htrim, hsplit]
  simp only [hlast, and_self, if_true, hname]

/-! ## Well escaped segments -/

/-- Without a refused escape every `%` with two bytes after it begins an escape. -/
theorem accepted_of_refused {raw before rest : Bytes} {x y : UInt8} (hrefused : refused raw = none)
    (h : raw = before ++ percent :: x :: y :: rest) : (fromStrRadix [x, y]).isSome := by
  fun_induction escapes raw generalizing before with
  | case1 => cases before <;> cases h
  | case2 x' y' rest' ih =>
    rw [refused_escape] at hrefused
    split at hrefused
    case isTrue => cases hrefused
    case isFalse haccepted =>
      have hsome : (fromStrRadix [x', y']).isSome :=
        Option.isSome_iff_ne_none.mpr (by simpa using haccepted)
      obtain ⟨hx, hy⟩ := fromStrRadix_isSome hsome
      -- no digit of an escape is a `%`
      rcases before with _ | ⟨_, _ | ⟨_, _ | ⟨_, before⟩⟩⟩ <;>
        simp only [List.cons_append, List.nil_append, List.cons.injEq] at h
      · obtain ⟨-, rfl, rfl, -⟩ := h
        exact hsome
      · obtain ⟨-, rfl, -⟩ := h
        rcases hx with hx | hx
        · exact absurd rfl hx.spec.2.1
        · cases hx
      · obtain ⟨-, -, rfl, -⟩ := h
        exact absurd rfl hy.spec.2.1
      · exact ih hrefused h.2.2.2
  | case3 value x' y' rest' hne ih =>
    rw [(refused_skip (.inl hne)).1] at hrefused
    rcases before with _ | ⟨b, before⟩
    · injection h with hvalue
      exact absurd hvalue hne
    · injection h with _ h
      exact ih hrefused h
  | case4 value rest' hshort ih =>
    rw [(refused_skip (.inr hshort)).1] at hrefused
    rcases before with _ | ⟨b, before⟩
    · injection h with _ h
      exact absurd h (hshort _ _ _)
    · injection h with _ h
      exact ih hrefused h

theorem wellEscaped_iff {raw : Bytes} (hrefused : refused raw = none) :
    WellEscaped raw ↔ ¬ [percent, plus] <:+: raw ∧ ∀ b, ¬ [percent, b] <:+ raw := by
  constructor
  · refine fun h => ⟨?_, fun b => ?_⟩
    · rintro ⟨before, after, hraw⟩
      rcases h before (plus :: after) (by rw [← hraw]; simp) with hnil | ⟨x, y, rest, heq, hx, -⟩
      · cases hnil
      · injection heq with hplus
        exact hx.spec.2.2.1 hplus.symm
    · rintro ⟨before, hraw⟩
      rcases h before [b] hraw.symm with hnil | ⟨x, y, rest, heq, -⟩
      · cases hnil
      · cases heq
  · rintro ⟨hplus, hshort⟩ before after hraw
    rcases after with _ | ⟨x, _ | ⟨y, rest⟩⟩
    · exact .inl rfl
    · exact absurd ⟨before, hraw.symm⟩ (hshort x)
    · obtain ⟨hx, hy⟩ := fromStrRadix_isSome (accepted_of_refused hrefused hraw)
      refine .inr ⟨x, y, rest, rfl, hx.resolve_right ?_, hy⟩
      rintro rfl
      exact hplus ⟨before, y :: rest, by rw [hraw]; simp⟩

/-- **The decoder keeps its promise on the harmless segments.** -/
theorem decodes_iff_harmless (segment : List Char) :
    Decodes segment ↔ Harmless (toUtf8 segment) := by
  have hrun : percentDecode segment = (outcome (toUtf8 segment)).map fun bytes =>
      bytes.bind fromUtf8 := by
    rw [percentDecode, decodeLoop_eq (whole_toUtf8 segment)]
  constructor
  · intro h
    constructor
    · intro escape hescape
      by_contra hcut
      obtain ⟨name, hname⟩ := h.total
      rw [hrun, outcome, hescape] at hname
      simp only [hcut] at hname
      cases hname
    · intro hrefused htext
      obtain ⟨name, hname⟩ := Option.isSome_iff_exists.mp htext
      rw [← wellEscaped_iff hrefused]
      refine h.strict name ?_
      rw [hrun, outcome, hrefused]
      exact congrArg Except.ok hname
  · intro h
    refine ⟨?_, fun name => percentDecode_encoded, fun name hname => ?_⟩
    · rw [hrun, outcome]
      cases hescape : refused (toUtf8 segment) with
      | none => exact ⟨_, rfl⟩
      | some escape =>
        simp only [h.whole escape hescape, if_true]
        exact ⟨_, rfl⟩
    · rw [hrun, outcome] at hname
      cases hescape : refused (toUtf8 segment) with
      | none =>
        rw [hescape] at hname
        have hbytes : fromUtf8 (standsFor (toUtf8 segment)) = some name := Except.ok.inj hname
        exact (wellEscaped_iff hescape).mpr (h.plain hescape (by rw [hbytes]; rfl))
      | some escape =>
        rw [hescape] at hname
        simp only [h.whole escape hescape, if_true] at hname
        cases Except.ok.inj hname

/-- A text that would be cut inside a character, a sign for a digit, and one digit only. -/
theorem not_decodes : ¬ Decodes "%aé".toList ∧ ¬ Decodes "%+f".toList ∧ ¬ Decodes "%4".toList := by
  have hescaped {raw : Bytes} (x : UInt8) (rest : Bytes) (hraw : raw = percent :: x :: rest)
      (hbad : rest = [] ∨ ¬ IsHex x) : ¬ WellEscaped raw := by
    intro h
    rcases h [] _ hraw with hnil | ⟨x', y, tail, heq, hx, -⟩
    · cases hnil
    · injection heq with hx' hrest
      rcases hbad with rfl | hbad
      · cases hrest
      · exact hbad (hx' ▸ hx)
  refine ⟨fun h => ?_, fun h => ?_, fun h => ?_⟩
  · obtain ⟨name, hname⟩ := h.total
    have hpanic : percentDecode "%aé".toList = .error .charBoundary := by decide
    rw [hpanic] at hname
    cases hname
  · exact hescaped plus [102] rfl (.inr (by decide)) (h.strict [Char.ofNat 15] (by decide))
  · exact hescaped 52 [] rfl (.inl rfl) (h.strict ['%', '4'] (by decide))

end ModelPath
end MlxRuntime
