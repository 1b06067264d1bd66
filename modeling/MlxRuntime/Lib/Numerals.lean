import Mathlib.Data.List.DropRight
import MlxRuntime.Lib.Lines

/-!
# Numerals in bytes

The value of a row of digits, and what Python's `int` makes of a text: blanks around it, a
sign, a prefix of the base 16, single underscores between digits, and no more than 4300
digits of a base that is not a power of two.

## Main definitions

* `digitIn`, `valueOf` — digits and their value.
* `stripBy` — a text without what stands around it.
* `pyInt` — `int(text, base)`.
* `pyInt_digits` — on plain digits it is their value.
-/

namespace MlxRuntime.Numerals

/-- The value of a digit or a letter. -/
def digitValue (b : UInt8) : Option ℕ :=
  if 48 ≤ b ∧ b ≤ 57 then some (b.toNat - 48)
  else if 65 ≤ b ∧ b ≤ 90 then some (b.toNat - 55)
  else if 97 ≤ b ∧ b ≤ 122 then some (b.toNat - 87)
  else none

/-- The value of a digit of a base. -/
def digitIn (base : ℕ) (b : UInt8) : Option ℕ := (digitValue b).filter (· < base)

/-- A row of digits: at least one, and nothing else. -/
def Digits (base : ℕ) (text : Bytes) : Prop := text ≠ [] ∧ ∀ b ∈ text, (digitIn base b).isSome

instance (base : ℕ) : DecidablePred (Digits base) := fun text =>
  decidable_of_iff (text ≠ [] ∧ text.all fun b => (digitIn base b).isSome)
    (by simp only [Digits, List.all_eq_true])

/-- One more digit behind those read. -/
def pushDigit (base n : ℕ) (b : UInt8) : ℕ := n * base + (digitIn base b).getD 0

/-- The value of a row of digits. -/
def valueOf (base : ℕ) (text : Bytes) : ℕ := text.foldl (pushDigit base) 0

/-- `text.strip()` for a notion of blank. -/
def stripBy (blank : UInt8 → Bool) (text : Bytes) : Bytes := (text.dropWhile blank).rdropWhile blank

/-- What stands around a text without blanks is taken away. -/
theorem strip_pad {blank : UInt8 → Bool} {left core right : Bytes} (hleft : ∀ b ∈ left, blank b)
    (hcore : ∀ b ∈ core, blank b = false) (hright : ∀ b ∈ right, blank b) :
    stripBy blank (left ++ (core ++ right)) = core := by
  rw [stripBy, List.dropWhile_append_of_pos hleft]
  cases core with
  | nil =>
      rw [List.nil_append, List.dropWhile_eq_nil_iff.mpr hright]
      rfl
  | cons c cs =>
      have hc : ¬ blank c := by simp [hcore c List.mem_cons_self]
      rw [List.cons_append, List.dropWhile_cons_of_neg hc, ← List.cons_append, List.rdropWhile,
        List.reverse_append,
        List.dropWhile_append_of_pos fun b hb => hright b (List.mem_reverse.mp hb)]
      have hlast : (c :: cs).reverse.dropWhile blank = (c :: cs).reverse := by
        rw [List.dropWhile_eq_self_iff]
        intro hpos
        have hnot := hcore _ (List.mem_reverse.mp (List.getElem_mem hpos))
        rw [hnot]
        exact Bool.false_ne_true
      rw [hlast, List.reverse_reverse]

theorem strip_of_notBlank {blank : UInt8 → Bool} {text : Bytes} (h : ∀ b ∈ text, blank b = false) :
    stripBy blank text = text := by
  simpa using strip_pad (nofun : ∀ b ∈ [], blank b) h (nofun : ∀ b ∈ [], blank b)

/-! ## `int` -/

/-- Digits with single underscores between them, behind those read. -/
def digitsFrom (base : ℕ) : ℕ → Bytes → Option ℕ
  | n, [] => some n
  | n, [b] => (digitIn base b).map (n * base + ·)
  | n, b :: c :: rest =>
      if b = 95 then (digitIn base c).bind fun d => digitsFrom base (n * base + d) rest
      else (digitIn base b).bind fun d => digitsFrom base (n * base + d) (c :: rest)

/-- The text behind `0x`, where an underscore may stand. -/
def behindPrefix : Bytes → Option Bytes
  | 48 :: x :: rest =>
      if x = 120 ∨ x = 88 then some (if rest.head? = some 95 then rest.tail else rest)
      else none
  | _ => none

/-- A numeral without its sign. -/
def magnitude (base : ℕ) (text : Bytes) : Option ℕ :=
  let digits := if base = 16 then (behindPrefix text).getD text else text
  if base = 10 ∧ 4300 < digits.countP (· ≠ 95) then none
  else match digits with
    | [] => none
    | b :: bs => (digitIn base b).bind fun d => digitsFrom base d bs

/-- `int(text, base)`; `none` is its `ValueError`. -/
def pyInt (blank : UInt8 → Bool) (base : ℕ) (text : Bytes) : Option ℤ :=
  match stripBy blank text with
  | 45 :: rest => (magnitude base rest).map fun n : ℕ => -(n : ℤ)
  | 43 :: rest => (magnitude base rest).map fun n : ℕ => (n : ℤ)
  | rest => (magnitude base rest).map fun n : ℕ => (n : ℤ)

/-- Plain digits are read one by one. -/
theorem digitsFrom_digits {base : ℕ} {text : Bytes}
    (h : ∀ b ∈ text, (digitIn base b).isSome) (n : ℕ) :
    digitsFrom base n text = some (text.foldl (pushDigit base) n) := by
  have hunderscore : ∀ b, (digitIn base b).isSome → b ≠ 95 := by
    rintro b hb rfl
    cases hb
  induction text generalizing n with
  | nil => rfl
  | cons b bs ih =>
      obtain ⟨d, hd⟩ := Option.isSome_iff_exists.mp (h b List.mem_cons_self)
      have hpush : pushDigit base n b = n * base + d := by rw [pushDigit, hd, Option.getD_some]
      rw [List.foldl_cons, hpush]
      cases bs with
      | nil => rw [digitsFrom, hd, Option.map_some, List.foldl_nil]
      | cons c cs =>
          rw [digitsFrom, if_neg (hunderscore b (h b List.mem_cons_self)), hd, Option.bind_some]
          exact ih (fun x hx => h x (List.mem_cons_of_mem _ hx)) _

/-- No digit is a blank or a sign. -/
theorem digit_ne {base : ℕ} {b : UInt8} (h : (digitIn base b).isSome) (c : UInt8)
    (hc : digitValue c = none) : b ≠ c := by
  rintro rfl
  rw [digitIn, hc] at h
  cases h

/-- The letter of the prefix is not a digit of base 16. -/
theorem behindPrefix_digits {text : Bytes} (h : ∀ b ∈ text, (digitIn 16 b).isSome) :
    behindPrefix text = none := by
  match text, h with
  | [], _ => rfl
  | [_], _ => rw [behindPrefix]; nofun
  | b :: x :: rest, h =>
      have hx := h x (by simp)
      rw [behindPrefix.eq_def]
      split
      case h_1 x' rest' heq =>
          obtain ⟨-, rfl, -⟩ : b = 48 ∧ x = x' ∧ rest = rest' := by simpa using heq
          rw [if_neg]
          rintro (rfl | rfl) <;> cases hx
      · rfl

/-- **On plain digits** `int` gives their value, when it gives anything. -/
theorem pyInt_digits {blank : UInt8 → Bool} {base : ℕ} {text : Bytes} {n : ℤ}
    (hblank : ∀ b ∈ text, blank b = false) (h : Digits base text)
    (hint : pyInt blank base text = some n) : n = valueOf base text := by
  obtain ⟨hne, hall⟩ := h
  have hsign : ∀ rest, text ≠ 45 :: rest ∧ text ≠ 43 :: rest := fun rest =>
    ⟨fun heq => digit_ne (hall 45 (by simp [heq])) 45 (by decide) rfl,
      fun heq => digit_ne (hall 43 (by simp [heq])) 43 (by decide) rfl⟩
  have hmagnitude : pyInt blank base text = (magnitude base text).map fun n : ℕ => (n : ℤ) := by
    rw [pyInt, strip_of_notBlank hblank]
    split
    case h_1 rest => exact absurd rfl (hsign rest).1
    case h_2 rest => exact absurd rfl (hsign rest).2
    case h_3 => rfl
  have hdigits : (if base = 16 then (behindPrefix text).getD text else text) = text := by
    split
    case isTrue h16 => rw [behindPrefix_digits (h16 ▸ hall), Option.getD_none]
    case isFalse => rfl
  rw [hmagnitude, Option.map_eq_some_iff] at hint
  obtain ⟨m, hm, rfl⟩ := hint
  rw [magnitude, hdigits] at hm
  split at hm
  · cases hm
  · cases text with
    | nil => exact absurd rfl hne
    | cons b bs =>
        obtain ⟨d, hd⟩ := Option.isSome_iff_exists.mp (hall b List.mem_cons_self)
        dsimp only at hm
        rw [hd, Option.bind_some,
          digitsFrom_digits fun x hx => hall x (List.mem_cons_of_mem _ hx)] at hm
        have hpush : pushDigit base 0 b = d := by
          rw [pushDigit, hd, Option.getD_some, Nat.zero_mul, Nat.zero_add]
        rw [valueOf, List.foldl_cons, hpush]
        exact congrArg Nat.cast (Option.some.inj hm).symm

end MlxRuntime.Numerals
