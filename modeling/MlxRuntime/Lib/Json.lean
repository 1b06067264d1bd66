import Mathlib.Data.Nat.Digits.Lemmas

/-!
# JSON text

JSON values, the text an ASCII writer gives them, and a reader that gives every such
text its value back.  Numbers written without a fraction and without an exponent are
integers; the others are of a type `F` that the user of the module chooses, together with
a `FloatFormat` for their literals.

Strings are sequences of Unicode scalar values.  The writer escapes what is not printable
ASCII, above the basic plane as a surrogate pair; a surrogate alone is read as an error.

## Main definitions

* `Json` — values.
* `Json.text` — the text of a value.
* `Json.parse` — the value of a text.
* `Json.Style`, `Json.write` — writers of other texts.
* `Json.parse_write`, `Json.parse_text` — the round trip.
* `Json.parse_str_length` — a string is shorter than the text of its object.
-/

namespace MlxRuntime

/-- A JSON value, with `F` the numbers that are not integers. -/
inductive Json (F : Type) where
  | null
  | bool (b : Bool)
  | int (n : ℤ)
  | float (x : F)
  | str (s : String)
  | arr (items : List (Json F))
  | obj (members : List (String × Json F))

namespace Json

/-! ## Strings -/

/-- The four hexadecimal digits of a number below `65536`. -/
def hexDigits (n : ℕ) : List Char :=
  [Nat.digitChar (n / 4096), Nat.digitChar (n / 256 % 16), Nat.digitChar (n / 16 % 16),
    Nat.digitChar (n % 16)]

/-- The UTF-16 units of a character. -/
def utf16 (c : Char) : List ℕ :=
  if c.toNat < 65536 then [c.toNat]
  else [55296 + (c.toNat - 65536) / 1024, 56320 + (c.toNat - 65536) % 1024]

/-- The characters with an escape of two characters, and the second one. -/
def shortEscapes : List (Char × Char) :=
  [('"', '"'), ('\\', '\\'), ('\n', 'n'), ('\r', 'r'), ('\t', 't'), ('\x0c', 'f'), ('\x08', 'b')]

/-- A character in a string. -/
def escape (c : Char) : List Char :=
  match shortEscapes.lookup c with
  | some e => ['\\', e]
  | none =>
      if 32 ≤ c.toNat ∧ c.toNat ≤ 126 then [c]
      else (utf16 c).flatMap fun n => '\\' :: 'u' :: hexDigits n

/-- A string with its quotes. -/
def textString (s : String) : List Char :=
  '"' :: (s.toList.flatMap escape ++ ['"'])

/-- The value of a hexadecimal digit. -/
def hexValue (c : Char) : Option ℕ :=
  if '0' ≤ c ∧ c ≤ '9' then some (c.toNat - 48)
  else if 'a' ≤ c ∧ c ≤ 'f' then some (c.toNat - 87)
  else if 'A' ≤ c ∧ c ≤ 'F' then some (c.toNat - 55)
  else none

/-- What an escape of two characters stands for. -/
def unescape (c : Char) : Option Char :=
  if c = '/' then some '/' else (shortEscapes.map Prod.swap).lookup c

/-- The UTF-16 units up to the closing quote, and what follows it.  A character that is
not escaped counts as one unit. -/
def units : List Char → Option (List ℕ × List Char)
  | [] => none
  | '"' :: rest => some ([], rest)
  | '\\' :: 'u' :: a :: b :: c :: d :: rest => do
      let n := (← hexValue a) * 4096 + (← hexValue b) * 256 + (← hexValue c) * 16 + (← hexValue d)
      let (ns, rest) ← units rest
      some (n :: ns, rest)
  | '\\' :: e :: rest => do
      let c ← unescape e
      let (ns, rest) ← units rest
      some (c.toNat :: ns, rest)
  | c :: rest =>
      if c.toNat < 32 ∨ c = '\\' then none
      else do
        let (ns, rest) ← units rest
        some (c.toNat :: ns, rest)

/-- The characters of UTF-16 units; a surrogate alone is none. -/
def scalars : List ℕ → Option (List Char)
  | [] => some []
  | n :: ns =>
      if 55296 ≤ n ∧ n < 56320 then
        match ns with
        | m :: ms =>
            if 56320 ≤ m ∧ m < 57344 then
              (scalars ms).map (Char.ofNat (65536 + (n - 55296) * 1024 + (m - 56320)) :: ·)
            else none
        | [] => none
      else if 56320 ≤ n ∧ n < 57344 then none
      else (scalars ns).map (Char.ofNat n :: ·)

/-- The string up to the closing quote, and what follows it. -/
def string (cs : List Char) : Option (String × List Char) := do
  let (ns, rest) ← units cs
  let chars ← scalars ns
  some (String.ofList chars, rest)

/-! ## Numbers -/

/-- A character of a number, or of the names `Infinity` and `NaN` that Python writes. -/
def isNumberChar (c : Char) : Bool :=
  c.isDigit || c = '-' || c = '+' || c = '.' || c = 'e' || c = 'E' || c = 'I' || c = 'n' ||
    c = 'f' || c = 'i' || c = 't' || c = 'y' || c = 'N' || c = 'a'

/-- The first character of a number or of such a name. -/
def startsNumber (c : Char) : Bool := c.isDigit || c = '-' || c = 'I' || c = 'N'

/-- The decimal digits of a number. -/
def textNat (n : ℕ) : List Char :=
  if n = 0 then ['0'] else ((Nat.digits 10 n).map Nat.digitChar).reverse

def textInt : ℤ → List Char
  | .ofNat n => textNat n
  | .negSucc n => '-' :: textNat (n + 1)

/-- The number of decimal digits without a leading zero. -/
def natOf (ds : List Char) : Option ℕ :=
  if ds = ['0'] then some 0
  else if ds ≠ [] ∧ ds.head? ≠ some '0' ∧ ds.all Char.isDigit then
    some (Nat.ofDigits 10 (ds.reverse.map fun c => c.toNat - 48))
  else none

def intOf : List Char → Option ℤ
  | '-' :: ds => (natOf ds).map fun n => -(n : ℤ)
  | ds => (natOf ds).map fun n => (n : ℤ)

/-- How the numbers of `F` are written and read.  `read` refuses what is no literal of a
number with a fraction or an exponent. -/
structure FloatFormat (F : Type) where
  repr : F → List Char
  read : List Char → Option F
  repr_chars : ∀ x, (repr x).all isNumberChar
  repr_start : ∀ x, ∃ c cs, repr x = c :: cs ∧ startsNumber c
  intOf_repr : ∀ x, intOf (repr x) = none
  read_repr : ∀ x, read (repr x) = some x

/-- No number has a fraction or an exponent. -/
def FloatFormat.integers : FloatFormat Empty where
  repr := nofun
  read := fun _ => none
  repr_chars := nofun
  repr_start := nofun
  intOf_repr := nofun
  read_repr := nofun

variable {F : Type}

/-- The number at the head of a text, and what follows it. -/
def number (format : FloatFormat F) (cs : List Char) : Option (Json F × List Char) :=
  let literal := cs.takeWhile isNumberChar
  let rest := cs.dropWhile isNumberChar
  match intOf literal with
  | some n => some (.int n, rest)
  | none => (format.read literal).map fun x => (.float x, rest)

/-! ## Values -/

mutual

/-- The text of a value. -/
def text (format : FloatFormat F) : Json F → List Char
  | .null => ['n', 'u', 'l', 'l']
  | .bool true => ['t', 'r', 'u', 'e']
  | .bool false => ['f', 'a', 'l', 's', 'e']
  | .int n => textInt n
  | .float x => format.repr x
  | .str s => textString s
  | .arr items => '[' :: textItems format items
  | .obj members => '{' :: textMembers format members
termination_by structural j => j

/-- The rest of an array. -/
def textItems (format : FloatFormat F) : List (Json F) → List Char
  | [] => [']']
  | [x] => text format x ++ [']']
  | x :: xs => text format x ++ ',' :: ' ' :: textItems format xs
termination_by structural xs => xs

/-- The rest of an object. -/
def textMembers (format : FloatFormat F) : List (String × Json F) → List Char
  | [] => ['}']
  | [m] => textMember format m ++ ['}']
  | m :: ms => textMember format m ++ ',' :: ' ' :: textMembers format ms
termination_by structural ms => ms

def textMember (format : FloatFormat F) : String × Json F → List Char
  | (key, x) => textString key ++ ':' :: ' ' :: text format x
termination_by structural m => m

end

mutual

/-- How deep arrays and objects nest. -/
def depth : Json F → ℕ
  | .arr items => depthItems items + 1
  | .obj members => depthMembers members + 1
  | _ => 0
termination_by structural j => j

def depthItems : List (Json F) → ℕ
  | [] => 0
  | x :: xs => max (depth x) (depthItems xs)
termination_by structural xs => xs

def depthMembers : List (String × Json F) → ℕ
  | [] => 0
  | m :: ms => max (depthMember m) (depthMembers ms)
termination_by structural ms => ms

def depthMember : String × Json F → ℕ
  | (_, x) => depth x
termination_by structural m => m

end

mutual

/-- Integers have 64 bits, signed or not, and no name occurs twice in one object. -/
def Regular : Json F → Prop
  | .int n => -2 ^ 63 ≤ n ∧ n < 2 ^ 64
  | .arr items => RegularItems items
  | .obj members => (members.map Prod.fst).Nodup ∧ RegularMembers members
  | _ => True
termination_by structural j => j

def RegularItems : List (Json F) → Prop
  | [] => True
  | x :: xs => Regular x ∧ RegularItems xs
termination_by structural xs => xs

def RegularMembers : List (String × Json F) → Prop
  | [] => True
  | m :: ms => RegularMember m ∧ RegularMembers ms
termination_by structural ms => ms

def RegularMember : String × Json F → Prop
  | (_, x) => Regular x
termination_by structural m => m

end

theorem regularMembers_iff {members : List (String × Json F)} :
    RegularMembers members ↔ ∀ m ∈ members, Regular m.2 := by
  induction members with
  | nil => simp [RegularMembers]
  | cons m ms ih =>
      obtain ⟨name, x⟩ := m
      simp [RegularMembers, RegularMember, ih]

theorem depthMembers_le_iff {members : List (String × Json F)} {d : ℕ} :
    depthMembers members ≤ d ↔ ∀ m ∈ members, depth m.2 ≤ d := by
  induction members with
  | nil => simp [depthMembers]
  | cons m ms ih =>
      obtain ⟨name, x⟩ := m
      simp [depthMembers, depthMember, ih]

theorem depthItems_le_iff {items : List (Json F)} {d : ℕ} :
    depthItems items ≤ d ↔ ∀ x ∈ items, depth x ≤ d := by
  induction items with
  | nil => simp [depthItems]
  | cons x xs ih => simp [depthItems, ih]

/-- An object of regular members that nest at most `d` deep. -/
theorem regular_obj {members : List (String × Json F)} {d : ℕ}
    (hnodup : (members.map Prod.fst).Nodup) (h : ∀ m ∈ members, m.2.Regular ∧ m.2.depth ≤ d) :
    (obj members).Regular ∧ (obj members).depth ≤ d + 1 :=
  ⟨⟨hnodup, regularMembers_iff.mpr fun m hm => (h m hm).1⟩,
    Nat.succ_le_succ (depthMembers_le_iff.mpr fun m hm => (h m hm).2)⟩

def isSpace (c : Char) : Bool := c = ' ' || c = '\t' || c = '\n' || c = '\r'

def skipSpace (cs : List Char) : List Char := cs.dropWhile isSpace

mutual

/-- The value at the head of a text, and what follows it.  The first argument bounds the
recursion. -/
def value (format : FloatFormat F) : ℕ → List Char → Option (Json F × List Char)
  | 0, _ => none
  | n + 1, cs =>
      match skipSpace cs with
      | 'n' :: 'u' :: 'l' :: 'l' :: rest => some (.null, rest)
      | 't' :: 'r' :: 'u' :: 'e' :: rest => some (.bool true, rest)
      | 'f' :: 'a' :: 'l' :: 's' :: 'e' :: rest => some (.bool false, rest)
      | '"' :: rest => (string rest).map fun (s, rest) => (.str s, rest)
      | '[' :: rest =>
          match skipSpace rest with
          | ']' :: rest => some (.arr [], rest)
          | rest => (items format n rest).map fun (xs, rest) => (.arr xs, rest)
      | '{' :: rest =>
          match skipSpace rest with
          | '}' :: rest => some (.obj [], rest)
          | rest => (members format n rest).map fun (ms, rest) => (.obj ms, rest)
      | cs => number format cs

/-- The items of an array that has one, up to its closing bracket. -/
def items (format : FloatFormat F) : ℕ → List Char → Option (List (Json F) × List Char)
  | 0, _ => none
  | n + 1, cs => do
      let (x, cs) ← value format n cs
      match skipSpace cs with
      | ']' :: cs => some ([x], cs)
      | ',' :: cs => do
          let (xs, cs) ← items format n cs
          some (x :: xs, cs)
      | _ => none

/-- The members of an object that has one, up to its closing brace. -/
def members (format : FloatFormat F) :
    ℕ → List Char → Option (List (String × Json F) × List Char)
  | 0, _ => none
  | n + 1, cs =>
      match skipSpace cs with
      | '"' :: cs => do
          let (key, cs) ← string cs
          match skipSpace cs with
          | ':' :: cs => do
              let (x, cs) ← value format n cs
              match skipSpace cs with
              | '}' :: cs => some ([(key, x)], cs)
              | ',' :: cs => do
                  let (ms, cs) ← members format n cs
                  some ((key, x) :: ms, cs)
              | _ => none
          | _ => none
      | _ => none

end

/-- The value of a text, which may have space around it. -/
def parse (format : FloatFormat F) (cs : List Char) : Option (Json F) :=
  match value format (cs.length + 1) cs with
  | some (j, rest) => if rest.all isSpace then some j else none
  | none => none

/-! ## Reading strings back -/

theorem hexValue_digitChar : ∀ d < 16, hexValue (Nat.digitChar d) = some d := by decide

theorem units_hexDigits {n : ℕ} (h : n < 65536) (rest : List Char) :
    units ('\\' :: 'u' :: (hexDigits n ++ rest)) =
      (units rest).map fun (ns, rest) => (n :: ns, rest) := by
  have hvalue : n / 4096 * 4096 + n / 256 % 16 * 256 + n / 16 % 16 * 16 + n % 16 = n := by omega
  rw [hexDigits, List.cons_append, List.cons_append, List.cons_append, List.cons_append, units,
    hexValue_digitChar _ (by omega), hexValue_digitChar _ (by omega),
    hexValue_digitChar _ (by omega), hexValue_digitChar _ (by omega)]
  simp only [Option.bind_eq_bind, Option.bind_some, hvalue, List.nil_append]
  cases units rest <;> rfl

theorem toNat_lt (c : Char) : c.toNat < 1114112 := by
  rcases c.valid with h | ⟨-, h⟩
  · exact Nat.lt_trans h (by decide)
  · exact h

/-- A character is no surrogate. -/
theorem not_surrogate (c : Char) : ¬ (55296 ≤ c.toNat ∧ c.toNat < 57344) := by
  rintro ⟨hle, hlt⟩
  rcases c.valid with h | ⟨h, -⟩
  · exact absurd h (Nat.not_lt.mpr hle)
  · exact absurd h (Nat.not_lt.mpr (Nat.le_of_lt_succ hlt))

theorem units_utf16 (c : Char) (rest : List Char) :
    units (((utf16 c).flatMap fun n => '\\' :: 'u' :: hexDigits n) ++ rest) =
      (units rest).map fun (ns, rest) => (utf16 c ++ ns, rest) := by
  have hlt := toNat_lt c
  rw [utf16]
  split
  case isTrue h =>
    simp only [List.flatMap_cons, List.flatMap_nil, List.append_nil, List.cons_append]
    rw [units_hexDigits h]
    rfl
  case isFalse h =>
    simp only [List.flatMap_cons, List.flatMap_nil, List.append_nil, List.cons_append,
      List.append_assoc]
    rw [units_hexDigits (by omega), units_hexDigits (by omega), Option.map_map]
    rfl

theorem mem_of_lookup {α β : Type} [BEq α] [LawfulBEq α] {l : List (α × β)} {a : α} {b : β}
    (h : l.lookup a = some b) : (a, b) ∈ l := by
  obtain ⟨l₁, l₂, rfl, -⟩ := List.lookup_eq_some_iff.mp h
  exact List.mem_append_right _ List.mem_cons_self

/-- An escape of two characters. -/
theorem units_short {c e : Char} (h : shortEscapes.lookup c = some e) (rest : List Char) :
    units ('\\' :: e :: rest) = (units rest).map fun (ns, rest) => (c.toNat :: ns, rest) := by
  have hall : ∀ p ∈ shortEscapes, p.2 ≠ 'u' ∧ unescape p.2 = some p.1 := by decide
  obtain ⟨hu, he⟩ := hall (c, e) (mem_of_lookup h)
  rw [units]
  · simp only [he, Option.bind_eq_bind, Option.bind_some]
    cases units rest <;> rfl
  · rintro a b c' d rest' heq -
    exact hu heq

/-- A character that is not escaped. -/
theorem units_plain {c : Char} (hquote : c ≠ '"') (hslash : c ≠ '\\') (h : 32 ≤ c.toNat)
    (rest : List Char) :
    units (c :: rest) = (units rest).map fun (ns, rest) => (c.toNat :: ns, rest) := by
  rw [units]
  · rw [if_neg (by simp [hslash]; omega)]
    cases units rest <;> rfl
  · exact fun heq => hquote heq
  · exact fun a b c' d rest' heq _ => hslash heq
  · exact fun e rest' heq _ => hslash heq

theorem units_escape (c : Char) (rest : List Char) :
    units (escape c ++ rest) = (units rest).map fun (ns, rest) => (utf16 c ++ ns, rest) := by
  rw [escape]
  cases h : shortEscapes.lookup c with
  | some e =>
      have hall : ∀ p ∈ shortEscapes, p.1.toNat < 65536 := by decide
      rw [utf16, if_pos (hall (c, e) (mem_of_lookup h))]
      exact units_short h rest
  | none =>
      dsimp only
      split
      case isFalse => exact units_utf16 c rest
      case isTrue hrange =>
        have hquote : c ≠ '"' := by rintro rfl; cases h
        have hslash : c ≠ '\\' := by rintro rfl; cases h
        rw [utf16, if_pos (by omega)]
        exact units_plain hquote hslash hrange.1 rest

theorem scalars_toNat (c : Char) (ns : List ℕ) :
    scalars (c.toNat :: ns) = (scalars ns).map (c :: ·) := by
  have hnot := not_surrogate c
  rw [scalars.eq_def]
  dsimp only
  rw [if_neg (by omega), if_neg (by omega), Char.ofNat_toNat]

theorem scalars_utf16 (c : Char) (ns : List ℕ) :
    scalars (utf16 c ++ ns) = (scalars ns).map (c :: ·) := by
  have hlt := toNat_lt c
  rw [utf16]
  split
  case isTrue h => exact scalars_toNat c ns
  case isFalse h =>
    have hc : 65536 + (55296 + (c.toNat - 65536) / 1024 - 55296) * 1024 +
        (56320 + (c.toNat - 65536) % 1024 - 56320) = c.toNat := by omega
    rw [List.cons_append, List.singleton_append, scalars.eq_def]
    dsimp only
    rw [if_pos (by omega), if_pos (by omega), hc, Char.ofNat_toNat]

/-! ## Reading numbers back -/

theorem digitChar_spec : ∀ d < 10, (Nat.digitChar d).isDigit ∧ (Nat.digitChar d).toNat - 48 = d ∧
    (Nat.digitChar d = '0' → d = 0) := by decide

theorem isDigit_textNat (n : ℕ) : (textNat n).all Char.isDigit := by
  rw [textNat]
  split
  · rfl
  · rw [List.all_eq_true]
    intro c hc
    obtain ⟨d, hd, rfl⟩ := List.mem_map.mp (List.mem_reverse.mp hc)
    exact (digitChar_spec d (Nat.digits_lt_base (by decide) hd)).1

theorem natOf_textNat (n : ℕ) : natOf (textNat n) = some n := by
  have hdigits := isDigit_textNat n
  rw [textNat] at hdigits ⊢
  by_cases h : n = 0
  · rw [if_pos h, h]; rfl
  rw [if_neg h] at hdigits ⊢
  have hne : Nat.digits 10 n ≠ [] := Nat.digits_ne_nil_iff_ne_zero.mpr h
  have hlast : ((Nat.digits 10 n).map Nat.digitChar).reverse.head? ≠ some '0' := by
    rw [List.head?_reverse, List.getLast?_map, List.getLast?_eq_some_getLast hne]
    intro heq
    have hlt := Nat.digits_lt_base (m := n) (b := 10) (by decide) (List.getLast_mem hne)
    exact Nat.getLast_digit_ne_zero 10 h ((digitChar_spec _ hlt).2.2 (Option.some.inj heq))
  have hmap : ((Nat.digits 10 n).map Nat.digitChar).map (fun c => c.toNat - 48) =
      Nat.digits 10 n := by
    rw [List.map_map]
    refine (List.map_congr_left fun d hd => ?_).trans (List.map_id _)
    exact (digitChar_spec d (Nat.digits_lt_base (by decide) hd)).2.1
  rw [natOf, if_neg, if_pos ⟨by simp [hne], hlast, hdigits⟩, List.reverse_reverse, hmap,
    Nat.ofDigits_digits]
  intro heq
  rw [heq] at hlast
  exact hlast rfl

theorem head_textNat (n : ℕ) : ∃ c cs, textNat n = c :: cs ∧ c.isDigit := by
  have hdigits := isDigit_textNat n
  cases h : textNat n with
  | nil =>
      have heq := natOf_textNat n
      rw [h] at heq
      cases heq
  | cons c cs =>
      rw [h, List.all_cons, Bool.and_eq_true] at hdigits
      exact ⟨c, cs, rfl, hdigits.1⟩

theorem intOf_textInt (n : ℤ) : intOf (textInt n) = some n := by
  cases n with
  | ofNat n =>
      obtain ⟨c, cs, heq, hc⟩ := head_textNat n
      rw [textInt, heq, intOf, ← heq, natOf_textNat]
      · rfl
      · intro ds hcons
        rw [(List.cons.inj hcons).1] at hc
        exact absurd hc (by decide)
  | negSucc n =>
      rw [textInt, intOf, natOf_textNat]
      rfl

theorem isNumberChar_textInt (n : ℤ) : (textInt n).all isNumberChar := by
  have hnat : ∀ n, (textNat n).all isNumberChar := fun n => by
    rw [List.all_eq_true]
    intro c hc
    have hdigit := List.all_eq_true.mp (isDigit_textNat n) c hc
    simp [isNumberChar, hdigit]
  cases n with
  | ofNat n => exact hnat n
  | negSucc n => rw [textInt, List.all_cons, hnat, Bool.and_true]; rfl

/-- What follows a number: nothing a number could go on with. -/
def Stop (rest : List Char) : Prop := ∀ c ∈ rest.head?, isNumberChar c = false

variable {format : FloatFormat F}

theorem takeWhile_number {literal rest : List Char} (h : literal.all isNumberChar)
    (hrest : Stop rest) : (literal ++ rest).takeWhile isNumberChar = literal ∧
      (literal ++ rest).dropWhile isNumberChar = rest := by
  rw [List.takeWhile_append_of_pos (List.all_eq_true.mp h),
    List.dropWhile_append_of_pos (List.all_eq_true.mp h)]
  cases rest with
  | nil => simp
  | cons c rest => simp [hrest c rfl]

theorem number_textInt (n : ℤ) {rest : List Char} (hrest : Stop rest) :
    number format (textInt n ++ rest) = some (.int n, rest) := by
  obtain ⟨htake, hdrop⟩ := takeWhile_number (isNumberChar_textInt n) hrest
  rw [number, htake, hdrop, intOf_textInt]

/-! ## Writers -/

/-- How a writer escapes the characters of strings, and what it puts after commas and colons. -/
structure Style where
  escape : Char → List Char
  gap : List Char
  gap_space : gap.all isSpace
  units_escape : ∀ c, ∃ ns, (∀ rest, units (escape c ++ rest) =
    (units rest).map fun (ms, rest) => (ns ++ ms, rest)) ∧
      ∀ ms, scalars (ns ++ ms) = (scalars ms).map (c :: ·)

/-- The writer of `text`. -/
def Style.ascii : Style where
  escape := Json.escape
  gap := [' ']
  gap_space := rfl
  units_escape c := ⟨utf16 c, Json.units_escape c, scalars_utf16 c⟩

/-- A character in a string of which only quotes, backslashes and control characters are
escaped. -/
def escapeControl (c : Char) : List Char :=
  match shortEscapes.lookup c with
  | some e => ['\\', e]
  | none => if c.toNat < 32 then '\\' :: 'u' :: hexDigits c.toNat else [c]

theorem units_escapeControl (c : Char) (rest : List Char) : units (escapeControl c ++ rest) =
    (units rest).map fun (ns, rest) => (c.toNat :: ns, rest) := by
  rw [escapeControl]
  cases h : shortEscapes.lookup c with
  | some e => exact units_short h rest
  | none =>
      dsimp only
      split
      case isTrue hlt => exact units_hexDigits (by omega) rest
      case isFalse hge =>
          refine units_plain ?_ ?_ (Nat.le_of_not_lt hge) rest
          · rintro rfl
            cases h
          · rintro rfl
            cases h

/-- A writer without gaps. -/
def Style.compact : Style where
  escape := escapeControl
  gap := []
  gap_space := rfl
  units_escape c := ⟨[c.toNat], units_escapeControl c, scalars_toNat c⟩

variable {G : Type}

/-- A string with its quotes. -/
def Style.string (style : Style) (s : String) : List Char :=
  '"' :: (s.toList.flatMap style.escape ++ ['"'])

mutual

/-- The text of a value, of which `print` writes the numbers that are no integers. -/
def write (style : Style) (print : G → List Char) : Json G → List Char
  | .null => ['n', 'u', 'l', 'l']
  | .bool true => ['t', 'r', 'u', 'e']
  | .bool false => ['f', 'a', 'l', 's', 'e']
  | .int n => textInt n
  | .float x => print x
  | .str s => style.string s
  | .arr items => '[' :: writeItems style print items
  | .obj members => '{' :: writeMembers style print members
termination_by structural j => j

/-- The rest of an array. -/
def writeItems (style : Style) (print : G → List Char) : List (Json G) → List Char
  | [] => [']']
  | [x] => write style print x ++ [']']
  | x :: xs => write style print x ++ ',' :: (style.gap ++ writeItems style print xs)
termination_by structural xs => xs

/-- The rest of an object. -/
def writeMembers (style : Style) (print : G → List Char) : List (String × Json G) → List Char
  | [] => ['}']
  | [m] => writeMember style print m ++ ['}']
  | m :: ms => writeMember style print m ++ ',' :: (style.gap ++ writeMembers style print ms)
termination_by structural ms => ms

def writeMember (style : Style) (print : G → List Char) : String × Json G → List Char
  | (key, x) => style.string key ++ ':' :: (style.gap ++ write style print x)
termination_by structural m => m

end

mutual

/-- A value with other numbers. -/
def bindFloat (val : G → Json F) : Json G → Json F
  | .null => .null
  | .bool b => .bool b
  | .int n => .int n
  | .float x => val x
  | .str s => .str s
  | .arr items => .arr (bindItems val items)
  | .obj members => .obj (bindMembers val members)
termination_by structural j => j

def bindItems (val : G → Json F) : List (Json G) → List (Json F)
  | [] => []
  | x :: xs => bindFloat val x :: bindItems val xs
termination_by structural xs => xs

def bindMembers (val : G → Json F) : List (String × Json G) → List (String × Json F)
  | [] => []
  | m :: ms => bindMember val m :: bindMembers val ms
termination_by structural ms => ms

def bindMember (val : G → Json F) : String × Json G → String × Json F
  | (key, x) => (key, bindFloat val x)
termination_by structural m => m

end

theorem bindItems_eq_map (val : G → Json F) (items : List (Json G)) :
    bindItems val items = items.map (bindFloat val) := by
  induction items with
  | nil => rfl
  | cons x xs ih => rw [bindItems, ih, List.map_cons]

theorem bindMembers_eq_map (val : G → Json F) (members : List (String × Json G)) :
    bindMembers val members = members.map fun m => (m.1, bindFloat val m.2) := by
  induction members with
  | nil => rfl
  | cons m ms ih =>
      obtain ⟨key, x⟩ := m
      rw [bindMembers, bindMember, ih, List.map_cons]

mutual

theorem bindFloat_float : ∀ j : Json F, bindFloat .float j = j
  | .null | .bool _ | .int _ | .float _ | .str _ => rfl
  | .arr items => by rw [bindFloat, bindItems_float]
  | .obj members => by rw [bindFloat, bindMembers_float]
termination_by structural j => j

theorem bindItems_float : ∀ xs : List (Json F), bindItems .float xs = xs
  | [] => rfl
  | x :: xs => by rw [bindItems, bindFloat_float x, bindItems_float xs]
termination_by structural xs => xs

theorem bindMembers_float : ∀ ms : List (String × Json F), bindMembers .float ms = ms
  | [] => rfl
  | m :: ms => by rw [bindMembers, bindMember_float m, bindMembers_float ms]
termination_by structural ms => ms

theorem bindMember_float : ∀ m : String × Json F, bindMember .float m = m
  | (key, x) => by rw [bindMember, bindFloat_float x]
termination_by structural m => m

end

mutual

/-- Numbers do not nest. -/
theorem depth_bindFloat {val : G → Json F} (h : ∀ x, (val x).depth = 0) :
    ∀ j, (bindFloat val j).depth = j.depth
  | .null | .bool _ | .int _ | .str _ => rfl
  | .float x => h x
  | .arr items => by rw [bindFloat, depth, depth, depthItems_bindItems h]
  | .obj members => by rw [bindFloat, depth, depth, depthMembers_bindMembers h]
termination_by structural j => j

theorem depthItems_bindItems {val : G → Json F} (h : ∀ x, (val x).depth = 0) :
    ∀ xs, depthItems (bindItems val xs) = depthItems xs
  | [] => rfl
  | x :: xs => by
      rw [bindItems, depthItems, depthItems, depth_bindFloat h x, depthItems_bindItems h xs]
termination_by structural xs => xs

theorem depthMembers_bindMembers {val : G → Json F} (h : ∀ x, (val x).depth = 0) :
    ∀ ms, depthMembers (bindMembers val ms) = depthMembers ms
  | [] => rfl
  | m :: ms => by
      rw [bindMembers, depthMembers, depthMembers, depthMember_bindMember h m,
        depthMembers_bindMembers h ms]
termination_by structural ms => ms

theorem depthMember_bindMember {val : G → Json F} (h : ∀ x, (val x).depth = 0) :
    ∀ m, depthMember (bindMember val m) = depthMember m
  | (_, x) => depth_bindFloat h x
termination_by structural m => m

end

/-! ## Reading values back -/

theorem skipSpace_of_not {c : Char} (h : isSpace c = false) (cs : List Char) :
    skipSpace (c :: cs) = c :: cs := by
  rw [skipSpace, List.dropWhile_cons_of_neg (by simp [h])]

theorem skipSpace_gap {gap : List Char} (h : gap.all isSpace) (cs : List Char) :
    skipSpace (gap ++ cs) = skipSpace cs :=
  List.dropWhile_append_of_pos (List.all_eq_true.mp h)

theorem not_isSpace_of_number {c : Char} (h : isNumberChar c) : isSpace c = false := by
  rw [Bool.eq_false_iff]
  intro hspace
  simp only [isSpace, Bool.or_eq_true, decide_eq_true_eq] at hspace
  rcases hspace with ((rfl | rfl) | rfl) | rfl <;> exact absurd h (by decide)

theorem isNumberChar_of_starts {c : Char} (h : startsNumber c) : isNumberChar c := by
  simp only [startsNumber, isNumberChar, Bool.or_eq_true, decide_eq_true_eq] at h ⊢
  rcases h with ((h | h) | h) | h <;> simp [h]

theorem value_gap {gap : List Char} (h : gap.all isSpace) (n : ℕ) (cs : List Char) :
    value format n (gap ++ cs) = value format n cs := by
  cases n with
  | zero => rw [value, value]
  | succ n => rw [value, value, skipSpace_gap h]

theorem items_gap {gap : List Char} (h : gap.all isSpace) (n : ℕ) (cs : List Char) :
    items format n (gap ++ cs) = items format n cs := by
  cases n with
  | zero => rw [items, items]
  | succ n => rw [items, items, value_gap h]

theorem members_gap {gap : List Char} (h : gap.all isSpace) (n : ℕ) (cs : List Char) :
    members format n (gap ++ cs) = members format n cs := by
  cases n with
  | zero => rw [members, members]
  | succ n => rw [members, members, skipSpace_gap h]

theorem units_string (style : Style) (cs rest : List Char) :
    ∃ ns, units (cs.flatMap style.escape ++ '"' :: rest) = some (ns, rest) ∧
      scalars ns = some cs := by
  induction cs with
  | nil => exact ⟨[], by rw [List.flatMap_nil, List.nil_append, units], rfl⟩
  | cons c cs ih =>
      obtain ⟨ms, hunits, hscalars⟩ := ih
      obtain ⟨ns, hescape, hchar⟩ := style.units_escape c
      refine ⟨ns ++ ms, ?_, ?_⟩
      · rw [List.flatMap_cons, List.append_assoc, hescape, hunits]
        rfl
      · rw [hchar, hscalars]
        rfl

theorem string_escape (style : Style) (s : String) (rest : List Char) :
    string (s.toList.flatMap style.escape ++ '"' :: rest) = some (s, rest) := by
  obtain ⟨ns, hunits, hscalars⟩ := units_string style s.toList rest
  rw [string, hunits]
  simp only [Option.bind_eq_bind, Option.bind_some, hscalars, String.ofList_toList]

/-- What starts as a number is read as a number. -/
theorem value_number {c : Char} (h : startsNumber c) (n : ℕ) (cs : List Char) :
    value format (n + 1) (c :: cs) = number format (c :: cs) := by
  rw [value, skipSpace_of_not (not_isSpace_of_number (isNumberChar_of_starts h))]
  split
  all_goals first
    | rfl
    | rename_i heq
      rw [(List.cons.inj heq).1] at h
      exact absurd h (by decide)

/-- The numbers that `print` writes are read as `val`. -/
structure Prints (format : FloatFormat F) (print : G → List Char) (val : G → Json F) : Prop where
  head : ∀ x, ∃ c cs, print x = c :: cs ∧ isSpace c = false ∧ c ≠ ']'
  read : ∀ x {n : ℕ} {rest : List Char}, (print x).length ≤ n → Stop rest →
    value format n (print x ++ rest) = some (val x, rest)

/-- A value starts with no space and with no closing bracket. -/
theorem starts_value {literal : List Char} (h : ∃ c cs, literal = c :: cs ∧ startsNumber c) :
    ∃ c cs, literal = c :: cs ∧ isSpace c = false ∧ c ≠ ']' := by
  obtain ⟨c, cs, hcons, hc⟩ := h
  refine ⟨c, cs, hcons, not_isSpace_of_number (isNumberChar_of_starts hc), ?_⟩
  rintro rfl
  exact absurd hc (by decide)

theorem value_of_number {literal rest : List Char} {n : ℕ} {j : Json F}
    (hstart : ∃ c cs, literal = c :: cs ∧ startsNumber c) (hn : literal.length ≤ n)
    (h : number format (literal ++ rest) = some (j, rest)) :
    value format n (literal ++ rest) = some (j, rest) := by
  obtain ⟨c, cs, rfl, hc⟩ := hstart
  obtain ⟨m, rfl⟩ := Nat.exists_eq_add_of_le' (Nat.le_trans (Nat.succ_pos _) hn)
  rw [List.cons_append, value_number hc, ← List.cons_append, h]

theorem starts_textInt (n : ℤ) : ∃ c cs, textInt n = c :: cs ∧ startsNumber c := by
  cases n with
  | ofNat n =>
      obtain ⟨c, cs, heq, hc⟩ := head_textNat n
      exact ⟨c, cs, heq, by simp [startsNumber, hc]⟩
  | negSucc n => exact ⟨'-', _, rfl, rfl⟩

/-- Literals of numbers. -/
theorem Prints.of_literal {print : G → List Char} {val : G → F}
    (hchars : ∀ x, (print x).all isNumberChar)
    (hstart : ∀ x, ∃ c cs, print x = c :: cs ∧ startsNumber c)
    (hint : ∀ x, intOf (print x) = none) (hread : ∀ x, format.read (print x) = some (val x)) :
    Prints format print fun x => .float (val x) where
  head x := starts_value (hstart x)
  read x n rest hn hrest := by
    refine value_of_number (hstart x) hn ?_
    obtain ⟨htake, hdrop⟩ := takeWhile_number (hchars x) hrest
    rw [number, htake, hdrop, hint]
    dsimp only
    rw [hread]
    rfl

theorem Prints.repr (format : FloatFormat F) : Prints format format.repr .float :=
  .of_literal format.repr_chars format.repr_start format.intOf_repr format.read_repr

theorem value_quote (n : ℕ) (cs : List Char) :
    value format (n + 1) ('"' :: cs) = (string cs).map fun (s, rest) => (.str s, rest) := by
  rw [value, skipSpace_of_not rfl]
  rfl

theorem value_bracket (n : ℕ) {c : Char} (hspace : isSpace c = false) (hne : c ≠ ']')
    (cs : List Char) : value format (n + 1) ('[' :: c :: cs) =
      (items format n (c :: cs)).map fun (xs, rest) => (.arr xs, rest) := by
  rw [value, skipSpace_of_not rfl]
  simp [skipSpace_of_not hspace, hne]

theorem value_brace (n : ℕ) (cs : List Char) : value format (n + 1) ('{' :: '"' :: cs) =
    (members format n ('"' :: cs)).map fun (ms, rest) => (.obj ms, rest) := by
  rw [value, skipSpace_of_not rfl]
  rfl

theorem items_cons {n : ℕ} {cs cs' : List Char} {x : Json F}
    (h : value format n cs = some (x, ',' :: cs')) :
    items format (n + 1) cs = (items format n cs').map fun (xs, rest) => (x :: xs, rest) := by
  rw [items, h]
  simp only [Option.bind_eq_bind, Option.bind_some, skipSpace_of_not (rfl : isSpace ',' = false)]
  cases items format n cs' <;> rfl

theorem items_last {n : ℕ} {cs cs' : List Char} {x : Json F}
    (h : value format n cs = some (x, ']' :: cs')) :
    items format (n + 1) cs = some ([x], cs') := by
  rw [items, h]
  simp only [Option.bind_eq_bind, Option.bind_some, skipSpace_of_not (rfl : isSpace ']' = false)]

section Write

variable (style : Style) {print : G → List Char} {val : G → Json F}

/-- A member up to its value. -/
theorem members_key (n : ℕ) (key : String) (cs : List Char) :
    members format (n + 1) (style.string key ++ ':' :: (style.gap ++ cs)) = (do
      let (x, cs) ← value format n cs
      match skipSpace cs with
      | '}' :: cs => some ([(key, x)], cs)
      | ',' :: cs => do
          let (ms, cs) ← members format n cs
          some ((key, x) :: ms, cs)
      | _ => none) := by
  rw [members, Style.string, List.cons_append, List.append_assoc, List.singleton_append,
    skipSpace_of_not rfl]
  simp only [string_escape, Option.bind_eq_bind, Option.bind_some,
    skipSpace_of_not (rfl : isSpace ':' = false), value_gap style.gap_space]

theorem members_cons {n : ℕ} {key : String} {cs cs' : List Char} {x : Json F}
    (h : value format n cs = some (x, ',' :: cs')) :
    members format (n + 1) (style.string key ++ ':' :: (style.gap ++ cs)) =
      (members format n cs').map fun (ms, rest) => ((key, x) :: ms, rest) := by
  rw [members_key, h]
  simp only [Option.bind_eq_bind, Option.bind_some, skipSpace_of_not (rfl : isSpace ',' = false)]
  cases members format n cs' <;> rfl

theorem members_last {n : ℕ} {key : String} {cs cs' : List Char} {x : Json F}
    (h : value format n cs = some (x, '}' :: cs')) :
    members format (n + 1) (style.string key ++ ':' :: (style.gap ++ cs)) =
      some ([(key, x)], cs') := by
  rw [members_key, h]
  simp only [Option.bind_eq_bind, Option.bind_some, skipSpace_of_not (rfl : isSpace '}' = false)]

theorem head_write (hprint : Prints format print val) (j : Json G) :
    ∃ c cs, write style print j = c :: cs ∧ isSpace c = false ∧ c ≠ ']' := by
  cases j with
  | null => exact ⟨'n', _, by rw [write], rfl, by decide⟩
  | bool b =>
      cases b with
      | true => exact ⟨'t', _, by rw [write], rfl, by decide⟩
      | false => exact ⟨'f', _, by rw [write], rfl, by decide⟩
  | int n => rw [write]; exact starts_value (starts_textInt n)
  | float x => rw [write]; exact hprint.head x
  | str s => exact ⟨'"', _, by rw [write, Style.string], rfl, by decide⟩
  | arr items => exact ⟨'[', _, by rw [write], rfl, by decide⟩
  | obj members => exact ⟨'{', _, by rw [write], rfl, by decide⟩

theorem head_writeMembers (print : G → List Char) (m : String × Json G)
    (ms : List (String × Json G)) :
    ∃ cs, writeMembers style print (m :: ms) = '"' :: cs := by
  obtain ⟨key, x⟩ := m
  cases ms with
  | nil =>
      rw [writeMembers, writeMember, Style.string, List.cons_append, List.cons_append]
      exact ⟨_, rfl⟩
  | cons m' ms =>
      rw [writeMembers, writeMember, Style.string, List.cons_append, List.cons_append]
      · exact ⟨_, rfl⟩
      · simp

theorem head_writeItems (hprint : Prints format print val) (x : Json G) (xs : List (Json G)) :
    ∃ c cs, writeItems style print (x :: xs) = c :: cs ∧ isSpace c = false ∧ c ≠ ']' := by
  obtain ⟨c, cs, heq, hc⟩ := head_write style hprint x
  cases xs with
  | nil =>
      rw [writeItems, heq, List.cons_append]
      exact ⟨c, _, rfl, hc⟩
  | cons y ys =>
      rw [writeItems, heq, List.cons_append]
      · exact ⟨c, _, rfl, hc⟩
      · simp

theorem stop_cons {c : Char} (h : isNumberChar c = false) (rest : List Char) :
    Stop (c :: rest) := by
  rintro c' hc'
  rwa [← Option.some.inj hc']

mutual

/-- **A value's text is read as that value.** -/
theorem value_write (hprint : Prints format print val) : ∀ (j : Json G) {n : ℕ} {r : List Char},
    (write style print j).length ≤ n → Stop r →
    value format n (write style print j ++ r) = some (bindFloat val j, r)
  | j, 0, r, hn, _ => by
      obtain ⟨c, cs, heq, -⟩ := head_write style hprint j
      rw [heq] at hn
      cases hn
  | .null, n + 1, r, _, _ => by rw [write, value]; rfl
  | .bool true, n + 1, r, _, _ => by rw [write, value]; rfl
  | .bool false, n + 1, r, _, _ => by rw [write, value]; rfl
  | .int i, n, r, hn, hr => by
      rw [write] at hn ⊢
      exact value_of_number (starts_textInt i) hn (number_textInt i hr)
  | .float x, n, r, hn, hr => by
      rw [write] at hn ⊢
      exact hprint.read x hn hr
  | .str s, n + 1, r, _, _ => by
      rw [write, Style.string, List.cons_append, List.append_assoc, List.singleton_append,
        value_quote, string_escape]
      rfl
  | .arr [], n + 1, r, _, _ => by
      rw [write, writeItems, value]
      rfl
  | .arr (x :: xs), n + 1, r, hn, _ => by
      rw [write, List.length_cons] at hn
      have h := items_write hprint (x :: xs) (List.cons_ne_nil x xs) (r := r)
        (Nat.le_of_succ_le_succ hn)
      obtain ⟨c, cs, heq, hspace, hne⟩ := head_writeItems style hprint x xs
      rw [heq, List.cons_append] at h
      rw [write, heq, List.cons_append, List.cons_append, value_bracket n hspace hne, h]
      rfl
  | .obj [], n + 1, r, _, _ => by
      rw [write, writeMembers, value]
      rfl
  | .obj (m :: ms), n + 1, r, hn, _ => by
      rw [write, List.length_cons] at hn
      have h := members_write hprint (m :: ms) (List.cons_ne_nil m ms) (r := r)
        (Nat.le_of_succ_le_succ hn)
      obtain ⟨cs, heq⟩ := head_writeMembers style print m ms
      rw [heq, List.cons_append] at h
      rw [write, heq, List.cons_append, List.cons_append, value_brace, h]
      rfl
termination_by structural j => j

theorem items_write (hprint : Prints format print val) :
    ∀ (xs : List (Json G)) (_ : xs ≠ []) {n : ℕ} {r : List Char},
    (writeItems style print xs).length ≤ n →
    items format n (writeItems style print xs ++ r) = some (bindItems val xs, r)
  | [], h, _, _, _ => absurd rfl h
  | x :: xs, _, 0, r, hn => by
      obtain ⟨c, cs, heq, -⟩ := head_writeItems style hprint x xs
      rw [heq] at hn
      cases hn
  | [x], _, n + 1, r, hn => by
      have hx := value_write hprint x (n := n) (r := ']' :: r)
      rw [writeItems, List.length_append, List.length_singleton] at hn
      rw [writeItems, List.append_assoc, List.singleton_append]
      exact items_last (hx (Nat.le_of_succ_le_succ hn) (stop_cons rfl _))
  | x :: y :: ys, _, n + 1, r, hn => by
      have hx := value_write hprint x (n := n)
        (r := ',' :: (style.gap ++ (writeItems style print (y :: ys) ++ r)))
      have hxs := items_write hprint (y :: ys) (List.cons_ne_nil y ys) (n := n) (r := r)
      rw [writeItems, List.length_append, List.length_cons, List.length_append] at hn
      · rw [writeItems, List.append_assoc, List.cons_append, List.append_assoc,
          items_cons (hx (by omega) (stop_cons rfl _)), items_gap style.gap_space,
          hxs (by omega)]
        · rfl
        · simp
      · simp
termination_by structural xs => xs

theorem members_write (hprint : Prints format print val) :
    ∀ (ms : List (String × Json G)) (_ : ms ≠ []) {n : ℕ} {r : List Char},
    (writeMembers style print ms).length ≤ n →
    members format n (writeMembers style print ms ++ r) = some (bindMembers val ms, r)
  | [], h, _, _, _ => absurd rfl h
  | m :: ms, _, 0, r, hn => by
      obtain ⟨cs, heq⟩ := head_writeMembers style print m ms
      rw [heq] at hn
      cases hn
  | [m], _, n + 1, r, hn => by
      obtain ⟨key, x⟩ := m
      have hx := member_write hprint (key, x) key x rfl (n := n) (r := '}' :: r)
      rw [writeMembers, writeMember, List.length_append, List.length_append, List.length_cons,
        List.length_append, List.length_singleton] at hn
      rw [writeMembers, writeMember, List.append_assoc, List.append_assoc, List.cons_append,
        List.append_assoc, List.singleton_append]
      exact members_last style (hx (by omega) (stop_cons rfl _))
  | m :: m' :: ms, _, n + 1, r, hn => by
      obtain ⟨key, x⟩ := m
      have hx := member_write hprint (key, x) key x rfl (n := n)
        (r := ',' :: (style.gap ++ (writeMembers style print (m' :: ms) ++ r)))
      have hms := members_write hprint (m' :: ms) (List.cons_ne_nil m' ms) (n := n) (r := r)
      rw [writeMembers, writeMember, List.length_append, List.length_append, List.length_cons,
        List.length_append, List.length_cons, List.length_append] at hn
      · rw [writeMembers, writeMember, List.append_assoc, List.append_assoc, List.cons_append,
          List.append_assoc, List.cons_append, List.append_assoc,
          members_cons style (hx (by omega) (stop_cons rfl _)), members_gap style.gap_space,
          hms (by omega)]
        · rfl
        · simp
      · simp
termination_by structural ms => ms

theorem member_write (hprint : Prints format print val) :
    ∀ (m : String × Json G) (key : String) (x : Json G) (_ : m = (key, x)) {n : ℕ} {r : List Char},
    (write style print x).length ≤ n → Stop r →
    value format n (write style print x ++ r) = some (bindFloat val x, r)
  | (_, x), _, _, rfl, _, _, hn, hr => value_write hprint x hn hr
termination_by structural m => m

end

/-- **The round trip.** A value's text, with space after it, is read as that value. -/
theorem parse_write (hprint : Prints format print val) (j : Json G) {space : List Char}
    (h : space.all isSpace) :
    parse format (write style print j ++ space) = some (bindFloat val j) := by
  have hstop : Stop space := by
    intro c hc
    by_contra hnumber
    rw [Bool.not_eq_false] at hnumber
    have hspace := List.all_eq_true.mp h c (List.mem_of_mem_head? hc)
    rw [not_isSpace_of_number hnumber] at hspace
    cases hspace
  rw [parse, value_write style hprint j (by rw [List.length_append]; omega) hstop]
  exact if_pos h

end Write

/-! ## The text of a value -/

mutual

theorem text_eq_write (format : FloatFormat F) :
    ∀ j : Json F, text format j = write .ascii format.repr j
  | .null | .bool true | .bool false | .int _ | .float _ | .str _ => rfl
  | .arr items => by rw [text, write, textItems_eq_write]
  | .obj members => by rw [text, write, textMembers_eq_write]
termination_by structural j => j

theorem textItems_eq_write (format : FloatFormat F) :
    ∀ xs : List (Json F), textItems format xs = writeItems .ascii format.repr xs
  | [] => rfl
  | [x] => by rw [textItems, writeItems, text_eq_write]
  | x :: y :: ys => by
      rw [textItems, writeItems, text_eq_write, textItems_eq_write]
      · rfl
      all_goals simp
termination_by structural xs => xs

theorem textMembers_eq_write (format : FloatFormat F) :
    ∀ ms : List (String × Json F), textMembers format ms = writeMembers .ascii format.repr ms
  | [] => rfl
  | [m] => by rw [textMembers, writeMembers, textMember_eq_write]
  | m :: m' :: ms => by
      rw [textMembers, writeMembers, textMember_eq_write, textMembers_eq_write]
      · rfl
      all_goals simp
termination_by structural ms => ms

theorem textMember_eq_write (format : FloatFormat F) :
    ∀ m : String × Json F, textMember format m = writeMember .ascii format.repr m
  | (key, x) => by
      rw [textMember, writeMember, text_eq_write]
      rfl
termination_by structural m => m

end

/-- The text of a value is read as that value. -/
theorem parse_text (j : Json F) {space : List Char} (h : space.all isSpace) :
    parse format (text format j ++ space) = some j := by
  rw [text_eq_write, parse_write .ascii (.repr format) j h, bindFloat_float]

/-! ## Members of objects -/

/-- The value of a name; the last one counts. -/
def get? (members : List (String × Json F)) (name : String) : Option (Json F) :=
  members.reverse.lookup name

/-- None of the names occurs twice. -/
def Once (members : List (String × Json F)) (names : List String) : Prop :=
  ∀ name ∈ names, (members.map Prod.fst).count name ≤ 1

instance (members : List (String × Json F)) (names : List String) :
    Decidable (Once members names) :=
  inferInstanceAs (Decidable (∀ name ∈ names, _ ≤ 1))

theorem once_of_nodup {members : List (String × Json F)} (h : (members.map Prod.fst).Nodup)
    (names : List String) : Once members names :=
  fun name _ => List.nodup_iff_count_le_one.mp h name

theorem get?_eq_none {members : List (String × Json F)} {name : String}
    (h : name ∉ members.map Prod.fst) : get? members name = none := by
  rw [get?, List.lookup_eq_none_iff]
  intro p hp
  have hmem : p.1 ∈ members.map Prod.fst := List.mem_map_of_mem (List.mem_reverse.mp hp)
  rw [bne_iff_ne]
  exact fun heq => h (heq ▸ hmem)

theorem get?_eq_some {members : List (String × Json F)} (hnodup : (members.map Prod.fst).Nodup)
    {name : String} {x : Json F} (h : (name, x) ∈ members) : get? members name = some x := by
  cases hget : get? members name with
  | none =>
      rw [get?, List.lookup_eq_none_iff] at hget
      simpa using hget _ (List.mem_reverse.mpr h)
  | some y =>
      have hy := List.mem_reverse.mp (mem_of_lookup hget)
      obtain ⟨i, hi, hix⟩ := List.getElem_of_mem h
      obtain ⟨j, hj, hjy⟩ := List.getElem_of_mem hy
      have hinj := List.nodup_iff_injective_get.mp hnodup
      have heq : i = j := by
        have := @hinj ⟨i, by simpa using hi⟩ ⟨j, by simpa using hj⟩ (by simp [hix, hjy])
        exact Fin.mk.inj_iff.mp this
      subst heq
      rw [hix] at hjy
      rw [(Prod.mk.inj hjy).2]

/-! ## Lengths -/

theorem units_length {cs rest : List Char} {ns : List ℕ} (h : units cs = some (ns, rest)) :
    ns.length + rest.length < cs.length := by
  induction cs using units.induct generalizing ns rest with
  | case1 => cases h
  | case2 rest' => cases h; simp
  | case3 a b c d rest' ih =>
    rw [units] at h
    simp only [Option.bind_eq_bind, Option.bind_eq_some_iff, Option.some.injEq, Prod.mk.injEq] at h
    obtain ⟨-, -, -, -, -, -, -, -, ⟨ms, rest''⟩, hunits, rfl, rfl⟩ := h
    have := ih hunits
    simp only [List.length_cons] at this ⊢
    omega
  | case4 e rest' hne ih =>
    rw [units] at h
    · simp only [Option.bind_eq_bind, Option.bind_eq_some_iff, Option.some.injEq,
        Prod.mk.injEq] at h
      obtain ⟨-, -, ⟨ms, rest''⟩, hunits, rfl, rfl⟩ := h
      have := ih hunits
      simp only [List.length_cons] at this ⊢
      omega
    · exact hne
  | case5 c rest' hquote hunicode hshort hbad =>
    rw [units, if_pos hbad] at h
    · cases h
    · exact hquote
    · exact hunicode
    · exact hshort
  | case6 c rest' hquote hunicode hshort hgood ih =>
    rw [units, if_neg hgood] at h
    · simp only [Option.bind_eq_bind, Option.bind_eq_some_iff, Option.some.injEq,
        Prod.mk.injEq] at h
      obtain ⟨⟨ms, rest''⟩, hunits, rfl, rfl⟩ := h
      have := ih hunits
      simp only [List.length_cons] at this ⊢
      omega
    · exact hquote
    · exact hunicode
    · exact hshort

theorem scalars_length {ns : List ℕ} {chars : List Char} (h : scalars ns = some chars) :
    chars.length ≤ ns.length := by
  induction ns using scalars.induct generalizing chars with
  | case1 => cases h; rfl
  | case2 n hhigh m ms hlow ih =>
    rw [scalars, if_pos hhigh, if_pos hlow] at h
    obtain ⟨cs, hcs, rfl⟩ := Option.map_eq_some_iff.mp h
    have := ih hcs
    simp only [List.length_cons]
    omega
  | case3 n hhigh m ms hlow =>
    rw [scalars, if_pos hhigh, if_neg hlow] at h
    cases h
  | case4 n hhigh =>
    rw [scalars, if_pos hhigh] at h
    cases h
  | case5 n ns hhigh hlow =>
    rw [scalars.eq_def] at h
    dsimp only at h
    rw [if_neg hhigh, if_pos hlow] at h
    cases h
  | case6 n ns hhigh hlow ih =>
    rw [scalars.eq_def] at h
    dsimp only at h
    rw [if_neg hhigh, if_neg hlow] at h
    obtain ⟨cs, hcs, rfl⟩ := Option.map_eq_some_iff.mp h
    exact Nat.succ_le_succ (ih hcs)

theorem string_length {cs rest : List Char} {s : String} (h : string cs = some (s, rest)) :
    s.length + rest.length < cs.length := by
  rw [string] at h
  simp only [Option.bind_eq_bind, Option.bind_eq_some_iff, Option.some.injEq,
    Prod.mk.injEq] at h
  obtain ⟨⟨ns, rest'⟩, hunits, chars, hscalars, rfl, rfl⟩ := h
  have hlt := units_length hunits
  have hle := scalars_length hscalars
  rw [String.length_ofList]
  dsimp only at hle ⊢
  omega

theorem skipSpace_length (cs : List Char) : (skipSpace cs).length ≤ cs.length :=
  (List.dropWhile_sublist _).length_le

theorem number_length {cs rest : List Char} {j : Json F} (h : number format cs = some (j, rest)) :
    rest.length ≤ cs.length := by
  have hle : (cs.dropWhile isNumberChar).length ≤ cs.length := (List.dropWhile_sublist _).length_le
  rw [number] at h
  split at h
  · cases h
    exact hle
  · obtain ⟨x, -, heq⟩ := Option.map_eq_some_iff.mp h
    cases heq
    exact hle

/-- A member and the members after it, with the texts that they are read from. -/
theorem members_succ {n : ℕ} {cs rest : List Char} {ms : List (String × Json F)}
    (h : members format (n + 1) cs = some (ms, rest)) :
    ∃ key x cs₁ cs₂ cs₃ cs₄ later, skipSpace cs = '"' :: cs₁ ∧ string cs₁ = some (key, cs₂) ∧
      skipSpace cs₂ = ':' :: cs₃ ∧ value format n cs₃ = some (x, cs₄) ∧ ms = (key, x) :: later ∧
      ((later = [] ∧ skipSpace cs₄ = '}' :: rest) ∨
        ∃ cs₅, skipSpace cs₄ = ',' :: cs₅ ∧ members format n cs₅ = some (later, rest)) := by
  rw [members] at h
  split at h
  case h_1 cs₁ hquote =>
    obtain ⟨⟨key, cs₂⟩, hstring, h⟩ := Option.bind_eq_some_iff.mp h
    dsimp only at h
    split at h
    case h_1 cs₃ hcolon =>
      obtain ⟨⟨x, cs₄⟩, hvalue, h⟩ := Option.bind_eq_some_iff.mp h
      dsimp only at h
      split at h
      case h_1 cs₅ hbrace =>
        cases h
        exact ⟨key, x, cs₁, cs₂, cs₃, cs₄, [], hquote, hstring, hcolon, hvalue, rfl,
          .inl ⟨rfl, hbrace⟩⟩
      case h_2 cs₅ hcomma =>
        obtain ⟨⟨later, rest'⟩, hmembers, heq⟩ := Option.bind_eq_some_iff.mp h
        cases heq
        exact ⟨key, x, cs₁, cs₂, cs₃, cs₄, later, hquote, hstring, hcolon, hvalue, rfl,
          .inr ⟨cs₅, hcomma, hmembers⟩⟩
      case h_3 => cases h
    case h_2 => cases h
  case h_2 => cases h

/-- What is left of a text is no longer than the text. -/
theorem rest_length (n : ℕ) :
    (∀ {cs rest : List Char} {j : Json F}, value format n cs = some (j, rest) →
      rest.length ≤ cs.length) ∧
    (∀ {cs rest : List Char} {xs : List (Json F)}, items format n cs = some (xs, rest) →
      rest.length ≤ cs.length) ∧
    (∀ {cs rest : List Char} {ms : List (String × Json F)}, members format n cs = some (ms, rest) →
      rest.length ≤ cs.length) := by
  induction n with
  | zero =>
    refine ⟨?_, ?_, ?_⟩ <;> intro cs rest x h <;> cases h
  | succ n ih =>
    obtain ⟨ihvalue, ihitems, ihmembers⟩ := ih
    refine ⟨?_, ?_, ?_⟩
    · intro cs rest j h
      have hskip := skipSpace_length cs
      rw [value] at h
      split at h
      case h_4 rest' heq =>
        obtain ⟨⟨s, rest''⟩, hstring, heq'⟩ := Option.map_eq_some_iff.mp h
        cases heq'
        have := string_length hstring
        rw [heq] at hskip
        simp only [List.length_cons] at hskip
        omega
      case h_5 rest' heq =>
        rw [heq] at hskip
        have hskip' := skipSpace_length rest'
        split at h
        case h_1 rest'' heq' =>
          cases h
          rw [heq'] at hskip'
          simp only [List.length_cons] at hskip hskip'
          omega
        case h_2 =>
          obtain ⟨⟨xs, rest''⟩, hitems, heq''⟩ := Option.map_eq_some_iff.mp h
          cases heq''
          have := ihitems hitems
          simp only [List.length_cons] at hskip
          omega
      case h_6 rest' heq =>
        rw [heq] at hskip
        have hskip' := skipSpace_length rest'
        split at h
        case h_1 rest'' heq' =>
          cases h
          rw [heq'] at hskip'
          simp only [List.length_cons] at hskip hskip'
          omega
        case h_2 =>
          obtain ⟨⟨xs, rest''⟩, hitems, heq''⟩ := Option.map_eq_some_iff.mp h
          cases heq''
          have := ihmembers hitems
          simp only [List.length_cons] at hskip
          omega
      case h_7 =>
        have := number_length h
        omega
      all_goals
        cases h
        rename_i heq
        rw [heq] at hskip
        simp only [List.length_cons] at hskip
        omega
    · intro cs rest xs h
      rw [items] at h
      simp only [Option.bind_eq_bind, Option.bind_eq_some_iff] at h
      obtain ⟨⟨x, cs'⟩, hvalue, h⟩ := h
      have hle := ihvalue hvalue
      have hskip := skipSpace_length cs'
      dsimp only at h
      split at h
      case h_1 heq =>
        cases h
        rw [heq] at hskip
        simp only [List.length_cons] at hskip
        omega
      case h_2 cs'' heq =>
        obtain ⟨⟨ys, cs'''⟩, hitems, heq'⟩ := Option.bind_eq_some_iff.mp h
        cases heq'
        have := ihitems hitems
        rw [heq] at hskip
        simp only [List.length_cons] at hskip
        dsimp only
        omega
      case h_3 => cases h
    · intro cs rest ms h
      obtain ⟨key, x, cs₁, cs₂, cs₃, cs₄, later, hquote, hstring, hcolon, hvalue, -, hlater⟩ :=
        members_succ h
      have h₁ := skipSpace_length cs
      have h₂ := string_length hstring
      have h₃ := skipSpace_length cs₂
      have h₄ := ihvalue hvalue
      have h₅ := skipSpace_length cs₄
      rw [hquote, List.length_cons] at h₁
      rw [hcolon, List.length_cons] at h₃
      rcases hlater with ⟨-, hbrace⟩ | ⟨cs₅, hcomma, hmembers⟩
      · rw [hbrace, List.length_cons] at h₅
        omega
      · have h₆ := ihmembers hmembers
        rw [hcomma, List.length_cons] at h₅
        omega

/-- A string is shorter than its text. -/
theorem value_str_length {n : ℕ} {cs rest : List Char} {s : String}
    (h : value format n cs = some (.str s, rest)) : s.length + rest.length < cs.length := by
  cases n with
  | zero => cases h
  | succ n =>
    have hskip := skipSpace_length cs
    rw [value] at h
    split at h
    case h_4 rest' heq =>
      obtain ⟨⟨s', rest''⟩, hstring, heq'⟩ := Option.map_eq_some_iff.mp h
      cases heq'
      have := string_length hstring
      rw [heq] at hskip
      simp only [List.length_cons] at hskip
      omega
    case h_5 =>
      split at h
      · cases h
      · obtain ⟨_, _, heq⟩ := Option.map_eq_some_iff.mp h
        cases heq
    case h_6 =>
      split at h
      · cases h
      · obtain ⟨_, _, heq⟩ := Option.map_eq_some_iff.mp h
        cases heq
    case h_7 =>
      rw [number] at h
      split at h
      · cases h
      · obtain ⟨_, _, heq⟩ := Option.map_eq_some_iff.mp h
        cases heq
    all_goals cases h

/-- A string in an object is shorter than the text of the object. -/
theorem members_str_length {n : ℕ} {cs rest : List Char} {ms : List (String × Json F)}
    (h : members format n cs = some (ms, rest)) {key : String} {s : String}
    (hmem : (key, .str s) ∈ ms) : s.length < cs.length := by
  induction n generalizing cs rest ms with
  | zero => cases h
  | succ n ih =>
    obtain ⟨key', x, cs₁, cs₂, cs₃, cs₄, later, hquote, hstring, hcolon, hvalue, rfl, hlater⟩ :=
      members_succ h
    have h₁ := skipSpace_length cs
    have h₂ := string_length hstring
    have h₃ := skipSpace_length cs₂
    rw [hquote, List.length_cons] at h₁
    rw [hcolon, List.length_cons] at h₃
    rcases List.mem_cons.mp hmem with heq | hmem
    · obtain ⟨-, rfl⟩ := Prod.mk.inj heq
      have h₄ := value_str_length hvalue
      omega
    · have h₄ := (rest_length n).1 hvalue
      have h₅ := skipSpace_length cs₄
      rcases hlater with ⟨rfl, -⟩ | ⟨cs₅, hcomma, hmembers⟩
      · cases hmem
      · have h₆ := ih hmembers hmem
        rw [hcomma, List.length_cons] at h₅
        omega

/-- A string in an array is shorter than the text of the array. -/
theorem items_str_length {n : ℕ} {cs rest : List Char} {xs : List (Json F)}
    (h : items format n cs = some (xs, rest)) {s : String} (hmem : .str s ∈ xs) :
    s.length < cs.length := by
  induction n generalizing cs rest xs with
  | zero => cases h
  | succ n ih =>
    rw [items] at h
    obtain ⟨⟨x, cs₁⟩, hvalue, h⟩ := Option.bind_eq_some_iff.mp h
    have hle := (rest_length n).1 hvalue
    have hskip := skipSpace_length cs₁
    dsimp only at h
    split at h
    case h_1 =>
      cases h
      rw [List.mem_singleton] at hmem
      subst hmem
      have := value_str_length hvalue
      omega
    case h_2 cs₂ heq =>
      obtain ⟨⟨ys, cs₃⟩, hitems, heq'⟩ := Option.bind_eq_some_iff.mp h
      cases heq'
      rw [heq, List.length_cons] at hskip
      rcases List.mem_cons.mp hmem with rfl | hmem
      · have := value_str_length hvalue
        omega
      · have := ih hitems hmem
        omega
    case h_3 => cases h

/-- The values inside an object or an array. -/
def children : Json F → List (Json F)
  | .obj members => members.map Prod.snd
  | .arr items => items
  | _ => []

/-- A string in an object or an array is shorter than the text that it is read from. -/
theorem parse_child_length {cs : List Char} {j : Json F} (h : parse format cs = some j)
    {s : String} (hmem : .str s ∈ j.children) : s.length < cs.length := by
  rw [parse] at h
  split at h
  case h_2 => cases h
  case h_1 j' rest hvalue =>
    split at h
    case isFalse => cases h
    case isTrue =>
      cases h
      have hskip := skipSpace_length cs
      rw [value] at hvalue
      split at hvalue
      case h_5 rest' heq =>
        have hskip' := skipSpace_length rest'
        rw [heq, List.length_cons] at hskip
        split at hvalue
        · cases hvalue
          cases hmem
        · obtain ⟨⟨xs, rest''⟩, hitems, heq'⟩ := Option.map_eq_some_iff.mp hvalue
          cases heq'
          have := items_str_length hitems hmem
          omega
      case h_6 rest' heq =>
        have hskip' := skipSpace_length rest'
        rw [heq, List.length_cons] at hskip
        split at hvalue
        · cases hvalue
          cases hmem
        · obtain ⟨⟨ms, rest''⟩, hmembers, heq'⟩ := Option.map_eq_some_iff.mp hvalue
          cases heq'
          obtain ⟨⟨key, x⟩, hx, rfl⟩ := List.mem_map.mp hmem
          have := members_str_length hmembers hx
          omega
      case h_4 =>
        obtain ⟨_, _, heq'⟩ := Option.map_eq_some_iff.mp hvalue
        cases heq'
        cases hmem
      case h_7 =>
        rw [number] at hvalue
        split at hvalue
        · cases hvalue
          cases hmem
        · obtain ⟨_, _, heq'⟩ := Option.map_eq_some_iff.mp hvalue
          cases heq'
          cases hmem
      all_goals
        cases hvalue
        cases hmem

/-- A string in an object is shorter than the text that the object is read from. -/
theorem parse_str_length {cs : List Char} {ms : List (String × Json F)}
    (h : parse format cs = some (.obj ms)) {key : String} {s : String}
    (hmem : (key, .str s) ∈ ms) : s.length < cs.length :=
  parse_child_length h (List.mem_map.mpr ⟨_, hmem, rfl⟩)

end Json
end MlxRuntime
