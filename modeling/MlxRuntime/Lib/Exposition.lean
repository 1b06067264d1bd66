import MlxRuntime.Lib.Lines
import Mathlib.Data.List.TakeWhile

/-!
# The text format of metrics

Metrics are exposed as lines of text.  A line is a sample, a comment, or the type of the
family of samples that follow; a sample has a name, labels in braces and a value.  In the value
of a label a backslash, a double quote and a line feed are escaped.  Blanks may stand between
the parts.

## Main definitions

* `Sample` — a series and its value, as written.
* `readSample`, `readLine`, `readText` — the reader; `readText` gives every sample with the
  type that was declared for its name.
* `plainSample` — a line that escapes nothing, and `readLine_plain`, which reads it back.
-/

namespace MlxRuntime.Exposition

/-- A series and its value, as written. -/
structure Sample where
  name : String
  labels : List (String × String)
  value : String
  deriving DecidableEq

/-- What a line says. -/
inductive Entry
  | comment
  | typed (name type : String)
  | sample (sample : Sample)
  deriving DecidableEq

/-! ## The reader -/

def isBlank (c : Char) : Bool := c = ' ' || c = '\t'

def skipBlanks (cs : List Char) : List Char := cs.dropWhile isBlank

/-- What stands between blanks. -/
def tokens (cs : List Char) : List (List Char) := (cs.splitOnP isBlank).filter (· ≠ [])

def isNameStart (c : Char) : Bool := c.isAlpha || c = '_' || c = ':'

def isNameChar (c : Char) : Bool := isNameStart c || c.isDigit

def isLabelStart (c : Char) : Bool := c.isAlpha || c = '_'

def isLabelChar (c : Char) : Bool := isLabelStart c || c.isDigit

/-- A name, and what follows it. -/
def readName (start part : Char → Bool) : List Char → Option (List Char × List Char)
  | [] => none
  | c :: cs => if start c then some (c :: cs.takeWhile part, cs.dropWhile part) else none

/-- What an escape stands for. -/
def unescape (c : Char) : Option Char :=
  if c = 'n' then some '\n' else if c = '"' ∨ c = '\\' then some c else none

/-- The value of a label up to its closing quote, and what follows it. -/
def readQuoted : List Char → Option (List Char × List Char)
  | [] => none
  | '"' :: cs => some ([], cs)
  | '\\' :: [] => none
  | '\\' :: e :: cs => do
      let c ← unescape e
      let (value, cs) ← readQuoted cs
      return (c :: value, cs)
  | c :: cs => do
      let (value, cs) ← readQuoted cs
      return (c :: value, cs)

/-- A label, and what follows it. -/
def readLabel (cs : List Char) : Option ((String × String) × List Char) := do
  let (name, cs) ← readName isLabelStart isLabelChar cs
  match skipBlanks cs with
  | '=' :: cs =>
      match skipBlanks cs with
      | '"' :: cs => do
          let (value, cs) ← readQuoted cs
          return ((String.ofList name, String.ofList value), skipBlanks cs)
      | _ => none
  | _ => none

/-- The labels up to the closing brace, and what follows it. -/
def readLabels : ℕ → List Char → Option (List (String × String) × List Char)
  | 0, _ => none
  | n + 1, cs =>
      match skipBlanks cs with
      | '\x7d' :: cs => some ([], cs)
      | cs => do
          let (label, cs) ← readLabel cs
          match cs with
          | '\x7d' :: cs => return ([label], cs)
          | ',' :: cs => do
              let (labels, cs) ← readLabels n cs
              return (label :: labels, cs)
          | _ => none

/-- A line with a sample; a time stamp may follow the value. -/
def readSample (cs : List Char) : Option Sample := do
  let (name, cs) ← readName isNameStart isNameChar cs
  let (labels, cs) ←
    match skipBlanks cs with
    | '\x7b' :: cs => readLabels (cs.length + 1) cs
    | cs => some ([], cs)
  match tokens cs with
  | [value] | [value, _] => return ⟨String.ofList name, labels, String.ofList value⟩
  | _ => none

/-- A line. -/
def readLine (line : List Char) : Option Entry :=
  match skipBlanks line with
  | [] => some .comment
  | '#' :: cs =>
      match tokens cs with
      | [] => some .comment
      | keyword :: rest =>
          if keyword = "TYPE".toList then
            match rest with
            | [name, type] => some (.typed (String.ofList name) (String.ofList type))
            | _ => none
          else some .comment
  | cs => (readSample cs).map .sample

/-- The samples among the lines, each with the type that was declared for its name before. -/
def samplesOf (types : List (String × String)) : List Entry → List (Option String × Sample)
  | [] => []
  | .comment :: entries => samplesOf types entries
  | .typed name type :: entries => samplesOf ((name, type) :: types) entries
  | .sample sample :: entries => (types.lookup sample.name, sample) :: samplesOf types entries

/-- The samples of a text, whose last line is complete. -/
def readText (text : List Char) : Option (List (Option String × Sample)) :=
  if Lines.tail '\n' text = [] then
    (((Lines.lines '\n' text).map List.dropLast).mapM readLine).map (samplesOf [])
  else none

/-! ## Lines without escapes -/

/-- The text is a name. -/
def IsName (start part : Char → Bool) (cs : List Char) : Prop :=
  readName start part cs = some (cs, [])

instance (start part : Char → Bool) : DecidablePred (IsName start part) :=
  fun _ => inferInstanceAs (Decidable (_ = _))

/-- The value of a label that needs no escape. -/
def Plain (value : String) : Prop := ∀ c ∈ value.toList, c ≠ '"' ∧ c ≠ '\\' ∧ c ≠ '\n'

instance : DecidablePred Plain := fun _ => inferInstanceAs (Decidable (∀ c ∈ _, _))

/-- A label as it is written when its value needs no escape. -/
def plainLabel (label : String × String) : List Char :=
  label.1.toList ++ '=' :: '"' :: (label.2.toList ++ ['"'])

/-- The labels up to the closing brace. -/
def plainLabels : List (String × String) → List Char
  | [] => ['\x7d']
  | [label] => plainLabel label ++ ['\x7d']
  | label :: labels => plainLabel label ++ ',' :: plainLabels labels

/-- A sample with labels. -/
def plainSample (name : String) (labels : List (String × String)) (value : List Char) :
    List Char :=
  name.toList ++ '\x7b' :: (plainLabels labels ++ ' ' :: value)

variable {start part : Char → Bool} {cs rest : List Char}

theorem readName_append (h : IsName start part cs) (hrest : ∀ c ∈ rest.head?, part c = false) :
    readName start part (cs ++ rest) = some (cs, rest) := by
  cases cs with
  | nil => cases h
  | cons c cs =>
    simp only [IsName, readName, Option.ite_none_right_eq_some, Option.some.injEq, Prod.mk.injEq,
      List.cons.injEq, true_and] at h
    obtain ⟨hstart, htake, -⟩ := h
    have hall : ∀ x ∈ cs, part x = true := List.takeWhile_eq_self_iff.mp htake
    have hnone : rest.takeWhile part = [] ∧ rest.dropWhile part = rest := by
      cases rest with
      | nil => exact ⟨rfl, rfl⟩
      | cons x rest =>
        have hx : part x = false := hrest x rfl
        exact ⟨by simp [hx], by simp [hx]⟩
    rw [List.cons_append, readName, if_pos hstart, List.takeWhile_append_of_pos hall,
      List.dropWhile_append_of_pos hall, hnone.1, hnone.2, List.append_nil]

theorem readQuoted_plain {value : List Char} (h : ∀ c ∈ value, c ≠ '"' ∧ c ≠ '\\' ∧ c ≠ '\n')
    (rest : List Char) : readQuoted (value ++ '"' :: rest) = some (value, rest) := by
  induction value with
  | nil => rfl
  | cons c value ih =>
    obtain ⟨⟨hquote, hslash, -⟩, htail⟩ := List.forall_mem_cons.mp h
    rw [List.cons_append, readQuoted.eq_5 _ _ hquote (fun h _ => hslash h) (fun _ _ h _ => hslash h),
      ih htail]
    rfl

theorem skipBlanks_cons {c : Char} (h : isBlank c = false) (cs : List Char) :
    skipBlanks (c :: cs) = c :: cs := by
  rw [skipBlanks, List.dropWhile_cons_of_neg (by simp [h])]

/-- A label with a plain value. -/
def PlainLabel (label : String × String) : Prop :=
  IsName isLabelStart isLabelChar label.1.toList ∧ Plain label.2

theorem readLabel_plain {label : String × String} (h : PlainLabel label) (rest : List Char) :
    readLabel (plainLabel label ++ rest) = some (label, skipBlanks rest) := by
  have hname : readName isLabelStart isLabelChar
      (label.1.toList ++ '=' :: '"' :: (label.2.toList ++ '"' :: rest)) =
      some (label.1.toList, '=' :: '"' :: (label.2.toList ++ '"' :: rest)) :=
    readName_append h.1 (by simp [isLabelChar, isLabelStart])
  have htext : plainLabel label ++ rest =
      label.1.toList ++ '=' :: '"' :: (label.2.toList ++ '"' :: rest) := by simp [plainLabel]
  rw [htext, readLabel, hname]
  simp only [Option.bind_eq_bind, Option.bind_some]
  rw [skipBlanks_cons (by decide)]
  simp only
  rw [skipBlanks_cons (by decide)]
  simp only
  rw [readQuoted_plain h.2]
  simp

/-- A label does not begin with a blank or a brace. -/
theorem plainLabel_cons {label : String × String} (h : PlainLabel label) :
    ∃ c cs, plainLabel label = c :: cs ∧ isBlank c = false ∧ c ≠ '\x7d' := by
  obtain ⟨hname, -⟩ := h
  rcases hcs : label.1.toList with _ | ⟨c, cs⟩
  · rw [hcs] at hname
    cases hname
  · rw [hcs, IsName, readName, Option.ite_none_right_eq_some] at hname
    have hstart := hname.1
    refine ⟨c, cs ++ '=' :: '"' :: (label.2.toList ++ ['"']), by simp [plainLabel, hcs], ?_, ?_⟩
    · by_contra hblank
      simp only [Bool.not_eq_false, isBlank, Bool.or_eq_true, decide_eq_true_eq] at hblank
      rcases hblank with rfl | rfl <;> exact absurd hstart (by decide)
    · rintro rfl
      exact absurd hstart (by decide)

/-- The reader takes a label where the braces do not close. -/
theorem readLabels_label {label : String × String} (h : PlainLabel label) (n : ℕ)
    (rest : List Char) :
    readLabels (n + 1) (plainLabel label ++ rest) =
      match skipBlanks rest with
      | '\x7d' :: cs => some ([label], cs)
      | ',' :: cs => do
          let (labels, cs) ← readLabels n cs
          return (label :: labels, cs)
      | _ => none := by
  obtain ⟨c, cs, hcs, hblank, hbrace⟩ := plainLabel_cons h
  have hread := readLabel_plain h rest
  rw [hcs, List.cons_append] at hread ⊢
  rw [readLabels, skipBlanks_cons hblank]
  split
  case h_1 heq => exact absurd (List.cons.inj heq).1 hbrace
  case h_2 =>
    rw [hread]
    rfl

theorem readLabels_plain {labels : List (String × String)} (h : ∀ l ∈ labels, PlainLabel l)
    (rest : List Char) {n : ℕ} (hn : labels.length < n) :
    readLabels n (plainLabels labels ++ rest) = some (labels, rest) := by
  fun_induction plainLabels labels generalizing n with
  | case1 =>
    obtain ⟨n, rfl⟩ := Nat.exists_eq_succ_of_ne_zero (Nat.ne_of_gt hn)
    rw [List.singleton_append, readLabels, skipBlanks_cons (by decide)]
    rfl
  | case2 label =>
    obtain ⟨n, rfl⟩ := Nat.exists_eq_succ_of_ne_zero (Nat.ne_zero_of_lt hn)
    rw [List.append_assoc, List.singleton_append, readLabels_label (h label (by simp)),
      skipBlanks_cons (by decide)]
    rfl
  | case3 label labels hne ih =>
    obtain ⟨n, rfl⟩ := Nat.exists_eq_succ_of_ne_zero (Nat.ne_zero_of_lt hn)
    obtain ⟨hlabel, hlabels⟩ := List.forall_mem_cons.mp h
    have htail := ih hlabels (Nat.lt_of_succ_lt_succ hn)
    rw [List.append_assoc, List.cons_append, readLabels_label hlabel, skipBlanks_cons (by decide)]
    simp only [htail, Option.bind_eq_bind, Option.bind_some, Option.pure_def]

/-! ## Lines that are read back -/

theorem tokens_word {word : List Char} (hne : word ≠ []) (h : ∀ c ∈ word, isBlank c = false) :
    tokens word = [word] := by
  rw [tokens, List.splitOnP_eq_singleton h]
  simp [hne]

theorem tokens_append (xs ys : List Char) : tokens (xs ++ ' ' :: ys) = tokens xs ++ tokens ys := by
  rw [tokens, List.splitOnP_append_cons xs ys (by decide), List.filter_append]
  rfl

theorem tokens_blank (cs : List Char) : tokens (' ' :: cs) = tokens cs := tokens_append [] cs

/-- A name is a word. -/
theorem IsName.word (h : IsName start part cs) (hstart : ∀ c, start c = true → isBlank c = false)
    (hpart : ∀ c, part c = true → isBlank c = false) :
    cs ≠ [] ∧ ∀ c ∈ cs, isBlank c = false := by
  rcases cs with _ | ⟨c, cs⟩
  · cases h
  · simp only [IsName, readName, Option.ite_none_right_eq_some, Option.some.injEq, Prod.mk.injEq,
      List.cons.injEq, true_and] at h
    obtain ⟨hc, htake, -⟩ := h
    refine ⟨List.cons_ne_nil _ _, List.forall_mem_cons.mpr ⟨hstart c hc, fun x hx => ?_⟩⟩
    exact hpart x (List.takeWhile_eq_self_iff.mp htake x hx)

theorem IsName.notMem (h : IsName start part cs) {c : Char} (hstart : start c = false)
    (hpart : part c = false) : c ∉ cs := by
  rcases cs with _ | ⟨x, cs⟩
  · exact List.not_mem_nil
  · simp only [IsName, readName, Option.ite_none_right_eq_some, Option.some.injEq, Prod.mk.injEq,
      List.cons.injEq, true_and] at h
    obtain ⟨hx, htake, -⟩ := h
    intro hin
    rcases List.mem_cons.mp hin with rfl | hin
    · rw [hstart] at hx
      cases hx
    · have hc := List.takeWhile_eq_self_iff.mp htake c hin
      rw [hpart] at hc
      cases hc

theorem isBlank_of_isNameChar {c : Char} (h : isNameChar c = true) : isBlank c = false := by
  by_contra hblank
  simp only [Bool.not_eq_false, isBlank, Bool.or_eq_true, decide_eq_true_eq] at hblank
  rcases hblank with rfl | rfl <;> exact absurd h (by decide)

/-- The name of a series. -/
def IsMetric (name : String) : Prop := IsName isNameStart isNameChar name.toList

instance : DecidablePred IsMetric := fun _ => inferInstanceAs (Decidable (IsName _ _ _))

theorem IsMetric.word {name : String} (h : IsMetric name) :
    name.toList ≠ [] ∧ ∀ c ∈ name.toList, isBlank c = false :=
  IsName.word h (fun c hc => isBlank_of_isNameChar (by simp [isNameChar, hc]))
    fun _ => isBlank_of_isNameChar

theorem IsMetric.notMem_newline {name : String} (h : IsMetric name) : '\n' ∉ name.toList :=
  IsName.notMem h (by decide) (by decide)

/-- A line that begins with a name is a sample. -/
theorem readLine_name {name : String} (h : IsMetric name) (rest : List Char) :
    readLine (name.toList ++ rest) = (readSample (name.toList ++ rest)).map .sample := by
  rcases hcs : name.toList with _ | ⟨c, cs⟩
  · exact absurd hcs h.word.1
  · have hblank : isBlank c = false := h.word.2 c (by simp [hcs])
    have hhash : c ≠ '#' := by
      rintro rfl
      rw [IsMetric, hcs] at h
      simp only [IsName, readName, Option.ite_none_right_eq_some] at h
      exact absurd h.1 (by decide)
    rw [List.cons_append, readLine, skipBlanks_cons hblank]
    split
    case h_1 heq => cases heq
    case h_2 heq => exact absurd (List.cons.inj heq).1 hhash
    case h_3 => rfl

theorem length_le_plainLabels (labels : List (String × String)) :
    labels.length ≤ (plainLabels labels).length := by
  fun_induction plainLabels labels with
  | case1 => simp
  | case2 label => simp
  | case3 label labels hne ih =>
    simp only [List.length_cons, List.length_append]
    omega

/-- **A line without escapes is read back.** -/
theorem readLine_plain {name : String} {labels : List (String × String)} {value : List Char}
    (hname : IsMetric name) (hlabels : ∀ l ∈ labels, PlainLabel l) (hne : value ≠ [])
    (hvalue : ∀ c ∈ value, isBlank c = false) :
    readLine (plainSample name labels value) =
      some (.sample ⟨name, labels, String.ofList value⟩) := by
  have hread : readName isNameStart isNameChar
      (name.toList ++ '\x7b' :: (plainLabels labels ++ ' ' :: value)) =
      some (name.toList, '\x7b' :: (plainLabels labels ++ ' ' :: value)) :=
    readName_append hname (by simp [isNameChar, isNameStart])
  have hlength : labels.length < (plainLabels labels ++ ' ' :: value).length + 1 := by
    have hle := length_le_plainLabels labels
    rw [List.length_append]
    omega
  rw [plainSample, readLine_name hname, readSample, hread]
  simp only [Option.bind_eq_bind, Option.bind_some]
  rw [skipBlanks_cons (by decide)]
  simp only [readLabels_plain hlabels _ hlength, Option.bind_some, tokens_blank,
    tokens_word hne hvalue]
  simp

/-- A sample without labels. -/
theorem readLine_unlabeled {name : String} {value : List Char} (hname : IsMetric name)
    (hne : value ≠ []) (hvalue : ∀ c ∈ value, isBlank c = false)
    (hbrace : value.head? ≠ some '\x7b') :
    readLine (name.toList ++ ' ' :: value) = some (.sample ⟨name, [], String.ofList value⟩) := by
  have hread : readName isNameStart isNameChar (name.toList ++ ' ' :: value) =
      some (name.toList, ' ' :: value) :=
    readName_append hname (by simp [isNameChar, isNameStart])
  obtain ⟨c, cs, rfl⟩ := List.exists_cons_of_ne_nil hne
  have hskip : skipBlanks (' ' :: c :: cs) = c :: cs := skipBlanks_cons (hvalue c (by simp)) cs
  rw [readLine_name hname, readSample, hread]
  simp only [Option.bind_eq_bind, Option.bind_some, hskip]
  split
  case h_1 heq => exact absurd (congrArg some (List.cons.inj heq).1) hbrace
  case h_2 =>
    simp only [tokens_word hne hvalue]
    simp

/-- A line of a comment. -/
theorem readLine_hash {keyword : List Char} (hne : keyword ≠ [])
    (h : ∀ c ∈ keyword, isBlank c = false) (rest : List Char) :
    readLine ('#' :: ' ' :: (keyword ++ ' ' :: rest)) =
      if keyword = "TYPE".toList then
        match tokens rest with
        | [name, type] => some (.typed (String.ofList name) (String.ofList type))
        | _ => none
      else some .comment := by
  rw [readLine, skipBlanks_cons (by decide)]
  simp only [tokens_blank, tokens_append, tokens_word hne h, List.singleton_append]

theorem readLine_help (text : List Char) :
    readLine ('#' :: ' ' :: ("HELP".toList ++ ' ' :: text)) = some .comment := by
  rw [readLine_hash (by decide) (by simp [isBlank]), if_neg (by decide)]

theorem readLine_type {name type : String} (hname : IsMetric name) (htype : IsMetric type) :
    readLine ('#' :: ' ' :: ("TYPE".toList ++ ' ' :: (name.toList ++ ' ' :: type.toList))) =
      some (.typed name type) := by
  rw [readLine_hash (by decide) (by simp [isBlank]), if_pos rfl, tokens_append,
    tokens_word hname.word.1 hname.word.2, tokens_word htype.word.1 htype.word.2]
  simp

/-! ## Literals -/

/-- The characters of strings; a literal is spelled without being decoded. -/
inductive Spelled : List String → List (List Char) → Prop
  | nil : Spelled [] []
  | cons (cs : List Char) {names : List String} {spellings : List (List Char)} :
      Spelled names spellings → Spelled (String.ofList cs :: names) (cs :: spellings)

theorem Spelled.mem {names : List String} {spellings : List (List Char)}
    (h : Spelled names spellings) {name : String} (hname : name ∈ names) :
    name.toList ∈ spellings := by
  induction h with
  | nil => exact absurd hname List.not_mem_nil
  | cons cs _ ih =>
    rcases List.mem_cons.mp hname with rfl | hin
    · rw [String.toList_ofList]
      exact List.mem_cons_self
    · exact List.mem_cons_of_mem _ (ih hin)

/-! ## Texts of such lines -/

/-- Lines, each with its line feed. -/
def unlines (lines : List (List Char)) : List Char := lines.flatMap (· ++ ['\n'])

/-- A line of a text, and what it says. -/
def Says (line : List Char) (entry : Entry) : Prop := '\n' ∉ line ∧ readLine line = some entry

theorem notMem_plainLabels {labels : List (String × String)} (h : ∀ l ∈ labels, PlainLabel l) :
    '\n' ∉ plainLabels labels := by
  have hlabel : ∀ l ∈ labels, '\n' ∉ plainLabel l := by
    intro l hl
    obtain ⟨hname, hvalue⟩ := h l hl
    have hkey : '\n' ∉ l.1.toList := IsName.notMem hname (by decide) (by decide)
    have hplain : '\n' ∉ l.2.toList := fun hin => (hvalue _ hin).2.2 rfl
    simp [plainLabel, hkey, hplain]
  fun_induction plainLabels labels with
  | case1 => decide
  | case2 label =>
    have hone := hlabel label (by simp)
    simp [hone]
  | case3 label labels hne ih =>
    obtain ⟨hone, hrest⟩ := List.forall_mem_cons.mp hlabel
    have htail := ih (List.forall_mem_cons.mp h).2 hrest
    simp [hone, htail]

/-- A sample under labels that need no escape. -/
theorem says_plain {name : String} {labels : List (String × String)} {value : List Char}
    (hname : IsMetric name) (hlabels : ∀ l ∈ labels, PlainLabel l) (hne : value ≠ [])
    (hvalue : ∀ c ∈ value, isBlank c = false) (hline : '\n' ∉ value) :
    Says (plainSample name labels value) (.sample ⟨name, labels, String.ofList value⟩) := by
  refine ⟨?_, readLine_plain hname hlabels hne hvalue⟩
  simp [plainSample, hname.notMem_newline, notMem_plainLabels hlabels, hline]

/-- The types declared after the lines. -/
def typesAfter (types : List (String × String)) : List Entry → List (String × String)
  | [] => types
  | .typed name type :: entries => typesAfter ((name, type) :: types) entries
  | .comment :: entries | .sample _ :: entries => typesAfter types entries

theorem samplesOf_append (types : List (String × String)) (entries entries' : List Entry) :
    samplesOf types (entries ++ entries') =
      samplesOf types entries ++ samplesOf (typesAfter types entries) entries' := by
  induction entries generalizing types with
  | nil => rfl
  | cons entry entries ih => cases entry <;> simp [samplesOf, typesAfter, ih]

theorem mapM_readLine {lines : List (List Char)} {entries : List Entry}
    (h : List.Forall₂ Says lines entries) : lines.mapM readLine = some entries := by
  induction h with
  | nil => rfl
  | cons hline _ ih => simp [List.mapM_cons, hline.2, ih]

theorem lines_unlines {lines : List (List Char)} (h : ∀ line ∈ lines, '\n' ∉ line) :
    Lines.lines '\n' (unlines lines) = lines.map (· ++ ['\n']) ∧
      Lines.tail '\n' (unlines lines) = [] := by
  have hline : ∀ line ∈ lines.map (· ++ ['\n']), Lines.Line '\n' line := by
    intro line hin
    obtain ⟨body, hbody, rfl⟩ := List.mem_map.mp hin
    exact ⟨body, h body hbody, rfl⟩
  have htext : unlines lines = (lines.map (· ++ ['\n'])).flatten ++ [] := by
    rw [unlines, List.flatMap_def, List.append_nil]
  constructor
  · rw [htext, Lines.lines_flatten_append hline]
    exact List.append_nil _
  · rw [htext, Lines.tail_flatten_append hline]
    rfl

/-- **A text of plain lines is read back.** -/
theorem readText_unlines {lines : List (List Char)} {entries : List Entry}
    (h : List.Forall₂ Says lines entries) :
    readText (unlines lines) = some (samplesOf [] entries) := by
  have hclean : ∀ line ∈ lines, '\n' ∉ line := by
    intro line hline
    induction h with
    | nil => exact absurd hline List.not_mem_nil
    | cons hsaid _ ih =>
      rcases List.mem_cons.mp hline with rfl | hin
      · exact hsaid.1
      · exact ih hin
  obtain ⟨hlines, htail⟩ := lines_unlines hclean
  have hdrop : (lines.map (· ++ ['\n'])).map List.dropLast = lines := by
    rw [List.map_map]
    exact List.map_id'' (fun line => List.dropLast_concat) lines
  rw [readText, if_pos htail, hlines, hdrop, mapM_readLine h]
  rfl

end MlxRuntime.Exposition
