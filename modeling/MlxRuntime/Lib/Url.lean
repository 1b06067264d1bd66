import Mathlib.Data.List.TakeWhile

/-!
# How Python splits a URL

The parts of `urllib.parse.urlsplit` that tell where a URL points: the scheme and the
network location, and the host name within it.  Leading blanks and control characters
are stripped, tabs and line breaks are removed wherever they stand, a scheme is
recognised in any letter case, and the host stands behind the last `@`, between
brackets if there are any.

What depends on tables or on the version of the library is given: whether it takes the
text between brackets for an IP address, whether a location that is not ASCII keeps its
delimiters under NFKC, and the lower case of a text.

## Main definitions

* `Checks` — what is given.
* `urlsplit`, `Parsed` — the scheme and the location, or a `ValueError`.
* `Parsed.hostname` — the host name.
-/

namespace MlxRuntime.Url

/-- What the splitting takes from elsewhere. -/
structure Checks where
  bracketed : List Char → Bool
  normal : List Char → Bool
  lower : List Char → List Char

/-! ## Texts cut at a character -/

/-- The text before the first `c`, the whole text if there is none. -/
def before (c : Char) (text : List Char) : List Char := text.takeWhile (· ≠ c)

/-- The text behind the first `c`. -/
def after (c : Char) (text : List Char) : List Char := (text.dropWhile (· ≠ c)).tail

/-- The text behind the last `c`, the whole text if there is none. -/
def afterLast (c : Char) (text : List Char) : List Char :=
  (text.reverse.takeWhile (· ≠ c)).reverse

theorem before_append {c : Char} {text : List Char} (h : c ∉ text) (rest : List Char) :
    before c (text ++ c :: rest) = text := by
  rw [before, List.takeWhile_append_of_pos (by simpa using fun d hd => ne_of_mem_of_not_mem hd h)]
  simp

theorem after_append {c : Char} {text : List Char} (h : c ∉ text) (rest : List Char) :
    after c (text ++ c :: rest) = rest := by
  rw [after, List.dropWhile_append_of_pos (by simpa using fun d hd => ne_of_mem_of_not_mem hd h)]
  simp

/-- What a predicate takes from the front: entries that meet it, followed by one that
does not or by nothing. -/
theorem takeWhile_eq_iff {p : Char → Bool} {text name : List Char} : text.takeWhile p = name ↔
    (∀ c ∈ name, p c) ∧ name <+: text ∧ ∀ d ∈ (text.drop name.length).head?, p d = false := by
  constructor
  · rintro rfl
    refine ⟨fun c hc => List.mem_takeWhile_imp hc, List.takeWhile_prefix _, fun d hd => ?_⟩
    have hdrop : text.drop (text.takeWhile p).length = text.dropWhile p :=
      calc text.drop (text.takeWhile p).length
          = (text.takeWhile p ++ text.dropWhile p).drop (text.takeWhile p).length := by
            rw [List.takeWhile_append_dropWhile]
        _ = text.dropWhile p := List.drop_left
    rw [hdrop, ← List.find?_not_eq_head?_dropWhile] at hd
    simpa using List.find?_some hd
  · rintro ⟨hall, ⟨rest, rfl⟩, hnext⟩
    rw [List.drop_left] at hnext
    rw [List.takeWhile_append_of_pos hall]
    cases rest with
    | nil => simp
    | cons d rest => rw [List.takeWhile_cons_of_neg (by simp [hnext d rfl]), List.append_nil]

/-! ## Splitting -/

/-- The scheme and the location of a URL. -/
structure Parsed where
  scheme : List Char
  netloc : List Char
  deriving DecidableEq

/-- A control character or a blank, stripped from the front. -/
def isBlank (c : Char) : Bool := c.toNat ≤ 32

/-- A character removed wherever it stands. -/
def isRemoved (c : Char) : Bool := c = '\t' || c = '\r' || c = '\n'

/-- The text that is split. -/
def cleaned (url : List Char) : List Char := (url.dropWhile isBlank).filter (! isRemoved ·)

/-- A character of a scheme. -/
def isSchemeChar (c : Char) : Bool := c.isAlphanum || c = '+' || c = '-' || c = '.'

/-- A text that is a scheme: a letter, then letters, digits, `+`, `-` and `.`. -/
def IsScheme (name : List Char) : Prop :=
  (∃ c ∈ name.head?, c.isAlpha) ∧ ∀ c ∈ name, isSchemeChar c

instance : DecidablePred IsScheme := fun name =>
  decidable_of_iff (name.head?.any Char.isAlpha ∧ name.all isSchemeChar)
    (by cases name <;> simp [IsScheme])

/-- The scheme in lower case and the rest, or no scheme and the whole text. -/
def splitScheme (text : List Char) : List Char × List Char :=
  if ':' ∈ text ∧ IsScheme (before ':' text) then
    ((before ':' text).map Char.toLower, after ':' text)
  else ([], text)

/-- The network location of what follows the scheme: behind two slashes, up to a path,
query or fragment. -/
def location : List Char → List Char
  | '/' :: '/' :: rest => rest.takeWhile fun c => c ≠ '/' && c ≠ '?' && c ≠ '#'
  | _ => []

/-- A location that `urlsplit` does not refuse. -/
def Allowed (checks : Checks) (netloc : List Char) : Prop :=
  ('[' ∈ netloc ↔ ']' ∈ netloc) ∧ ('[' ∈ netloc → checks.bracketed netloc) ∧
    ((∃ c ∈ netloc, 128 ≤ c.toNat) → checks.normal netloc)

instance (checks : Checks) : DecidablePred (Allowed checks) := fun netloc =>
  decidable_of_iff (('[' ∈ netloc ↔ ']' ∈ netloc) ∧ ('[' ∈ netloc → checks.bracketed netloc) ∧
    (netloc.any (128 ≤ ·.toNat) → checks.normal netloc))
    (by simp only [Allowed, List.any_eq_true, decide_eq_true_eq])

/-- `urlsplit`; `none` is its `ValueError`. -/
def urlsplit (checks : Checks) (url : List Char) : Option Parsed :=
  let (scheme, rest) := splitScheme (cleaned url)
  if Allowed checks (location rest) then some ⟨scheme, location rest⟩ else none

/-! ## The host name -/

/-- The host part of a location, behind the user information and without the port. -/
def hostText (netloc : List Char) : List Char :=
  let hostinfo := afterLast '@' netloc
  if '[' ∈ hostinfo then before ']' (after '[' hostinfo) else before ':' hostinfo

/-- `hostname`: in lower case up to a zone. -/
def Parsed.hostname (checks : Checks) (p : Parsed) : Option (List Char) :=
  let name := hostText p.netloc
  if name = [] then none
  else some (checks.lower (before '%' name) ++ name.dropWhile (· ≠ '%'))

/-! ## Schemes written out -/

theorem isSchemeChar_ne {c : Char} (h : isSchemeChar c) (d : Char)
    (hd : isSchemeChar d = false) : c ≠ d := by
  rintro rfl
  rw [h] at hd
  cases hd

theorem not_isRemoved_of_isSchemeChar {c : Char} (h : isSchemeChar c) : isRemoved c = false := by
  simp [isRemoved, isSchemeChar_ne h '\t' (by decide), isSchemeChar_ne h '\r' (by decide),
    isSchemeChar_ne h '\n' (by decide)]

/-- The letters, by their values. -/
theorem isAlpha_eq (c : Char) : c.isAlpha =
    (decide ('A'.val ≤ c.val ∧ c.val ≤ 'Z'.val) ||
      (decide ('a'.val ≤ c.val) && decide (c.val ≤ 'z'.val))) := rfl

theorem isSchemeChar_lt {c : Char} (h : isSchemeChar c) : c.toNat < 128 := by
  simp only [isSchemeChar, Char.isAlphanum, isAlpha_eq, Char.isDigit, Bool.or_eq_true,
    Bool.and_eq_true, decide_eq_true_eq, ge_iff_le, UInt32.le_iff_toNat_le] at h
  rcases h with ((h | rfl) | rfl) | rfl
  · change ((65 ≤ c.toNat ∧ c.toNat ≤ 90) ∨ 97 ≤ c.toNat ∧ c.toNat ≤ 122) ∨
      48 ≤ c.toNat ∧ c.toNat ≤ 57 at h
    omega
  all_goals decide

theorem filter_isRemoved_of_isSchemeChar {text : List Char} (h : ∀ c ∈ text, isSchemeChar c) :
    text.filter (! isRemoved ·) = text :=
  List.filter_eq_self.mpr fun c hc => by simp [not_isRemoved_of_isSchemeChar (h c hc)]

theorem not_isBlank_of_isAlpha {c : Char} (h : c.isAlpha) : isBlank c = false := by
  simp only [isAlpha_eq, Bool.or_eq_true, Bool.and_eq_true, decide_eq_true_eq,
    UInt32.le_iff_toNat_le] at h
  change (65 ≤ c.toNat ∧ c.toNat ≤ 90) ∨ 97 ≤ c.toNat ∧ c.toNat ≤ 122 at h
  simp only [isBlank, decide_eq_false_iff_not]
  omega

/-- A text that begins with a scheme and a colon is split there. -/
theorem splitScheme_cleaned {name : List Char} (h : IsScheme name) (rest : List Char) :
    splitScheme (cleaned (name ++ ':' :: rest)) =
      (name.map Char.toLower, rest.filter (! isRemoved ·)) := by
  obtain ⟨⟨c, hc, halpha⟩, hall⟩ := h
  obtain ⟨cs, rfl⟩ : ∃ cs, name = c :: cs := by
    cases name with
    | nil => cases hc
    | cons d ds =>
        obtain rfl := Option.some.inj hc
        exact ⟨ds, rfl⟩
  have hcolon : ':' ∉ c :: cs := fun hmem => isSchemeChar_ne (hall _ hmem) ':' (by decide) rfl
  have hcleaned : cleaned (c :: cs ++ ':' :: rest) =
      c :: cs ++ ':' :: rest.filter (! isRemoved ·) := by
    rw [cleaned, List.cons_append, List.dropWhile_cons_of_neg
      (by rw [not_isBlank_of_isAlpha halpha]; decide), ← List.cons_append, List.filter_append,
      filter_isRemoved_of_isSchemeChar hall, List.filter_cons_of_pos (by decide)]
  rw [hcleaned, splitScheme, before_append hcolon, after_append hcolon, if_pos]
  exact ⟨List.mem_append_right _ List.mem_cons_self, ⟨c, rfl, halpha⟩, hall⟩

/-- A scheme in lower case is read as it is written. -/
theorem scheme_of_literal {checks : Checks} {name rest : List Char} {p : Parsed}
    (hscheme : IsScheme name) (hlower : name.map Char.toLower = name)
    (h : urlsplit checks (name ++ ':' :: rest) = some p) : p.scheme = name := by
  rw [urlsplit, splitScheme_cleaned hscheme, hlower] at h
  dsimp only at h
  split_ifs at h
  rw [← Option.some.inj h]

/-! ## Plain hosts -/

/-- Behind a scheme, a host of scheme characters is the whole location, whatever stands
behind the slash. -/
theorem urlsplit_host {name host : List Char} (checks : Checks) (hscheme : IsScheme name)
    (hhost : ∀ c ∈ host, isSchemeChar c) (rest : List Char) :
    urlsplit checks (name ++ ':' :: '/' :: '/' :: (host ++ '/' :: rest)) =
      some ⟨name.map Char.toLower, host⟩ := by
  have hkept : ('/' :: '/' :: (host ++ '/' :: rest)).filter (! isRemoved ·) =
      '/' :: '/' :: (host ++ '/' :: rest.filter (! isRemoved ·)) := by
    rw [List.filter_cons_of_pos (by decide), List.filter_cons_of_pos (by decide),
      List.filter_append, filter_isRemoved_of_isSchemeChar hhost,
      List.filter_cons_of_pos (by decide)]
  have hlocation :
      location ('/' :: '/' :: (host ++ '/' :: rest.filter (! isRemoved ·))) = host := by
    have htaken : ∀ c ∈ host, (c ≠ '/' && c ≠ '?' && c ≠ '#') = true := fun c hc => by
      simp [isSchemeChar_ne (hhost c hc) '/' (by decide),
        isSchemeChar_ne (hhost c hc) '?' (by decide), isSchemeChar_ne (hhost c hc) '#' (by decide)]
    rw [location, List.takeWhile_append_of_pos htaken, List.takeWhile_cons_of_neg (by decide),
      List.append_nil]
  have hnot : ∀ d, isSchemeChar d = false → d ∉ host := fun d hd hmem =>
    isSchemeChar_ne (hhost d hmem) d hd rfl
  have hallowed : Allowed checks host := by
    refine ⟨iff_of_false (hnot '[' (by decide)) (hnot ']' (by decide)),
      fun h => absurd h (hnot '[' (by decide)), ?_⟩
    rintro ⟨c, hc, hlarge⟩
    exact absurd (isSchemeChar_lt (hhost c hc)) (Nat.not_lt.mpr hlarge)
  rw [urlsplit, splitScheme_cleaned hscheme, hkept]
  dsimp only
  rw [hlocation, if_pos hallowed]

/-- A host of scheme characters is the host name. -/
theorem hostname_host {scheme host : List Char} (checks : Checks)
    (hhost : ∀ c ∈ host, isSchemeChar c) (hne : host ≠ []) :
    Parsed.hostname checks ⟨scheme, host⟩ = some (checks.lower host) := by
  have htaken : ∀ d, isSchemeChar d = false → ∀ c ∈ host, decide (c ≠ d) = true :=
    fun d hd c hc => decide_eq_true (isSchemeChar_ne (hhost c hc) d hd)
  have hinfo : afterLast '@' host = host := by
    rw [afterLast, List.takeWhile_eq_self_iff.mpr
      fun c hc => htaken '@' (by decide) c (List.mem_reverse.mp hc), List.reverse_reverse]
  have hbracket : '[' ∉ host := fun hmem => isSchemeChar_ne (hhost _ hmem) '[' (by decide) rfl
  have htext : hostText host = host := by
    rw [hostText, hinfo, if_neg hbracket, before,
      List.takeWhile_eq_self_iff.mpr (htaken ':' (by decide))]
  have hzone : before '%' host = host :=
    List.takeWhile_eq_self_iff.mpr (htaken '%' (by decide))
  have hrest : host.dropWhile (· ≠ '%') = [] :=
    List.dropWhile_eq_nil_iff.mpr (htaken '%' (by decide))
  rw [Parsed.hostname]
  dsimp only
  rw [htext, if_neg hne, hzone, hrest, List.append_nil]

end MlxRuntime.Url
