import MlxRuntime.Lib.Url
import MlxRuntime.Lib.Words
import MlxRuntime.Python

/-!
# Image sources at the gateway and at the worker

A chat request names its images by strings.  The gateway checks each of them
(`validate_image_source`) before it queues the request, and the worker checks it again
(`_validate_image_source`) before it opens the image.  The gateway cuts the text at
`://`, at the first slash and at the first colon; the worker asks `urlparse`.

`gatewayReads` and `pythonReads` say what a string is for each of the two: a bare path,
a web URL, a loopback URL, or none of these.  The two checks give the same verdict
exactly on the strings that are `Alike` for both.

## Main definitions

* `Gateway.validateImageSource`, `Worker.validateImageSource` — the two checks.
* `gatewayReads`, `pythonReads`, `Alike` — the condition.
* `imageSources_agree_iff` — the condition is exact.
-/

namespace MlxRuntime.ImageSource

/-- `MAX_IMAGE_URL_LENGTH`, the same number on both sides. -/
def maxImageUrlLength : ℕ := 4096

/-- `LOOPBACK_HTTP_HOSTS` and `_ALLOWED_HTTP_HOSTS`. -/
def loopbackHosts : List String := ["localhost", "127.0.0.1", "::1"]

/-- The file system: whether a path names a file, and the text of
`Path(url).expanduser()`. -/
structure FileSystem where
  isFile : String → Bool
  expanduser : String → Except PyError String

/-! ## The gateway -/

namespace Gateway

/-- `url.split_once("://")`. -/
def splitOnce (url : List Char) : Option (List Char × List Char) :=
  (Words.find "://".toList url).map fun i => (url.take i, url.drop (i + 3))

/-- The host in the text behind `http://`. -/
def hostOf (rest : List Char) : List Char :=
  match Url.before '/' rest with
  | '[' :: stripped => Url.before ']' stripped
  | hostPort => Url.before ':' hostPort

/-- `validate_image_source`. -/
def validateImageSource (fs : FileSystem) (url : String) : Except String Unit :=
  if maxImageUrlLength < url.utf8ByteSize then
    .error s!"image URL exceeds maximum length of {maxImageUrlLength} characters"
  else if "data:".toList <+: url.toList then
    .error ("unsupported image URL scheme 'data': must be one of https, http, " ++
      "or a local file path")
  else
    match splitOnce url.toList with
    | none =>
        if fs.isFile url then .ok ()
        else .error s!"local image path does not exist or is not a file: {url}"
    | some (scheme, rest) =>
        if scheme = "https".toList then .ok ()
        else if scheme = "http".toList then
          let host := String.ofList (hostOf rest)
          if host ∈ loopbackHosts then .ok ()
          else
            .error (s!"http image URLs must use localhost, 127.0.0.1, or ::1, got '{host}'" ++
              s!": {url}")
        else
          let other := String.ofList scheme
          .error (s!"unsupported image URL scheme '{other}'" ++
            ": must be one of https, http, or a local file path")

end Gateway

/-! ## The worker -/

namespace Worker

/-- `_ALLOWED_IMAGE_SCHEMES`. -/
def allowedImageSchemes : List String := ["https", "http"]

/-- A parsed host name is an allowed one; `None` is not. -/
def AllowedHost (checks : Url.Checks) (parsed : Url.Parsed) : Prop :=
  ∃ host ∈ parsed.hostname checks, String.ofList host ∈ loopbackHosts

instance (checks : Url.Checks) : DecidablePred (AllowedHost checks) := fun parsed =>
  inferInstanceAs (Decidable (∃ host ∈ parsed.hostname checks, _))

/-- `_validate_image_source`, which answers with what is handed to the image loader. -/
def validateImageSource (checks : Url.Checks) (fs : FileSystem) (url : String) :
    Except PyError String :=
  if maxImageUrlLength < url.length then
    .error (.valueError s!"image URL exceeds maximum length of {maxImageUrlLength} characters")
  else
    match Url.urlsplit checks url.toList with
    | none => .error (.external "urlparse")
    | some parsed =>
        if parsed.scheme = [] then
          match fs.expanduser url with
          | .error e => .error e
          | .ok path =>
              if fs.isFile path then .ok path
              else
                .error (.valueError
                  s!"local image path does not exist or is not a file: {url}")
        else if parsed.scheme = "http".toList then
          if AllowedHost checks parsed then .ok url
          else .error (.valueError "http image URLs must use localhost or 127.0.0.1")
        else
          let scheme := String.ofList parsed.scheme
          if scheme ∉ allowedImageSchemes then
            .error (.valueError (s!"unsupported image URL scheme '{scheme}'" ++
              ": must be one of https, http, or a local file path"))
          else .ok url

end Worker

/-! ## What a string is for either of them -/

/-- What a string can be. -/
inductive Source
  | bare
  | web
  | loopback
  | foreign
  deriving DecidableEq

/-- A source is opened when it is a URL of the right kind, or a path that is a file. -/
def Source.Opens (file : Prop) : Source → Prop
  | .bare => file
  | .web | .loopback => True
  | .foreign => False

/-- `name` stands at the front of `rest`, before the end, a slash or `c`. -/
def Heads (name rest : List Char) (c : Char) : Prop :=
  name <+: rest ∧ ∀ d ∈ (rest.drop name.length).head?, d = '/' ∨ d = c

instance (name rest : List Char) (c : Char) : Decidable (Heads name rest c) :=
  decidable_of_iff (name <+: rest ∧
    (rest.drop name.length).head?.all fun d => d = '/' || d = c)
    (by simp only [Heads, Option.all_eq_true]; simp)

/-- The text behind `http://` begins with a loopback name before a colon, or with a
bracket and a loopback name before a closing bracket; a slash or the end may stand for
either. -/
def NamesLoopback (rest : List Char) : Prop :=
  (∃ name ∈ ["localhost", "127.0.0.1"], Heads name.toList rest ':') ∨
    ∃ name ∈ loopbackHosts, Heads ('[' :: name.toList) rest ']'

instance : DecidablePred NamesLoopback := fun _ =>
  inferInstanceAs (Decidable ((∃ name ∈ _, _) ∨ ∃ name ∈ _, _))

/-- What a string is when it is read by its beginning, as the gateway does. -/
def gatewayReads (url : List Char) : Source :=
  if "https://".toList <+: url then .web
  else if "http://".toList <+: url ∧ NamesLoopback (url.drop 7) then .loopback
  else if "://".toList <:+: url ∨ "data:".toList <+: url then .foreign
  else .bare

/-- What a string is when Python parses it. -/
def pythonReads (checks : Url.Checks) (url : List Char) : Source :=
  match Url.urlsplit checks url with
  | none => .foreign
  | some parsed =>
      if parsed.scheme = [] then .bare
      else if parsed.scheme = "https".toList then .web
      else if parsed.scheme = "http".toList ∧ Worker.AllowedHost checks parsed then .loopback
      else .foreign

/-- The path that Python makes of a string is a file. -/
def FileSystem.IsHomeFile (fs : FileSystem) (url : String) : Prop :=
  ∃ path, fs.expanduser url = .ok path ∧ fs.isFile path

/-- The condition: too long in characters for both; or too long in bytes only and nothing
that Python would open; or short enough and read alike.  A string read as a path by one
side only must be the file, or not be it, that makes up for the difference. -/
def Alike (checks : Url.Checks) (fs : FileSystem) (url : String) : Prop :=
  maxImageUrlLength < url.length ∨
  maxImageUrlLength < url.utf8ByteSize ∧ (pythonReads checks url.toList = .foreign ∨
    pythonReads checks url.toList = .bare ∧ ¬ fs.IsHomeFile url) ∨
  url.utf8ByteSize ≤ maxImageUrlLength ∧
    match gatewayReads url.toList, pythonReads checks url.toList with
    | .bare, .bare => (fs.isFile url ↔ fs.IsHomeFile url)
    | .bare, .web | .bare, .loopback => fs.isFile url
    | .bare, .foreign => ¬ fs.isFile url
    | .foreign, .bare => ¬ fs.IsHomeFile url
    | .foreign, other => other = .foreign
    | _, other => other = .web ∨ other = .loopback

/-! ## The gateway reads the beginning -/

theorem mem_of_mem_loopbackHosts {name : String} (h : name ∈ loopbackHosts) :
    ']' ∉ name.toList ∧ '/' ∉ name.toList := by
  simp only [loopbackHosts, List.mem_cons, List.not_mem_nil, or_false] at h
  rcases h with rfl | rfl | rfl <;> decide

/-- What stands before the first `c` or slash. -/
theorem before_before_eq_iff {c : Char} {rest name : List Char} :
    Url.before c (Url.before '/' rest) = name ↔ (c ∉ name ∧ '/' ∉ name) ∧ Heads name rest c := by
  rw [Url.before, Url.before, List.takeWhile_takeWhile, Url.takeWhile_eq_iff, Heads]
  refine and_congr ⟨fun h => ⟨fun hmem => ?_, fun hmem => ?_⟩, fun h d hd => ?_⟩
    (and_congr Iff.rfl (forall₂_congr fun d _ => ?_))
  · simpa using h c hmem
  · simpa using h '/' hmem
  · simp [ne_of_mem_of_not_mem hd h.1, ne_of_mem_of_not_mem hd h.2]
  · by_cases hd : d = c <;> simp [hd]

/-- A bracket in front of the first slash is the first character. -/
theorem eq_cons_of_before {c d : Char} {text name : List Char}
    (h : Url.before c text = d :: name) : ∃ tail, text = d :: tail := by
  have hfront : Url.before c text <+: text := List.takeWhile_prefix _
  rw [h] at hfront
  obtain ⟨tail, rfl⟩ := hfront
  exact ⟨name ++ tail, rfl⟩

/-- **The host that the gateway cuts out** is a loopback name exactly when the text begins
with one. -/
theorem hostOf_mem_iff (rest : List Char) :
    String.ofList (Gateway.hostOf rest) ∈ loopbackHosts ↔ NamesLoopback rest := by
  have hplain : ∀ name ∈ ["localhost", "127.0.0.1"], name ∈ loopbackHosts ∧ ':' ∉ name.toList ∧
      '/' ∉ name.toList ∧ ∀ more tail, name.toList ++ more ≠ '[' :: tail := by
    intro name hname
    simp only [List.mem_cons, List.not_mem_nil, or_false] at hname
    rcases hname with rfl | rfl <;> refine ⟨by simp [loopbackHosts], by decide, by decide, ?_⟩ <;>
      simp
  rw [Gateway.hostOf]
  split
  case h_1 stripped hbracket =>
    obtain ⟨tail, rfl⟩ := eq_cons_of_before hbracket
    have hcut : Url.before ']' (Url.before '/' ('[' :: tail)) = '[' :: Url.before ']' stripped := by
      rw [hbracket, Url.before, List.takeWhile_cons_of_pos (by decide)]
      rfl
    constructor
    · intro hmem
      refine .inr ⟨_, hmem, ?_⟩
      rw [String.toList_ofList]
      exact (before_before_eq_iff.mp hcut).2
    · rintro (⟨name, hname, ⟨more, hmore⟩, -⟩ | ⟨name, hname, hheads⟩)
      · exact absurd hmore ((hplain name hname).2.2.2 more tail)
      · have hnot := mem_of_mem_loopbackHosts hname
        have hbefore := before_before_eq_iff.mpr
          ⟨⟨by simpa using hnot.1, by simpa using hnot.2⟩, hheads⟩
        rw [hcut] at hbefore
        rw [(List.cons.inj hbefore).2, String.ofList_toList]
        exact hname
  case h_2 hnot =>
    constructor
    · intro hmem
      obtain ⟨⟨hcolon, -⟩, hheads⟩ := before_before_eq_iff.mp
        (rfl : Url.before ':' (Url.before '/' rest) = _)
      refine .inl ⟨_, ?_, by rw [String.toList_ofList]; exact hheads⟩
      simp only [loopbackHosts, List.mem_cons, List.not_mem_nil, or_false] at hmem
      simp only [List.mem_cons, List.not_mem_nil, or_false]
      rcases hmem with h | h | h
      · exact .inl h
      · exact .inr h
      · have htext := congrArg String.toList h
        rw [String.toList_ofList] at htext
        rw [htext] at hcolon
        exact absurd hcolon (by decide)
    · rintro (⟨name, hname, hheads⟩ | ⟨name, hname, hheads⟩)
      · obtain ⟨hmem, hcolon, hslash, -⟩ := hplain name hname
        rw [before_before_eq_iff.mpr ⟨⟨hcolon, hslash⟩, hheads⟩, String.ofList_toList]
        exact hmem
      · have hname' := mem_of_mem_loopbackHosts hname
        have hbefore := before_before_eq_iff.mpr
          ⟨⟨by simpa using hname'.1, by simpa using hname'.2⟩, hheads⟩
        obtain ⟨tail, htail⟩ := eq_cons_of_before hbefore
        exact absurd htail (hnot tail)

theorem splitOnce_eq_none {url : List Char} :
    Gateway.splitOnce url = none ↔ ¬ "://".toList <:+: url := by
  rw [Gateway.splitOnce, Option.map_eq_none_iff, Words.find_eq_none (by decide), Words.isInfix_iff,
    not_exists]

/-- A text without a colon before the first separator is what is split off. -/
theorem splitOnce_eq_some {url name rest : List Char} (hname : ':' ∉ name) :
    Gateway.splitOnce url = some (name, rest) ↔ url = name ++ ("://".toList ++ rest) := by
  rw [Gateway.splitOnce, Option.map_eq_some_iff]
  constructor
  · rintro ⟨i, hfind, heq⟩
    obtain ⟨rfl, rfl⟩ := Prod.mk.inj heq
    obtain ⟨⟨tail, htail⟩, -⟩ := (Words.find_eq_some (by decide)).mp hfind
    have hdrop : url.drop (i + 3) = tail := by
      rw [← List.drop_drop, ← htail]
      rfl
    rw [hdrop, htail, List.take_append_drop]
  · rintro rfl
    refine ⟨name.length, (Words.find_eq_some (by decide)).mpr ⟨?_, fun j hj => ?_⟩, ?_⟩
    · rw [Words.OccursAt, List.drop_left]
      exact List.prefix_append _ _
    · by_contra hlt
      rw [not_le] at hlt
      obtain ⟨tail, htail⟩ := hj
      rw [List.drop_append_of_le_length hlt.le] at htail
      cases hdrop : name.drop j with
      | nil =>
          have := congrArg List.length hdrop
          simp at this
          omega
      | cons c cs =>
          rw [hdrop] at htail
          obtain rfl : ':' = c := (List.cons.inj htail).1
          exact hname (List.mem_of_mem_drop (hdrop ▸ List.mem_cons_self : ':' ∈ name.drop j))
    · rw [List.take_left, ← List.drop_drop, List.drop_left]
      rfl

/-- A URL begins with a text without a colon and a separator exactly when that text is
split off. -/
theorem prefix_iff_of_splitOnce {url name scheme rest : List Char} (hname : ':' ∉ name)
    (h : Gateway.splitOnce url = some (scheme, rest)) :
    name ++ "://".toList <+: url ↔ scheme = name := by
  constructor
  · rintro ⟨tail, htail⟩
    rw [List.append_assoc] at htail
    have hname' := (splitOnce_eq_some hname).mpr htail.symm
    exact (Prod.mk.inj (Option.some.inj (h.symm.trans hname'))).1
  · rintro rfl
    exact ⟨rest, by rw [List.append_assoc, ← (splitOnce_eq_some hname).mp h]⟩

theorem https_eq : "https://".toList = "https".toList ++ "://".toList := by decide

theorem http_eq : "http://".toList = "http".toList ++ "://".toList := by decide

theorem gatewayReads_of_data {url : List Char} (h : "data:".toList <+: url) :
    gatewayReads url = .foreign := by
  have hnot : ∀ other : List Char, other <+: url →
      other <+: "data:".toList ∨ "data:".toList <+: other :=
    fun other hother => List.prefix_or_prefix_of_prefix hother h
  rw [gatewayReads, if_neg fun hweb => absurd (hnot _ hweb) (by decide),
    if_neg fun hhttp => absurd (hnot _ hhttp.1) (by decide), if_pos (.inr h)]

theorem gatewayReads_of_none {url : List Char} (h : Gateway.splitOnce url = none)
    (hdata : ¬ "data:".toList <+: url) : gatewayReads url = .bare := by
  have hsep := splitOnce_eq_none.mp h
  have hnot : ∀ name : List Char, ¬ name ++ "://".toList <+: url := fun name hname =>
    hsep ((List.suffix_append _ _).isInfix.trans hname.isInfix)
  rw [gatewayReads, https_eq, http_eq, if_neg (hnot _), if_neg fun hhttp => hnot _ hhttp.1,
    if_neg (not_or.mpr ⟨hsep, hdata⟩)]

theorem gatewayReads_of_some {url scheme rest : List Char}
    (h : Gateway.splitOnce url = some (scheme, rest)) : gatewayReads url =
      if scheme = "https".toList then .web
      else if scheme = "http".toList ∧ NamesLoopback rest then .loopback
      else .foreign := by
  have hsep : "://".toList <:+: url := by
    by_contra hnot
    rw [splitOnce_eq_none.mpr hnot] at h
    cases h
  have hrest : scheme = "http".toList → url.drop 7 = rest := by
    rintro rfl
    rw [(splitOnce_eq_some (by decide)).mp h]
    rfl
  rw [gatewayReads, https_eq, http_eq]
  simp only [prefix_iff_of_splitOnce (by decide : ':' ∉ "https".toList) h,
    prefix_iff_of_splitOnce (by decide : ':' ∉ "http".toList) h]
  by_cases hhttp : scheme = "http".toList
  · simp only [hhttp, true_and, hrest hhttp, hsep, true_or, if_true]
  · simp only [hhttp, false_and, if_false, hsep, true_or, if_true]

/-- **The gateway accepts** what is short enough in bytes and opens as it reads it. -/
theorem gateway_accepts_iff (fs : FileSystem) (url : String) :
    Gateway.validateImageSource fs url = .ok () ↔ url.utf8ByteSize ≤ maxImageUrlLength ∧
      (gatewayReads url.toList).Opens (fs.isFile url) := by
  rw [Gateway.validateImageSource]
  by_cases hlong : maxImageUrlLength < url.utf8ByteSize
  · simp [hlong]
  rw [if_neg hlong, and_iff_right (not_lt.mp hlong)]
  by_cases hdata : "data:".toList <+: url.toList
  · rw [if_pos hdata, gatewayReads_of_data hdata]
    simp [Source.Opens]
  rw [if_neg hdata]
  cases hsplit : Gateway.splitOnce url.toList with
  | none =>
      rw [gatewayReads_of_none hsplit hdata]
      simp [Source.Opens]
  | some parts =>
      obtain ⟨scheme, rest⟩ := parts
      rw [gatewayReads_of_some hsplit]
      dsimp only
      simp only [hostOf_mem_iff]
      by_cases hweb : scheme = "https".toList
      · simp only [if_pos hweb, Source.Opens]
      by_cases hhttp : scheme = "http".toList
      · by_cases hhost : NamesLoopback rest
        · simp only [if_neg hweb, if_pos hhttp, if_pos hhost, if_pos (And.intro hhttp hhost),
            Source.Opens]
        · simp only [if_neg hweb, if_pos hhttp, hhost, and_false, if_false, Source.Opens,
            reduceCtorEq]
      · simp only [if_neg hweb, hhttp, false_and, if_false, Source.Opens, reduceCtorEq]

/-! ## The worker asks Python -/

/-- **The worker accepts** what is short enough in characters and opens as Python reads it. -/
theorem worker_accepts_iff (checks : Url.Checks) (fs : FileSystem) (url : String) :
    (∃ source, Worker.validateImageSource checks fs url = .ok source) ↔
      url.length ≤ maxImageUrlLength ∧
        (pythonReads checks url.toList).Opens (fs.IsHomeFile url) := by
  rw [Worker.validateImageSource, pythonReads]
  by_cases hlong : maxImageUrlLength < url.length
  · simp [hlong]
  rw [if_neg hlong, and_iff_right (not_lt.mp hlong)]
  cases Url.urlsplit checks url.toList with
  | none => simp [Source.Opens]
  | some parsed =>
      dsimp only
      by_cases hbare : parsed.scheme = []
      · rw [if_pos hbare, if_pos hbare, Source.Opens, FileSystem.IsHomeFile]
        cases fs.expanduser url with
        | error e => simp
        | ok path => cases hfile : fs.isFile path <;> simp [hfile]
      rw [if_neg hbare, if_neg hbare]
      by_cases hhttp : parsed.scheme = "http".toList
      · have hweb : parsed.scheme ≠ "https".toList := by rw [hhttp]; decide
        rw [if_pos hhttp, if_neg hweb]
        by_cases hhost : Worker.AllowedHost checks parsed <;> simp [hhttp, hhost, Source.Opens]
      have hscheme : String.ofList parsed.scheme ∈ Worker.allowedImageSchemes ↔
          parsed.scheme = "https".toList := by
        have hinj : ∀ name : String, String.ofList parsed.scheme = name ↔
            parsed.scheme = name.toList := fun name =>
          ⟨fun h => by rw [← h, String.toList_ofList], fun h => by rw [h, String.ofList_toList]⟩
        simp only [Worker.allowedImageSchemes, List.mem_cons, List.not_mem_nil, or_false, hinj,
          hhttp]
      rw [if_neg hhttp]
      by_cases hweb : parsed.scheme = "https".toList
      · rw [if_pos hweb, if_neg (not_not.mpr (hscheme.mpr hweb))]
        simp [Source.Opens]
      · rw [if_neg hweb, if_pos (mt hscheme.mp hweb), if_neg fun hand => hhttp hand.1]
        simp [Source.Opens]

/-- The schemes that both sides know are in lower case. -/
theorem isScheme_of_allowed {name : String} (h : name ∈ Worker.allowedImageSchemes) :
    Url.IsScheme name.toList ∧ name.toList.map Char.toLower = name.toList := by
  simp only [Worker.allowedImageSchemes, List.mem_cons, List.not_mem_nil, or_false] at h
  rcases h with rfl | rfl <;>
    exact ⟨⟨⟨'h', rfl, rfl⟩, List.all_eq_true.mp rfl⟩, rfl⟩

/-- A URL that begins with a scheme in lower case has that scheme for Python, whatever
follows. -/
theorem scheme_of_front {checks : Url.Checks} {url name : List Char} {parsed : Url.Parsed}
    (hname : Url.IsScheme name ∧ name.map Char.toLower = name)
    (h : name ++ "://".toList <+: url) (hsplit : Url.urlsplit checks url = some parsed) :
    parsed.scheme = name := by
  obtain ⟨tail, rfl⟩ := h
  rw [List.append_assoc] at hsplit
  exact Url.scheme_of_literal hname.1 hname.2 hsplit

/-- What the gateway takes for a URL, Python does not take for a path. -/
theorem pythonReads_ne_bare {checks : Url.Checks} {url : List Char}
    (h : gatewayReads url = .web ∨ gatewayReads url = .loopback) :
    pythonReads checks url ≠ .bare := by
  have hscheme : ∀ parsed, Url.urlsplit checks url = some parsed → parsed.scheme ≠ [] := by
    intro parsed hsplit
    rw [gatewayReads, https_eq, http_eq] at h
    split_ifs at h with hweb hhttp hforeign
    · rw [scheme_of_front (isScheme_of_allowed List.mem_cons_self) hweb hsplit]
      decide
    · rw [scheme_of_front (isScheme_of_allowed (List.mem_cons_of_mem _ List.mem_cons_self)) hhttp.1
        hsplit]
      decide
    all_goals simp at h
  rw [pythonReads]
  cases hsplit : Url.urlsplit checks url with
  | none => simp
  | some parsed =>
      dsimp only
      rw [if_neg (hscheme parsed hsplit)]
      split_ifs <;> simp

/-! ## The two verdicts -/

/-- A URL that either of the two takes for an `http` one. -/
def IsHttp (checks : Url.Checks) (url : String) : Prop :=
  "http://".toList <+: url.toList ∨
    ∃ parsed, Url.urlsplit checks url.toList = some parsed ∧ parsed.scheme = "http".toList

/-- What is to hold of a string: both accept it or neither does, and where it is an `http`
URL that the gateway accepts, Python finds a loopback host in it. -/
def Agrees (checks : Url.Checks) (fs : FileSystem) (url : String) : Prop :=
  (Gateway.validateImageSource fs url = .ok () ↔
    ∃ source, Worker.validateImageSource checks fs url = .ok source) ∧
  (Gateway.validateImageSource fs url = .ok () → IsHttp checks url →
    ∃ parsed, Url.urlsplit checks url.toList = some parsed ∧ Worker.AllowedHost checks parsed)

/-- A text has as many bytes as characters, or more. -/
theorem length_le_utf8ByteSize (url : String) : url.length ≤ url.utf8ByteSize := by
  have hlist : ∀ cs : List Char, cs.length ≤ (String.ofList cs).utf8ByteSize := by
    intro cs
    induction cs with
    | nil => exact Nat.zero_le _
    | cons c cs ih =>
        have hpos := c.utf8Size_pos
        rw [← List.singleton_append, String.ofList_append, String.utf8ByteSize_append,
          ← String.singleton_eq_ofList, String.utf8ByteSize_singleton, List.length_append,
          List.length_singleton]
        omega
  calc url.length = url.toList.length := String.length_toList.symm
    _ ≤ url.utf8ByteSize := by simpa only [String.ofList_toList] using hlist url.toList

/-- **The two verdicts are one** exactly on the strings that are alike. -/
theorem verdicts_iff_alike (checks : Url.Checks) (fs : FileSystem) (url : String) :
    (Gateway.validateImageSource fs url = .ok () ↔
      ∃ source, Worker.validateImageSource checks fs url = .ok source) ↔ Alike checks fs url := by
  have hle := length_le_utf8ByteSize url
  rw [gateway_accepts_iff, worker_accepts_iff, Alike]
  by_cases hlong : maxImageUrlLength < url.length
  · simp only [hlong, true_or, iff_true]
    constructor <;> intro h <;> omega
  by_cases hbytes : maxImageUrlLength < url.utf8ByteSize
  · simp only [not_lt.mp hlong, hlong, hbytes, not_le.mpr hbytes, false_and, true_and, false_or,
      or_false, false_iff]
    cases pythonReads checks url.toList <;> simp [Source.Opens]
  · have hnot : gatewayReads url.toList = .web ∨ gatewayReads url.toList = .loopback →
        pythonReads checks url.toList ≠ .bare := pythonReads_ne_bare
    simp only [not_lt.mp hlong, hlong, hbytes, not_lt.mp hbytes, false_and, true_and, false_or]
    generalize gatewayReads url.toList = gateway at hnot ⊢
    generalize pythonReads checks url.toList = python at hnot ⊢
    cases gateway <;> cases python <;> simp_all [Source.Opens]

/-- Where the worker accepts an `http` URL, Python has found a loopback host. -/
theorem allowedHost_of_accepts {checks : Url.Checks} {fs : FileSystem} {url source : String}
    (h : Worker.validateImageSource checks fs url = .ok source) (hhttp : IsHttp checks url) :
    ∃ parsed, Url.urlsplit checks url.toList = some parsed ∧ Worker.AllowedHost checks parsed := by
  have hopens := ((worker_accepts_iff checks fs url).mp ⟨source, h⟩).2
  have hparsed : ∃ parsed, Url.urlsplit checks url.toList = some parsed ∧
      parsed.scheme = "http".toList := by
    rcases hhttp with hfront | hparsed
    · cases hsplit : Url.urlsplit checks url.toList with
      | none =>
          rw [pythonReads, hsplit] at hopens
          cases hopens
      | some parsed =>
          have hscheme := isScheme_of_allowed (List.mem_cons_of_mem "https" List.mem_cons_self)
          exact ⟨parsed, rfl, scheme_of_front hscheme (http_eq ▸ hfront) hsplit⟩
    · exact hparsed
  obtain ⟨parsed, hsplit, hscheme⟩ := hparsed
  refine ⟨parsed, hsplit, ?_⟩
  by_contra hhost
  rw [pythonReads, hsplit] at hopens
  dsimp only at hopens
  rw [hscheme, if_neg (by decide), if_neg (by decide), if_neg fun hand => hhost hand.2] at hopens
  exact hopens

/-- **The two checks agree** on exactly the strings that are alike for both. -/
theorem imageSources_agree_iff (checks : Url.Checks) (fs : FileSystem) (url : String) :
    Agrees checks fs url ↔ Alike checks fs url := by
  rw [← verdicts_iff_alike]
  refine ⟨And.left, fun h => ⟨h, fun haccepts hhttp => ?_⟩⟩
  obtain ⟨source, hsource⟩ := h.mp haccepts
  exact allowedHost_of_accepts hsource hhttp

/-! ## Ordinary loopback URLs -/

/-- Python finds the name, for nothing behind the slash belongs to the location. -/
theorem pythonReads_loopback_path {checks : Url.Checks} {name : String}
    (hname : name ∈ ["localhost", "127.0.0.1"]) (hlower : checks.lower name.toList = name.toList)
    (path : List Char) :
    pythonReads checks ("http://".toList ++ (name.toList ++ '/' :: path)) = .loopback := by
  have hplain : (∀ c ∈ name.toList, Url.isSchemeChar c) ∧ name.toList ≠ [] ∧
      name ∈ loopbackHosts := by
    simp only [List.mem_cons, List.not_mem_nil, or_false] at hname
    rcases hname with rfl | rfl <;> exact ⟨List.all_eq_true.mp rfl, by simp, by simp [loopbackHosts]⟩
  have hscheme := isScheme_of_allowed (List.mem_cons_of_mem "https" List.mem_cons_self)
  have hsplit := Url.urlsplit_host checks hscheme.1 hplain.1 path
  have hhost : Worker.AllowedHost checks ⟨"http".toList, name.toList⟩ :=
    ⟨_, Url.hostname_host checks hplain.1 hplain.2.1, by
      rw [hlower, String.ofList_toList]
      exact hplain.2.2⟩
  change pythonReads checks
    ("http".toList ++ ':' :: '/' :: '/' :: (name.toList ++ '/' :: path)) = _
  rw [pythonReads, hsplit]
  dsimp only
  rw [if_neg (by decide), if_neg (by decide)]
  exact if_pos ⟨rfl, hhost⟩

/-- A loopback name behind `http://` and before a slash is read alike, whatever the path. -/
theorem alike_loopback_path {checks : Url.Checks} (fs : FileSystem) {name : String}
    (hname : name ∈ ["localhost", "127.0.0.1"]) (hlower : checks.lower name.toList = name.toList)
    (path : List Char)
    (hsize : (String.ofList ("http://".toList ++ (name.toList ++ '/' :: path))).utf8ByteSize ≤
      maxImageUrlLength) :
    Alike checks fs (String.ofList ("http://".toList ++ (name.toList ++ '/' :: path))) := by
  have hgateway : gatewayReads ("http://".toList ++ (name.toList ++ '/' :: path)) = .loopback := by
    have hweb : ¬ "https://".toList <+: "http://".toList ++ (name.toList ++ '/' :: path) :=
      fun h => absurd (List.prefix_of_prefix_length_le (List.prefix_append _ _) h (by decide))
        (by decide)
    have hheads : Heads name.toList (name.toList ++ '/' :: path) ':' := by
      refine ⟨List.prefix_append _ _, fun d hd => ?_⟩
      rw [List.drop_left] at hd
      exact .inl (Option.some.inj hd).symm
    rw [gatewayReads, if_neg hweb, if_pos ⟨List.prefix_append _ _, .inl ⟨name, hname, hheads⟩⟩]
  refine .inr (.inr ⟨hsize, ?_⟩)
  rw [String.toList_ofList, hgateway, pythonReads_loopback_path hname hlower path]
  exact .inr rfl

/-- A platform where nothing stands between brackets and no text is beyond ASCII. -/
def plainChecks : Url.Checks := ⟨fun _ => false, fun _ => false, (·.map Char.toLower)⟩

/-- No file anywhere, and no home directory to expand. -/
def noFiles : FileSystem := ⟨fun _ => false, .ok⟩

/-- User information that looks like a loopback host with a port. -/
theorem userinfo_not_agrees :
    ¬ Agrees plainChecks noFiles "http://localhost:80@example.com/cat.png" := by
  intro h
  have hgateway : Gateway.validateImageSource noFiles
      "http://localhost:80@example.com/cat.png" = .ok () := by decide
  obtain ⟨source, hsource⟩ := h.1.mp hgateway
  have hforeign : pythonReads plainChecks
      "http://localhost:80@example.com/cat.png".toList = .foreign := by decide
  have hopens := ((worker_accepts_iff plainChecks noFiles _).mp ⟨source, hsource⟩).2
  rw [hforeign] at hopens
  exact hopens

end MlxRuntime.ImageSource
