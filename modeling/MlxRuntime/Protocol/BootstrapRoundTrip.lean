import MlxRuntime.Protocol.BootstrapWire

/-!
# Which bootstrap messages survive the wire

A record survives if its numbers fit the types of the reader.  The text of an error survives if
it is there, has no blank at its end, and is not taken for the record of an error.

## Main definitions

* `encodeBootstrap`, `decodeBootstrap` — the writer and the reader of a language.
* `Arrives` — the message that was sent, up to newlines in the text of an error.
* `Clear` — the messages that survive.
* `survives_iff_clear` — these are all.
-/

namespace MlxRuntime

variable {F : Type}

/-! ## Records -/

namespace ModelError

/-- The time fits its type in Rust. -/
def Fits (e : ModelError) : Prop := e.at_ < 2 ^ 64

end ModelError

/-- The numbers fit their types in Rust. -/
structure ModelLoadProgress.Fits (p : ModelLoadProgress) : Prop where
  downloadedBytes : ∀ n ∈ p.downloadedBytes, n < 2 ^ 64
  totalBytes : ∀ n ∈ p.totalBytes, n < 2 ^ 64
  loadedTensors : ∀ n ∈ p.loadedTensors, n < 2 ^ 32
  totalTensors : ∀ n ∈ p.totalTensors, n < 2 ^ 32

/-- The numbers fit their types in Rust. -/
structure ModelStatus.Fits (s : ModelStatus) : Prop where
  progress : ∀ p ∈ s.progress, p.Fits
  loadedAt : ∀ n ∈ s.loadedAt, n < 2 ^ 64
  startedLoadingAt : ∀ n ∈ s.startedLoadingAt, n < 2 ^ 64
  lastTransitionAt : s.lastTransitionAt < 2 ^ 64
  lastError : ∀ e ∈ s.lastError, e.Fits
  lastWarmupAt : ∀ n ∈ s.lastWarmupAt, n < 2 ^ 64
  lastWarmupLatencyMs : ∀ n ∈ s.lastWarmupLatencyMs, n < 2 ^ 64

theorem nodup_error (e : ModelError) : ((e.members (F := F)).map Prod.fst).Nodup := by
  simp [ModelError.members]

theorem nodup_progress (p : ModelLoadProgress) : ((p.members (F := F)).map Prod.fst).Nodup := by
  simp [ModelLoadProgress.members]

theorem nodup_status (s : ModelStatus) : ((s.members (F := F)).map Prod.fst).Nodup := by
  simp [ModelStatus.members]

theorem structOf_obj {lang : Language} {members : List (String × Json F)}
    (h : (members.map Prod.fst).Nodup) (names : List String) (least : ℕ) :
    structOf lang names least (.obj members) = some members := by
  rw [structOf, if_pos fun _ => Json.once_of_nodup h names]

section Fields

variable {members : List (String × Json F)} (name : String)

theorem required_eq {α : Type} {j : Json F} (hnodup : (members.map Prod.fst).Nodup)
    (read : Json F → Option α) (h : (name, j) ∈ members) :
    requiredField read members name = read j := by
  rw [requiredField, Json.get?_eq_some hnodup h, Option.bind_some]

theorem optional_eq {α : Type} (hnodup : (members.map Prod.fst).Nodup) {read : Json F → Option α}
    {write : α → Json F} (hwrite : ∀ y, write y ≠ .null) (x : Option α)
    (h : (name, optionJson write x) ∈ members) :
    optionalField read members name =
      (x.map fun y => (read (write y)).map some).getD (some none) := by
  rw [optionalField, Json.get?_eq_some hnodup h]
  cases x with
  | none => rfl
  | some y =>
    rw [optionJson, Option.map_some, Option.getD_some]
    split
    case h_1 heq => cases heq
    case h_2 heq => exact absurd (Option.some.inj heq) (hwrite y)
    case h_3 j hne heq => rw [Option.some.inj heq]

theorem natOf_natJson (lang : Language) (width n : ℕ) :
    natOf lang width (natJson n : Json F) =
      if lang = .rust → n < 2 ^ width then some n else none := by
  have hiff : (0 ≤ (n : ℤ) ∧ (lang = .rust → (n : ℤ) < 2 ^ width)) ↔
      (lang = .rust → n < 2 ^ width) := by
    refine ⟨fun h hlang => by exact_mod_cast h.2 hlang, fun h => ⟨Int.natCast_nonneg n, ?_⟩⟩
    intro hlang
    exact_mod_cast h hlang
  rw [natJson, natOf]
  simp only [hiff, Int.toNat_natCast]

theorem optional_str (hnodup : (members.map Prod.fst).Nodup) (x : Option String)
    (h : (name, optionJson .str x) ∈ members) : optionalField strOf members name = some x := by
  rw [optional_eq name hnodup (by simp) x h]
  cases x <;> rfl

/-- An optional number is read if it fits. -/
theorem optional_nat (lang : Language) (width : ℕ) (hnodup : (members.map Prod.fst).Nodup)
    (x : Option ℕ) (h : (name, optionJson natJson x) ∈ members) {y : Option ℕ} :
    optionalField (natOf lang width) members name = some y ↔
      (lang = .rust → ∀ n ∈ x, n < 2 ^ width) ∧ x = y := by
  rw [optional_eq name hnodup (by simp [natJson]) x h]
  cases x with
  | none => simp
  | some n =>
    rw [Option.map_some, Option.getD_some, natOf_natJson]
    split
    case isTrue hfits => simpa using fun _ => hfits
    case isFalse hfits => simpa using fun h => absurd h hfits

theorem required_nat (lang : Language) (width : ℕ) (hnodup : (members.map Prod.fst).Nodup)
    (n : ℕ) (h : (name, natJson n) ∈ members) {m : ℕ} :
    requiredField (natOf lang width) members name = some m ↔
      (lang = .rust → n < 2 ^ width) ∧ n = m := by
  rw [required_eq name hnodup _ h, natOf_natJson]
  split
  case isTrue hfits => simpa using fun _ => hfits
  case isFalse hfits => simpa using fun h => absurd h hfits

end Fields

theorem modelErrorOf_members (lang : Language) (e e' : ModelError) :
    modelErrorOf lang (.obj e.members : Json F) = some e' ↔
      (lang = .rust → e.Fits) ∧ e = e' := by
  have hnodup := nodup_error (F := F) e
  have hcode := required_eq "code" hnodup strOf (j := .str e.code) (by simp [ModelError.members])
  have hmessage := required_eq "message" hnodup strOf (j := .str e.message)
    (by simp [ModelError.members])
  have hat := fun n => required_nat "at" lang 64 hnodup e.at_
    (by simp [ModelError.members]) (m := n)
  rw [modelErrorOf, structOf_obj hnodup, Option.bind_some, readModelError]
  simp only [Option.bind_eq_bind]
  rw [hcode, hmessage, optional_str "backend" hnodup e.backend (by simp [ModelError.members]),
    optional_str "stage" hnodup e.stage (by simp [ModelError.members]),
    optional_str "category" hnodup e.category (by simp [ModelError.members]),
    optional_str "detail" hnodup e.detail (by simp [ModelError.members])]
  simp only [strOf, Option.bind_some, Option.bind_eq_some_iff, hat]
  constructor
  · rintro ⟨n, ⟨hfits, rfl⟩, heq⟩
    exact ⟨hfits, Option.some.inj heq⟩
  · rintro ⟨hfits, rfl⟩
    exact ⟨e.at_, ⟨hfits, rfl⟩, rfl⟩

theorem modelProgressOf_members (lang : Language) (p p' : ModelLoadProgress) :
    modelProgressOf lang (.obj p.members : Json F) = some p' ↔
      (lang = .rust → p.Fits) ∧ p = p' := by
  have hnodup := nodup_progress (F := F) p
  have hdownloaded := fun y => optional_nat "downloaded_bytes" lang 64 hnodup p.downloadedBytes
    (by simp [ModelLoadProgress.members]) (y := y)
  have htotal := fun y => optional_nat "total_bytes" lang 64 hnodup p.totalBytes
    (by simp [ModelLoadProgress.members]) (y := y)
  have hloaded := fun y => optional_nat "loaded_tensors" lang 32 hnodup p.loadedTensors
    (by simp [ModelLoadProgress.members]) (y := y)
  have htensors := fun y => optional_nat "total_tensors" lang 32 hnodup p.totalTensors
    (by simp [ModelLoadProgress.members]) (y := y)
  rw [modelProgressOf, structOf_obj hnodup, Option.bind_some, readModelProgress]
  simp only [Option.bind_eq_bind]
  rw [optional_str "current_phase" hnodup p.currentPhase (by simp [ModelLoadProgress.members])]
  simp only [Option.bind_some, Option.bind_eq_some_iff, hdownloaded, htotal, hloaded, htensors]
  constructor
  · rintro ⟨_, ⟨h₁, rfl⟩, _, ⟨h₂, rfl⟩, _, ⟨h₃, rfl⟩, _, ⟨h₄, rfl⟩, heq⟩
    exact ⟨fun hlang => ⟨h₁ hlang, h₂ hlang, h₃ hlang, h₄ hlang⟩, Option.some.inj heq⟩
  · rintro ⟨hfits, rfl⟩
    exact ⟨_, ⟨fun hlang => (hfits hlang).downloadedBytes, rfl⟩,
      _, ⟨fun hlang => (hfits hlang).totalBytes, rfl⟩,
      _, ⟨fun hlang => (hfits hlang).loadedTensors, rfl⟩,
      _, ⟨fun hlang => (hfits hlang).totalTensors, rfl⟩, rfl⟩

theorem stateOf_name (state : ModelState) : stateOf (.str state.name : Json F) = some state := by
  cases state <;> rfl

/-- A record that is read or not is read under a name that may be `null`. -/
theorem optional_record {α : Type} {members : List (String × Json F)} (name : String)
    (hnodup : (members.map Prod.fst).Nodup) {read : Json F → Option α}
    {write : α → List (String × Json F)} {fits : α → Prop}
    (hread : ∀ y y', read (.obj (write y)) = some y' ↔ fits y ∧ y = y') (x : Option α)
    (h : (name, optionJson (fun y => .obj (write y)) x) ∈ members) (x' : Option α) :
    optionalField read members name = some x' ↔ (∀ y ∈ x, fits y) ∧ x = x' := by
  rw [optional_eq name hnodup (by simp) x h]
  cases x with
  | none => simp
  | some y =>
    rw [Option.map_some, Option.getD_some, Option.map_eq_some_iff]
    constructor
    · rintro ⟨y', hy', rfl⟩
      obtain ⟨hfits, rfl⟩ := (hread y y').mp hy'
      exact ⟨by simpa using hfits, rfl⟩
    · rintro ⟨hfits, rfl⟩
      exact ⟨y, (hread y y).mpr ⟨hfits y rfl, rfl⟩, rfl⟩

theorem modelStatusOf_members (lang : Language) (s s' : ModelStatus) :
    modelStatusOf lang (.obj s.members : Json F) = some s' ↔
      (lang = .rust → s.Fits) ∧ s = s' := by
  have hnodup := nodup_status (F := F) s
  have hmodel := required_eq "model" hnodup strOf (j := .str s.model)
    (by simp [ModelStatus.members])
  have hstate := required_eq "state" hnodup stateOf (j := .str s.state.name)
    (by simp [ModelStatus.members])
  have hready := required_eq "ready" hnodup boolOf (j := .bool s.ready)
    (by simp [ModelStatus.members])
  have hservable := required_eq "servable" hnodup boolOf (j := .bool s.servable)
    (by simp [ModelStatus.members])
  have hwarmup := required_eq "warmup_passed" hnodup boolOf (j := .bool s.warmupPassed)
    (by simp [ModelStatus.members])
  have hprogress := optional_record "progress" hnodup (modelProgressOf_members lang) s.progress
    (by simp [ModelStatus.members])
  have herror := optional_record "last_error" hnodup (modelErrorOf_members lang) s.lastError
    (by simp [ModelStatus.members])
  have hloaded := fun y => optional_nat "loaded_at" lang 64 hnodup s.loadedAt
    (by simp [ModelStatus.members]) (y := y)
  have hstarted := fun y => optional_nat "started_loading_at" lang 64 hnodup s.startedLoadingAt
    (by simp [ModelStatus.members]) (y := y)
  have htransition := fun n => required_nat "last_transition_at" lang 64 hnodup s.lastTransitionAt
    (by simp [ModelStatus.members]) (m := n)
  have hwarmupAt := fun y => optional_nat "last_warmup_at" lang 64 hnodup s.lastWarmupAt
    (by simp [ModelStatus.members]) (y := y)
  have hlatency := fun y => optional_nat "last_warmup_latency_ms" lang 64 hnodup
    s.lastWarmupLatencyMs (by simp [ModelStatus.members]) (y := y)
  rw [modelStatusOf, structOf_obj hnodup, Option.bind_some, readModelStatus]
  rw [hmodel, hstate, hready, hservable, hwarmup, stateOf_name,
    optional_str "revision" hnodup s.revision (by simp [ModelStatus.members]),
    optional_str "device" hnodup s.device (by simp [ModelStatus.members]),
    optional_str "dtype" hnodup s.dtype (by simp [ModelStatus.members])]
  constructor
  · intro h
    obtain ⟨_, hread, h⟩ := Option.bind_eq_some_iff.mp h
    cases hread
    obtain ⟨_, hread, h⟩ := Option.bind_eq_some_iff.mp h
    cases hread
    obtain ⟨_, hread, h⟩ := Option.bind_eq_some_iff.mp h
    cases hread
    obtain ⟨_, hread, h⟩ := Option.bind_eq_some_iff.mp h
    cases hread
    obtain ⟨_, hread, h⟩ := Option.bind_eq_some_iff.mp h
    cases hread
    obtain ⟨_, hread, h⟩ := Option.bind_eq_some_iff.mp h
    obtain ⟨h₁, rfl⟩ := (hprogress _).mp hread
    obtain ⟨_, hread, h⟩ := Option.bind_eq_some_iff.mp h
    cases hread
    obtain ⟨_, hread, h⟩ := Option.bind_eq_some_iff.mp h
    cases hread
    obtain ⟨_, hread, h⟩ := Option.bind_eq_some_iff.mp h
    obtain ⟨h₂, rfl⟩ := (hloaded _).mp hread
    obtain ⟨_, hread, h⟩ := Option.bind_eq_some_iff.mp h
    obtain ⟨h₃, rfl⟩ := (hstarted _).mp hread
    obtain ⟨_, hread, h⟩ := Option.bind_eq_some_iff.mp h
    obtain ⟨h₄, rfl⟩ := (htransition _).mp hread
    obtain ⟨_, hread, h⟩ := Option.bind_eq_some_iff.mp h
    obtain ⟨h₅, rfl⟩ := (herror _).mp hread
    obtain ⟨_, hread, h⟩ := Option.bind_eq_some_iff.mp h
    cases hread
    obtain ⟨_, hread, h⟩ := Option.bind_eq_some_iff.mp h
    obtain ⟨h₆, rfl⟩ := (hwarmupAt _).mp hread
    obtain ⟨_, hread, h⟩ := Option.bind_eq_some_iff.mp h
    obtain ⟨h₇, rfl⟩ := (hlatency _).mp hread
    refine ⟨fun hlang => ⟨fun p hp => h₁ p hp hlang, h₂ hlang, h₃ hlang, h₄ hlang,
      fun e he => h₅ e he hlang, h₆ hlang, h₇ hlang⟩, Option.some.inj h⟩
  · rintro ⟨hfits, rfl⟩
    rw [(hprogress s.progress).mpr ⟨fun p hp hlang => (hfits hlang).progress p hp, rfl⟩,
      (hloaded s.loadedAt).mpr ⟨fun hlang => (hfits hlang).loadedAt, rfl⟩,
      (hstarted s.startedLoadingAt).mpr ⟨fun hlang => (hfits hlang).startedLoadingAt, rfl⟩,
      (htransition s.lastTransitionAt).mpr ⟨fun hlang => (hfits hlang).lastTransitionAt, rfl⟩,
      (herror s.lastError).mpr ⟨fun e he hlang => (hfits hlang).lastError e he, rfl⟩,
      (hwarmupAt s.lastWarmupAt).mpr ⟨fun hlang => (hfits hlang).lastWarmupAt, rfl⟩,
      (hlatency s.lastWarmupLatencyMs).mpr ⟨fun hlang => (hfits hlang).lastWarmupLatencyMs, rfl⟩]
    rfl

/-! ## Lines -/

/-- What either encoder puts around a payload. -/
theorem rdropWhile_append {α : Type} (p : α → Bool) (l m : List α) :
    (l ++ m).rdropWhile p =
      if m.rdropWhile p = [] then l.rdropWhile p else l ++ m.rdropWhile p := by
  rw [List.rdropWhile, List.rdropWhile, List.rdropWhile, List.reverse_append,
    List.dropWhile_append]
  cases m.reverse.dropWhile p with
  | nil => rfl
  | cons c cs => simp

/-- The blanks of a reader. -/
def blank : Language → Char → Bool
  | .python => isPythonSpace
  | .rust => isWhitespace

theorem blank_newline (lang : Language) : blank lang '\n' = true := by
  cases lang <;> rfl

/-- A line without the blanks around it: its kind, and the payload without the blanks at its
end, if anything is left. -/
theorem strip_line (lang : Language) {kind : List Char} (hkind : kind = "ERROR".toList ∨
      kind = "STATUS".toList) (body : List Char) {gap : List Char}
    (hgap : gap = [] ∨ gap = ['\n']) :
    ((kind ++ '\t' :: (body ++ gap)).dropWhile (blank lang)).rdropWhile (blank lang) =
      if body.rdropWhile (blank lang) = [] then kind
      else kind ++ '\t' :: body.rdropWhile (blank lang) := by
  have hhead : ∃ c cs, kind = c :: cs ∧ blank lang c = false := by
    rcases hkind with rfl | rfl <;> exact ⟨_, _, rfl, by cases lang <;> decide⟩
  have hlast : kind.rdropWhile (blank lang) = kind := by
    rcases hkind with rfl | rfl <;> cases lang <;> decide
  have hbody : (body ++ gap).rdropWhile (blank lang) = body.rdropWhile (blank lang) := by
    rcases hgap with rfl | rfl
    · rw [List.append_nil]
    · exact List.rdropWhile_concat_pos _ _ _ (blank_newline lang)
  have htab : ['\t'].rdropWhile (blank lang) = [] := by cases lang <;> decide
  obtain ⟨c, cs, hcons, hc⟩ := hhead
  have hdrop : (kind ++ '\t' :: (body ++ gap)).dropWhile (blank lang) =
      kind ++ '\t' :: (body ++ gap) := by
    rw [hcons, List.cons_append, List.dropWhile_cons_of_neg (by simp [hc])]
  rw [hdrop, ← List.singleton_append, ← List.append_assoc, rdropWhile_append, hbody,
    rdropWhile_append, htab, if_pos rfl, hlast, List.append_assoc, List.singleton_append]

section Readers

variable (serde : SerdeValue F) {format : Json.FloatFormat F} (py : PythonStr format)

/-- The reader of a language. -/
def decodeBootstrap : Language → List Char → Option (Option WorkerMessage)
  | .python, line => decodeBootstrapMessage format py line
  | .rust, line => some (decodeWorkerMessage serde.bootstrapJson line)

/-- What a reader makes of the payload of an `ERROR` line. -/
def readErrorPayload : Language → List Char → Option WorkerError
  | .python, payload => errorOfPayload format py payload
  | .rust, payload =>
      some ((serde.bootstrapJson.workerError payload).getD ⟨String.ofList payload, none⟩)

/-- What a reader makes of the payload of a `STATUS` line. -/
def readStatusPayload (format : Json.FloatFormat F) : Language → List Char → Option (Option ModelStatus)
  | .python, payload => ((Json.parse format payload).bind (modelStatusOf .python)).map some
  | .rust, payload => some (serde.bootstrapJson.modelStatus payload)

theorem afterTab_append {kind : List Char} (h : '\t' ∉ kind) (payload : List Char) :
    afterTab (kind ++ '\t' :: payload) = payload := by
  rw [afterTab, splitOnce_append h]
  rfl

theorem decode_error (lang : Language) (body : List Char) {gap : List Char}
    (hgap : gap = [] ∨ gap = ['\n']) :
    decodeBootstrap serde py lang ("ERROR".toList ++ '\t' :: (body ++ gap)) =
      if body.rdropWhile (blank lang) = [] then some none
      else (readErrorPayload serde py lang (body.rdropWhile (blank lang))).map fun e =>
        some (.error e) := by
  have hline := strip_line lang (.inl rfl) body hgap
  have hnot : '\t' ∉ "ERROR".toList := by decide
  by_cases hblank : body.rdropWhile (blank lang) = []
  · rw [if_pos hblank] at hline ⊢
    cases lang with
    | python =>
      rw [decodeBootstrap, decodeBootstrapMessage, strip]
      rw [blank] at hline
      rw [hline]
      rfl
    | rust =>
      rw [decodeBootstrap, decodeWorkerMessage, trim]
      rw [blank] at hline
      rw [hline]
      rfl
  · rw [if_neg hblank] at hline ⊢
    cases lang with
    | python =>
      rw [decodeBootstrap, decodeBootstrapMessage, strip]
      rw [blank] at hline
      rw [hline, if_neg (by simp), if_pos (by simp), afterTab_append hnot, readErrorPayload]
      rfl
    | rust =>
      rw [decodeBootstrap, decodeWorkerMessage, trim]
      rw [blank] at hline
      rw [hline, if_neg (by simp), splitOnce_append hnot, readErrorPayload]
      dsimp only
      rw [if_neg (by decide), if_pos rfl, blank]
      cases serde.bootstrapJson.workerError _ <;> rfl

theorem decode_status (lang : Language) (body : List Char) {gap : List Char}
    (hgap : gap = [] ∨ gap = ['\n']) (hbody : body.rdropWhile (blank lang) = body)
    (hne : body ≠ []) :
    decodeBootstrap serde py lang ("STATUS".toList ++ '\t' :: (body ++ gap)) =
      (readStatusPayload serde format lang body).map fun s => s.map .status := by
  have hline := strip_line lang (.inr rfl) body hgap
  rw [hbody, if_neg hne] at hline
  have hnot : '\t' ∉ "STATUS".toList := by decide
  cases lang with
  | python =>
    rw [decodeBootstrap, decodeBootstrapMessage, strip]
    rw [blank] at hline
    rw [hline, if_neg (by simp), if_neg (by simp), if_pos (by simp), afterTab_append hnot,
      readStatusPayload]
    cases (Json.parse format body).bind (modelStatusOf .python) <;> rfl
  | rust =>
    rw [decodeBootstrap, decodeWorkerMessage, trim]
    rw [blank] at hline
    rw [hline, if_neg (by simp), splitOnce_append hnot, readStatusPayload]
    dsimp only
    rw [if_pos rfl]
    rfl

end Readers

/-! ## Texts of records -/

/-- The text of a record in a language. -/
def recordText : Language → List (String × Json Empty) → List Char
  | .python, members => dumps members
  | .rust, members => serdeText members

/-- The style in which a language writes. -/
def recordStyle : Language → Json.Style
  | .python => .ascii
  | .rust => .compact

theorem recordText_eq (lang : Language) (members : List (String × Json Empty)) :
    recordText lang members = Json.write (recordStyle lang) Empty.elim (.obj members) := by
  cases lang with
  | python =>
    have hprint : Json.FloatFormat.integers.repr = Empty.elim := funext fun x => x.elim
    rw [recordText, dumps, Json.text_eq_write, hprint, recordStyle]
  | rust => rfl

theorem writeMembers_last (style : Json.Style) (print : Empty → List Char)
    (members : List (String × Json Empty)) :
    ∃ cs, Json.writeMembers style print members = cs ++ ['\x7d'] := by
  induction members with
  | nil => exact ⟨[], rfl⟩
  | cons m ms ih =>
    cases ms with
    | nil => exact ⟨_, rfl⟩
    | cons m' ms =>
      obtain ⟨cs, hcs⟩ := ih
      refine ⟨Json.writeMember style print m ++ ',' :: (style.gap ++ cs), ?_⟩
      rw [Json.writeMembers, hcs]
      · simp
      · simp

/-- No reader takes a blank from the end of a record. -/
theorem rdropWhile_recordText (reader lang : Language) (members : List (String × Json Empty)) :
    (recordText lang members).rdropWhile (blank reader) = recordText lang members := by
  obtain ⟨cs, hcs⟩ := writeMembers_last (recordStyle lang) Empty.elim members
  rw [recordText_eq, Json.write, hcs, ← List.cons_append]
  exact List.rdropWhile_concat_neg _ _ _ (by cases reader <;> decide)

theorem recordText_ne_nil (lang : Language) (members : List (String × Json Empty)) :
    recordText lang members ≠ [] := by
  rw [recordText_eq, Json.write]
  exact List.cons_ne_nil _ _

/-- A record that is read as it was written. -/
def Carried (written : List (String × Json Empty)) (members : List (String × Json F)) : Prop :=
  (Json.obj written).bindFloat Empty.elim = .obj members

theorem Carried.parse {w : List (String × Json Empty)} {r : List (String × Json F)}
    (h : Carried w r) (format : Json.FloatFormat F) (lang : Language) :
    Json.parse format (recordText lang w) = some (.obj r) := by
  have hprint : Json.Prints format Empty.elim (Empty.elim : Empty → Json F) :=
    ⟨fun x => x.elim, fun x => x.elim⟩
  have hparse := Json.parse_write (recordStyle lang) hprint (.obj w) (show [].all Json.isSpace from rfl)
  rw [List.append_nil, h] at hparse
  rw [recordText_eq, hparse]

/-- A value for Rust that nests no deeper. -/
def Shallow (d : ℕ) (j : Json Empty) : Prop := j.Regular ∧ j.depth ≤ d

theorem Carried.fromStr {w : List (String × Json Empty)} {r : List (String × Json F)}
    (h : Carried w r) (hshallow : Shallow 2 (.obj w)) (serde : SerdeValue F) (lang : Language) :
    serde.fromStr (recordText lang w) = some (.obj r) := by
  have hdepth : (Json.obj w).depth ≤ 127 := Nat.le_trans hshallow.2 (by decide)
  rw [recordText_eq, serde.fromStr_write _ _ hshallow.1 hdepth, h]

theorem Shallow.obj {d : ℕ} {members : List (String × Json Empty)}
    (hnodup : (members.map Prod.fst).Nodup) (h : ∀ m ∈ members, Shallow d m.2) :
    Shallow (d + 1) (.obj members) :=
  Json.regular_obj hnodup h

theorem Shallow.str (d : ℕ) (s : String) : Shallow d (.str s) := ⟨trivial, Nat.zero_le d⟩

theorem Shallow.bool (d : ℕ) (b : Bool) : Shallow d (.bool b) := ⟨trivial, Nat.zero_le d⟩

theorem Shallow.nat (d : ℕ) {n : ℕ} (h : n < 2 ^ 64) : Shallow d (natJson n) :=
  ⟨⟨by omega, by exact_mod_cast h⟩, Nat.zero_le d⟩

theorem Shallow.option {α : Type} {d : ℕ} {write : α → Json Empty} {x : Option α}
    (h : ∀ y ∈ x, Shallow d (write y)) : Shallow d (optionJson write x) := by
  cases x with
  | none => exact ⟨trivial, Nat.zero_le d⟩
  | some y => exact h y rfl

theorem Shallow.optionStr (d : ℕ) (x : Option String) : Shallow d (optionJson .str x) :=
  .option fun y _ => .str d y

theorem Shallow.optionNat (d : ℕ) {x : Option ℕ} (h : ∀ n ∈ x, n < 2 ^ 64) :
    Shallow d (optionJson natJson x) :=
  .option fun n hn => .nat d (h n hn)

theorem bindFloat_optionJson {α : Type} (write : α → Json Empty) (x : Option α) :
    (optionJson write x).bindFloat (Empty.elim : Empty → Json F) =
      optionJson (fun y => (write y).bindFloat Empty.elim) x := by
  cases x <;> rfl

theorem shallow_error {e : ModelError} (h : e.Fits) : Shallow 1 (.obj e.members) := by
  refine Shallow.obj (nodup_error e) ?_
  simp only [ModelError.members, List.forall_mem_cons, List.not_mem_nil, IsEmpty.forall_iff,
    implies_true, and_true]
  exact ⟨.str 0 _, .str 0 _, .nat 0 h, .optionStr 0 _, .optionStr 0 _, .optionStr 0 _,
    .optionStr 0 _⟩

theorem shallow_progress {p : ModelLoadProgress} (h : p.Fits) : Shallow 1 (.obj p.members) := by
  refine Shallow.obj (nodup_progress p) ?_
  simp only [ModelLoadProgress.members, List.forall_mem_cons, List.not_mem_nil,
    IsEmpty.forall_iff, implies_true, and_true]
  have hwide : ∀ n : ℕ, n < 2 ^ 32 → n < 2 ^ 64 := fun n hn => by omega
  exact ⟨.optionNat 0 h.downloadedBytes, .optionNat 0 h.totalBytes,
    .optionNat 0 fun n hn => hwide n (h.loadedTensors n hn),
    .optionNat 0 fun n hn => hwide n (h.totalTensors n hn), .optionStr 0 _⟩

theorem carried_error (e : ModelError) : Carried e.members (e.members (F := F)) := by
  simp only [Carried, ModelError.members, Json.bindFloat, Json.bindMembers_eq_map, List.map_cons,
    List.map_nil, bindFloat_optionJson, natJson]

theorem carried_progress (p : ModelLoadProgress) : Carried p.members (p.members (F := F)) := by
  simp only [Carried, ModelLoadProgress.members, Json.bindFloat, Json.bindMembers_eq_map,
    List.map_cons, List.map_nil, bindFloat_optionJson, natJson]
  rfl

theorem shallow_status {s : ModelStatus} (h : s.Fits) : Shallow 2 (.obj s.members) := by
  refine Shallow.obj (nodup_status s) ?_
  simp only [ModelStatus.members, List.forall_mem_cons, List.not_mem_nil, IsEmpty.forall_iff,
    implies_true, and_true]
  exact ⟨.str 1 _, .optionStr 1 _, .str 1 _, .bool 1 _, .bool 1 _,
    .option fun p hp => shallow_progress (h.progress p hp), .optionStr 1 _, .optionStr 1 _,
    .optionNat 1 h.loadedAt, .optionNat 1 h.startedLoadingAt, .nat 1 h.lastTransitionAt,
    .option fun e he => shallow_error (h.lastError e he), .bool 1 _,
    .optionNat 1 h.lastWarmupAt, .optionNat 1 h.lastWarmupLatencyMs⟩

theorem carried_status (s : ModelStatus) : Carried s.members (s.members (F := F)) := by
  have hprogress : ∀ p : ModelLoadProgress,
      (Json.obj p.members).bindFloat (Empty.elim : Empty → Json F) = .obj p.members :=
    carried_progress
  have herror : ∀ e : ModelError,
      (Json.obj e.members).bindFloat (Empty.elim : Empty → Json F) = .obj e.members :=
    carried_error
  simp only [Carried, ModelStatus.members]
  rw [Json.bindFloat, Json.bindMembers_eq_map]
  simp only [List.map_cons, List.map_nil, bindFloat_optionJson, hprogress, herror]
  rfl

theorem shallow_structured (message : String) {error : ModelError} (h : error.Fits) :
    Shallow 2 (.obj (structuredMembers message error)) := by
  refine Shallow.obj (by simp [structuredMembers]) ?_
  simp only [structuredMembers, List.forall_mem_cons, List.not_mem_nil, IsEmpty.forall_iff,
    implies_true, and_true]
  exact ⟨.str 1 _, shallow_error h⟩

theorem carried_structured (message : String) (error : ModelError) :
    Carried (structuredMembers message error) (structuredMembers (F := F) message error) := by
  have herror : (Json.obj error.members).bindFloat (Empty.elim : Empty → Json F) =
      .obj error.members := carried_error error
  simp only [Carried, structuredMembers]
  rw [Json.bindFloat, Json.bindMembers_eq_map, List.map_cons, List.map_cons, List.map_nil, herror]
  rfl

/-! ## What Rust reads -/

theorem lt_of_natOf {width n : ℕ} {j : Json F} (h : natOf .rust width j = some n) :
    n < 2 ^ width := by
  rw [natOf.eq_def] at h
  split at h
  case h_2 => cases h
  case h_1 m =>
    obtain ⟨⟨hpos, hlt⟩, heq⟩ := Option.ite_none_right_eq_some.mp h
    have hlt := hlt rfl
    cases heq
    zify
    rwa [Int.toNat_of_nonneg hpos]

/-- A value that may be absent has what its reader promises. -/
theorem optionalField_forall {α : Type} {read : Json F → Option α} {P : α → Prop}
    (hread : ∀ j y, read j = some y → P y) {members : List (String × Json F)} {name : String}
    {x : Option α} (h : optionalField read members name = some x) : ∀ y ∈ x, P y := by
  rw [optionalField] at h
  split at h
  case h_1 | h_2 =>
    cases h
    intro y hy
    cases hy
  case h_3 j hne heq =>
    obtain ⟨y', hy', rfl⟩ := Option.map_eq_some_iff.mp h
    intro y hy
    cases hy
    exact hread j y' hy'

theorem requiredField_forall {α : Type} {read : Json F → Option α} {P : α → Prop}
    (hread : ∀ j y, read j = some y → P y) {members : List (String × Json F)} {name : String}
    {y : α} (h : requiredField read members name = some y) : P y := by
  obtain ⟨j, -, hj⟩ := Option.bind_eq_some_iff.mp h
  exact hread j y hj

theorem modelErrorOf_fits (j : Json F) (e : ModelError) (h : modelErrorOf .rust j = some e) :
    e.Fits := by
  obtain ⟨members, -, h⟩ := Option.bind_eq_some_iff.mp h
  obtain ⟨code, -, h⟩ := Option.bind_eq_some_iff.mp h
  obtain ⟨message, -, h⟩ := Option.bind_eq_some_iff.mp h
  obtain ⟨at_, hat, h⟩ := Option.bind_eq_some_iff.mp h
  obtain ⟨backend, -, h⟩ := Option.bind_eq_some_iff.mp h
  obtain ⟨stage, -, h⟩ := Option.bind_eq_some_iff.mp h
  obtain ⟨category, -, h⟩ := Option.bind_eq_some_iff.mp h
  obtain ⟨detail, -, h⟩ := Option.bind_eq_some_iff.mp h
  cases h
  exact requiredField_forall (fun _ _ => lt_of_natOf) hat

theorem modelProgressOf_fits (j : Json F) (p : ModelLoadProgress)
    (h : modelProgressOf .rust j = some p) : p.Fits := by
  obtain ⟨members, -, h⟩ := Option.bind_eq_some_iff.mp h
  obtain ⟨downloaded, hdownloaded, h⟩ := Option.bind_eq_some_iff.mp h
  obtain ⟨total, htotal, h⟩ := Option.bind_eq_some_iff.mp h
  obtain ⟨loaded, hloaded, h⟩ := Option.bind_eq_some_iff.mp h
  obtain ⟨tensors, htensors, h⟩ := Option.bind_eq_some_iff.mp h
  obtain ⟨phase, -, h⟩ := Option.bind_eq_some_iff.mp h
  cases h
  exact ⟨optionalField_forall (fun _ _ => lt_of_natOf) hdownloaded,
    optionalField_forall (fun _ _ => lt_of_natOf) htotal,
    optionalField_forall (fun _ _ => lt_of_natOf) hloaded,
    optionalField_forall (fun _ _ => lt_of_natOf) htensors⟩

theorem modelStatusOf_fits (j : Json F) (s : ModelStatus) (h : modelStatusOf .rust j = some s) :
    s.Fits := by
  obtain ⟨members, -, h⟩ := Option.bind_eq_some_iff.mp h
  obtain ⟨model, -, h⟩ := Option.bind_eq_some_iff.mp h
  obtain ⟨revision, -, h⟩ := Option.bind_eq_some_iff.mp h
  obtain ⟨state, -, h⟩ := Option.bind_eq_some_iff.mp h
  obtain ⟨ready, -, h⟩ := Option.bind_eq_some_iff.mp h
  obtain ⟨servable, -, h⟩ := Option.bind_eq_some_iff.mp h
  obtain ⟨progress, hprogress, h⟩ := Option.bind_eq_some_iff.mp h
  obtain ⟨device, -, h⟩ := Option.bind_eq_some_iff.mp h
  obtain ⟨dtype, -, h⟩ := Option.bind_eq_some_iff.mp h
  obtain ⟨loadedAt, hloaded, h⟩ := Option.bind_eq_some_iff.mp h
  obtain ⟨startedLoadingAt, hstarted, h⟩ := Option.bind_eq_some_iff.mp h
  obtain ⟨lastTransitionAt, htransition, h⟩ := Option.bind_eq_some_iff.mp h
  obtain ⟨lastError, herror, h⟩ := Option.bind_eq_some_iff.mp h
  obtain ⟨warmupPassed, -, h⟩ := Option.bind_eq_some_iff.mp h
  obtain ⟨lastWarmupAt, hwarmup, h⟩ := Option.bind_eq_some_iff.mp h
  obtain ⟨latency, hlatency, h⟩ := Option.bind_eq_some_iff.mp h
  cases h
  exact ⟨optionalField_forall modelProgressOf_fits hprogress,
    optionalField_forall (fun _ _ => lt_of_natOf) hloaded,
    optionalField_forall (fun _ _ => lt_of_natOf) hstarted,
    requiredField_forall (fun _ _ => lt_of_natOf) htransition,
    optionalField_forall modelErrorOf_fits herror,
    optionalField_forall (fun _ _ => lt_of_natOf) hwarmup,
    optionalField_forall (fun _ _ => lt_of_natOf) hlatency⟩

theorem workerErrorOf_fits {j : Json F} {e : WorkerError} (h : workerErrorOf j = some e) :
    ∀ error ∈ e.error, error.Fits := by
  obtain ⟨members, -, h⟩ := Option.bind_eq_some_iff.mp h
  obtain ⟨message, -, h⟩ := Option.bind_eq_some_iff.mp h
  obtain ⟨error, herror, h⟩ := Option.bind_eq_some_iff.mp h
  cases h
  exact optionalField_forall modelErrorOf_fits herror

theorem structOf_children {lang : Language} {names : List String} {least : ℕ} {j : Json F}
    {members : List (String × Json F)} (h : structOf lang names least j = some members)
    {name : String} {x : Json F} (hx : (name, x) ∈ members) : x ∈ j.children := by
  rw [structOf.eq_def] at h
  split at h
  case h_1 members' =>
    obtain ⟨-, heq⟩ := Option.ite_none_right_eq_some.mp h
    cases heq
    exact List.mem_map.mpr ⟨_, hx, rfl⟩
  case h_2 items =>
    obtain ⟨-, heq⟩ := Option.ite_none_right_eq_some.mp h
    cases heq
    exact (List.of_mem_zip hx).2
  case h_3 => cases h

theorem get?_mem {members : List (String × Json F)} {name : String} {x : Json F}
    (h : Json.get? members name = some x) : (name, x) ∈ members :=
  List.mem_reverse.mp (Json.mem_of_lookup h)

/-- The message of an error is written in its record. -/
theorem workerErrorOf_message {j : Json F} {e : WorkerError} (h : workerErrorOf j = some e) :
    .str e.message ∈ j.children := by
  obtain ⟨members, hmembers, h⟩ := Option.bind_eq_some_iff.mp h
  obtain ⟨message, hmessage, h⟩ := Option.bind_eq_some_iff.mp h
  obtain ⟨error, -, h⟩ := Option.bind_eq_some_iff.mp h
  cases h
  obtain ⟨x, hget, hx⟩ := Option.bind_eq_some_iff.mp hmessage
  have hchild := structOf_children hmembers (get?_mem hget)
  cases x with
  | str s =>
    cases hx
    exact hchild
  | _ => cases hx

/-! ## Messages -/

/-- A text with newlines that became spaces, or did not. -/
def Blanked (sent received : List Char) : Prop :=
  List.Forall₂ (fun c c' => c' = c ∨ c = '\n' ∧ c' = ' ') sent received

theorem blanked_refl (text : List Char) : Blanked text text :=
  List.forall₂_same.mpr fun _ _ => .inl rfl

theorem toList_withoutNewlines (message : String) : (withoutNewlines message).toList =
    message.toList.map fun c => if c = '\n' then ' ' else c := by
  rw [withoutNewlines, String.toList_map]

theorem blanked_withoutNewlines (message : String) :
    Blanked message.toList (withoutNewlines message).toList := by
  rw [toList_withoutNewlines, Blanked, List.forall₂_map_right_iff]
  refine List.forall₂_same.mpr fun c _ => ?_
  split
  case isTrue h => exact .inr ⟨h, rfl⟩
  case isFalse => exact .inl rfl

/-- Without newlines there is one such text. -/
theorem Blanked.eq_withoutNewlines {message : String} {received : List Char}
    (h : Blanked message.toList received) (hnewline : '\n' ∉ received) :
    received = (withoutNewlines message).toList := by
  rw [toList_withoutNewlines]
  generalize message.toList = sent at h
  induction h with
  | nil => rfl
  | @cons c c' cs cs' hc _ ih =>
    rw [List.mem_cons, not_or] at hnewline
    rw [List.map_cons, ih hnewline.2]
    rcases hc with rfl | ⟨rfl, rfl⟩
    · rw [if_neg (Ne.symm hnewline.1)]
    · rfl

/-- The message that was sent, up to newlines in the text of an error. -/
def Arrives : WorkerMessage → WorkerMessage → Prop
  | .ready, .ready => True
  | .status sent, .status received => received = sent
  | .error sent, .error received =>
      received.error = sent.error ∧ Blanked sent.message.toList received.message.toList
  | _, _ => False

/-- The writer of a language. -/
def encodeBootstrap : Language → WorkerMessage → List Char
  | .python, message => encodeBootstrapMessage message
  | .rust, message => encodeWorkerMessage message

/-- What a writer puts behind a line. -/
def lineEnd : Language → List Char
  | .python => ['\n']
  | .rust => []

theorem lineEnd_cases (lang : Language) : lineEnd lang = [] ∨ lineEnd lang = ['\n'] := by
  cases lang
  · exact .inr rfl
  · exact .inl rfl

/-- The text of a structured error; Rust keeps the newlines. -/
def structuredText : Language → String → String
  | .python, message => withoutNewlines message
  | .rust, message => message

theorem blanked_structuredText (lang : Language) (message : String) :
    Blanked message.toList (structuredText lang message).toList := by
  cases lang
  · exact blanked_withoutNewlines message
  · exact blanked_refl _

theorem status_tab : "STATUS\t".toList = "STATUS".toList ++ ['\t'] := by decide

theorem error_tab : "ERROR\t".toList = "ERROR".toList ++ ['\t'] := by decide

theorem line_eq {kind tabbed : List Char} (h : tabbed = kind ++ ['\t']) (body : List Char) :
    tabbed ++ body = kind ++ '\t' :: body := by
  rw [h, List.append_assoc, List.singleton_append]

theorem encode_status (lang : Language) (s : ModelStatus) : encodeBootstrap lang (.status s) =
    "STATUS".toList ++ '\t' :: (recordText lang s.members ++ lineEnd lang) := by
  cases lang with
  | python =>
    have hline := line_eq status_tab (dumps s.members ++ ['\n'])
    rw [← List.append_assoc] at hline
    exact hline
  | rust =>
    rw [lineEnd, List.append_nil]
    exact line_eq status_tab (serdeText s.members)

theorem encode_text (lang : Language) (message : String) :
    encodeBootstrap lang (.error ⟨message, none⟩) =
      "ERROR".toList ++ '\t' :: ((withoutNewlines message).toList ++ lineEnd lang) := by
  cases lang with
  | python =>
    have hline := line_eq error_tab ((withoutNewlines message).toList ++ ['\n'])
    rw [← List.append_assoc] at hline
    exact hline
  | rust =>
    rw [lineEnd, List.append_nil]
    exact line_eq error_tab (withoutNewlines message).toList

theorem encode_structured (lang : Language) (message : String) (error : ModelError) :
    encodeBootstrap lang (.error ⟨message, some error⟩) =
      "ERROR".toList ++ '\t' ::
        (recordText lang (structuredMembers (structuredText lang message) error) ++
          lineEnd lang) := by
  cases lang with
  | python =>
    have hline := line_eq error_tab (dumps (structuredMembers (withoutNewlines message) error) ++ ['\n'])
    rw [← List.append_assoc] at hline
    exact hline
  | rust =>
    rw [lineEnd, List.append_nil]
    exact line_eq error_tab (serdeText (structuredMembers message error))

section Survival

variable (serde : SerdeValue F) {format : Json.FloatFormat F} (py : PythonStr format)

/-- The reader gets the message from the line of the writer. -/
def Survives (writer reader : Language) (message : WorkerMessage) : Prop :=
  ∃ received, decodeBootstrap serde py reader (encodeBootstrap writer message) =
    some (some received) ∧ Arrives message received

/-- The text is not the record of an error, for a reader. -/
def Unread (format : Json.FloatFormat F) : Language → List Char → Prop
  | .python, text => ∀ members, Json.parse format text = some (.obj members) →
      Json.get? members "message" = none ∧
        (Json.get? members "error" = none ∨ Json.get? members "error" = some .null)
  | .rust, text => serde.bootstrapJson.workerError text = none

/-- The messages that survive. -/
def Clear (format : Json.FloatFormat F) (reader : Language) : WorkerMessage → Prop
  | .ready => True
  | .status s => reader = .rust → s.Fits
  | .error ⟨message, none⟩ =>
      let text := (withoutNewlines message).toList
      text ≠ [] ∧ text.rdropWhile (blank reader) = text ∧ Unread serde format reader text
  | .error ⟨_, some error⟩ => reader = .rust → error.Fits

theorem readStatus_iff (writer reader : Language) (s : ModelStatus) :
    readStatusPayload serde format reader (recordText writer s.members) = some (some s) ↔
      (reader = .rust → s.Fits) := by
  cases reader with
  | python =>
    have hread := (modelStatusOf_members (F := F) .python s s).mpr ⟨by simp, rfl⟩
    rw [readStatusPayload, (carried_status s).parse, Option.bind_some, hread]
    simp
  | rust =>
    rw [readStatusPayload, SerdeValue.bootstrapJson, Option.some.injEq]
    constructor
    · intro h _
      obtain ⟨j, -, hj⟩ := Option.bind_eq_some_iff.mp h
      exact modelStatusOf_fits j s hj
    · intro hfits
      dsimp only
      rw [(carried_status s).fromStr (shallow_status (hfits rfl)), Option.bind_some]
      exact (modelStatusOf_members .rust s s).mpr ⟨hfits, rfl⟩

theorem survives_status (writer reader : Language) (s : ModelStatus) :
    Survives serde py writer reader (.status s) ↔ (reader = .rust → s.Fits) := by
  have hread : readStatusPayload serde format reader (recordText writer s.members) =
      some (some s) ↔ (reader = .rust → s.Fits) := readStatus_iff serde writer reader s
  rw [← hread, Survives, encode_status,
    decode_status serde py reader _ (lineEnd_cases writer) (rdropWhile_recordText _ _ _)
      (recordText_ne_nil _ _)]
  constructor
  · rintro ⟨received, hread, harrives⟩
    obtain ⟨s', hs', hreceived⟩ := Option.map_eq_some_iff.mp hread
    obtain ⟨s', rfl, rfl⟩ := Option.map_eq_some_iff.mp hreceived
    rw [Arrives] at harrives
    rw [hs', harrives]
  · intro hread
    rw [hread]
    exact ⟨.status s, rfl, rfl⟩

theorem nodup_structured (message : String) (error : ModelError) :
    ((structuredMembers (F := F) message error).map Prod.fst).Nodup := by
  simp [structuredMembers]

theorem get?_message (message : String) (error : ModelError) :
    Json.get? (structuredMembers (F := F) message error) "message" = some (.str message) :=
  Json.get?_eq_some (nodup_structured message error) (by simp [structuredMembers])

theorem get?_error (message : String) (error : ModelError) :
    Json.get? (structuredMembers (F := F) message error) "error" = some (.obj error.members) :=
  Json.get?_eq_some (nodup_structured message error) (by simp [structuredMembers])

/-- Rust reads the record of a structured error. -/
theorem workerErrorOf_structured (message : String) {error : ModelError} (h : error.Fits) :
    workerErrorOf (.obj (structuredMembers message error) : Json F) =
      some ⟨message, some error⟩ := by
  have hread := (modelErrorOf_members (F := F) .rust error error).mpr ⟨fun _ => h, rfl⟩
  have hmessage : requiredField strOf (structuredMembers (F := F) message error) "message" =
      some message := by
    rw [requiredField, get?_message, Option.bind_some, strOf]
  have herror : optionalField (modelErrorOf .rust) (structuredMembers (F := F) message error)
      "error" = some (some error) := by
    rw [optionalField, get?_error]
    dsimp only
    rw [hread, Option.map_some]
  rw [workerErrorOf, structOf_obj (nodup_structured message error), Option.bind_eq_bind,
    Option.bind_some, hmessage, Option.bind_eq_bind, Option.bind_some, herror,
    Option.bind_eq_bind, Option.bind_some]

/-- Python reads the record of a structured error. -/
theorem errorOfPayload_structured (writer : Language) (message : String) (error : ModelError) :
    errorOfPayload format py (recordText writer (structuredMembers message error)) =
      some ⟨message, some error⟩ := by
  have hread := (modelErrorOf_members (F := F) .python error error).mpr ⟨by simp, rfl⟩
  rw [errorOfPayload, (carried_structured message error).parse]
  dsimp only
  rw [get?_message, get?_error, modelErrorFromDict, hread]
  · simp [py.str_str]
  · simp

/-- What Rust reads of an error fits its types. -/
theorem readErrorPayload_fits {payload : List Char} {e : WorkerError}
    (h : readErrorPayload serde py .rust payload = some e) : ∀ error ∈ e.error, error.Fits := by
  rw [readErrorPayload, Option.some.injEq, SerdeValue.bootstrapJson] at h
  dsimp only at h
  intro error herror
  cases hread : (serde.fromStr payload).bind workerErrorOf with
  | none =>
    rw [hread, Option.getD_none] at h
    rw [← h] at herror
    cases herror
  | some e' =>
    rw [hread, Option.getD_some] at h
    obtain ⟨j, -, hj⟩ := Option.bind_eq_some_iff.mp hread
    exact workerErrorOf_fits hj error (h ▸ herror)

theorem survives_structured (writer reader : Language) (message : String) (error : ModelError) :
    Survives serde py writer reader (.error ⟨message, some error⟩) ↔
      (reader = .rust → error.Fits) := by
  have hdecode := decode_error serde py reader
    (recordText writer (structuredMembers (structuredText writer message) error))
    (lineEnd_cases writer)
  rw [rdropWhile_recordText, if_neg (recordText_ne_nil _ _)] at hdecode
  rw [Survives, encode_structured, hdecode]
  constructor
  · rintro ⟨received, hread, harrives⟩ rfl
    obtain ⟨e, he, hreceived⟩ := Option.map_eq_some_iff.mp hread
    cases hreceived
    exact readErrorPayload_fits serde py he error harrives.1
  · intro hfits
    refine ⟨.error ⟨structuredText writer message, some error⟩, ?_, rfl,
      blanked_structuredText writer message⟩
    cases reader with
    | python => rw [readErrorPayload, errorOfPayload_structured, Option.map_some]
    | rust =>
      rw [readErrorPayload, SerdeValue.bootstrapJson]
      dsimp only
      rw [(carried_structured _ error).fromStr (shallow_structured _ (hfits rfl)),
        Option.bind_some, workerErrorOf_structured _ (hfits rfl), Option.getD_some,
        Option.map_some]

/-- A text that is not taken for a record is read as it is. -/
theorem readErrorPayload_unread {reader : Language} {text : List Char}
    (h : Unread serde format reader text) :
    readErrorPayload serde py reader text = some ⟨String.ofList text, none⟩ := by
  cases reader with
  | rust =>
    rw [Unread] at h
    rw [readErrorPayload, h, Option.getD_none]
  | python =>
    rw [Unread] at h
    rw [readErrorPayload, errorOfPayload]
    split
    case h_2 => rfl
    case h_1 members hparse =>
      obtain ⟨hmessage, herror⟩ := h members hparse
      have hnone : modelErrorFromDict (Json.get? members "error") = some none := by
        rcases herror with heq | heq <;> rw [heq] <;> rfl
      rw [hnone, hmessage]
      rfl

/-- Rust makes a text without an error of a payload that is no record, or shortens it. -/
theorem unread_rust {payload : List Char} {e : WorkerError}
    (h : readErrorPayload serde py .rust payload = some e)
    (hlength : payload.length ≤ e.message.length) :
    Unread serde format .rust payload ∧ e.message.toList = payload := by
  rw [readErrorPayload, Option.some.injEq] at h
  rw [Unread]
  cases hread : serde.bootstrapJson.workerError payload with
  | none =>
    rw [hread, Option.getD_none] at h
    rw [← h, String.toList_ofList]
    exact ⟨rfl, rfl⟩
  | some e' =>
    rw [hread, Option.getD_some] at h
    obtain ⟨j, hj, he⟩ := Option.bind_eq_some_iff.mp hread
    have hlt := serde.fromStr_length payload j e'.message hj (workerErrorOf_message he)
    rw [h] at hlt
    exact absurd hlength (Nat.not_le.mpr hlt)

/-- Python too, unless the message in the record is not a string: then it prints it. -/
theorem unread_python {payload : List Char} {message : String}
    (h : readErrorPayload serde py .python payload = some ⟨message, none⟩)
    (hlength : payload.length ≤ message.length) :
    Unread serde format .python payload ∧ message.toList = payload ∨
      ∃ j members, (∀ s, j ≠ .str s) ∧ message = py.str j ∧
        Json.parse format payload = some (.obj members) ∧
        Json.get? members "message" = some j := by
  rw [readErrorPayload, errorOfPayload] at h
  split at h
  case h_2 hne =>
    cases h
    refine .inl ⟨?_, String.toList_ofList⟩
    intro members hparse
    exact absurd hparse (hne members)
  case h_1 members hparse =>
    obtain ⟨error, herror, h⟩ := Option.bind_eq_some_iff.mp h
    cases h
    cases hget : Json.get? members "message" with
    | none =>
      refine .inl ⟨?_, String.toList_ofList⟩
      intro members' hparse'
      rw [hparse] at hparse'
      cases hparse'
      refine ⟨hget, ?_⟩
      rw [modelErrorFromDict.eq_def] at herror
      split at herror
      case h_1 heq => exact .inl heq
      case h_2 heq => exact .inr heq
      case h_3 j =>
        obtain ⟨e, -, he⟩ := Option.map_eq_some_iff.mp herror
        cases he
    | some j =>
      rw [hget, Option.map_some, Option.getD_some] at hlength
      refine .inr ⟨j, members, ?_, by rw [Option.map_some, Option.getD_some], hparse, hget⟩
      rintro s rfl
      rw [py.str_str] at hlength
      exact absurd hlength (Nat.not_le.mpr (Json.parse_str_length hparse (get?_mem hget)))

theorem survives_text (writer reader : Language) (message : String) :
    Survives serde py writer reader (.error ⟨message, none⟩) ↔
      Clear serde format reader (.error ⟨message, none⟩) := by
  have hdecode := decode_error serde py reader (withoutNewlines message).toList
    (lineEnd_cases writer)
  have hsent := blanked_withoutNewlines message
  rw [Survives, encode_text, hdecode, Clear]
  generalize htext : (withoutNewlines message).toList = text at hsent ⊢
  constructor
  · rintro ⟨received, hread, harrives⟩
    by_cases hblank : text.rdropWhile (blank reader) = []
    · rw [if_pos hblank] at hread
      cases hread
    rw [if_neg hblank] at hread
    obtain ⟨⟨arrived, error⟩, he, hreceived⟩ := Option.map_eq_some_iff.mp hread
    cases hreceived
    obtain ⟨rfl, hblanked⟩ := harrives
    have hinitial := List.rdropWhile_prefix (blank reader) text
    have hsame : text.length = arrived.toList.length := by
      rw [← hsent.length_eq, hblanked.length_eq]
    have hlength : (text.rdropWhile (blank reader)).length ≤ arrived.length := by
      rw [← String.length_toList, ← hsame]
      exact hinitial.length_le
    -- Nothing was taken from the end, since the text that arrived is as long as the one sent.
    have hwhole : Unread serde format reader (text.rdropWhile (blank reader)) ∧
        arrived.toList = text.rdropWhile (blank reader) →
        text ≠ [] ∧ text.rdropWhile (blank reader) = text ∧ Unread serde format reader text := by
      rintro ⟨hunread, hpayload⟩
      rw [hpayload] at hsame
      have heq := hinitial.eq_of_length hsame.symm
      rw [heq] at hunread hblank
      exact ⟨hblank, heq, hunread⟩
    cases reader with
    | rust => exact hwhole (unread_rust serde py he hlength)
    | python =>
      rcases unread_python serde py he hlength with h | ⟨j, members, hj, rfl, hparse, hget⟩
      · exact hwhole h
      · obtain ⟨hnewline, hend⟩ := py.str_line j hj
        have htext' := hblanked.eq_withoutNewlines hnewline
        rw [htext] at htext'
        rw [blank, ← htext', hend] at hparse
        rw [py.str_member j members hj hparse] at hget
        cases hget
  · rintro ⟨hne, hdrop, hunread⟩
    refine ⟨.error ⟨String.ofList text, none⟩, ?_, rfl, ?_⟩
    · rw [hdrop, if_neg hne, readErrorPayload_unread serde py hunread, Option.map_some]
    · rw [String.toList_ofList]
      exact hsent

end Survival

/-- The reader of `json`, as a reader for Rust. -/
def plainReader : SerdeValue Empty where
  fromStr := Json.parse .integers
  fromStr_write style j _ _ := by
    have hprint : Json.Prints Json.FloatFormat.integers Empty.elim
        (Empty.elim : Empty → Json Empty) := ⟨fun x => x.elim, fun x => x.elim⟩
    have hparse := Json.parse_write style hprint j (show [].all Json.isSpace from rfl)
    rwa [List.append_nil] at hparse
  fromStr_length _ _ _ h hs := Json.parse_child_length h hs

/-- A printer of strings and of `None`. -/
def plainStr : PythonStr Json.FloatFormat.integers where
  str
    | .str s => s
    | _ => "None"
  str_str _ := rfl
  str_line j h := by
    have hnone : '\n' ∉ "None".toList ∧
        "None".toList.rdropWhile isPythonSpace = "None".toList := by decide
    cases j with
    | str s => exact absurd rfl (h s)
    | _ => exact hnone
  str_member j members h hparse := by
    have hnone : Json.parse .integers "None".toList = none := rfl
    cases j with
    | str s => exact absurd rfl (h s)
    | _ => exact absurd (hnone.symm.trans hparse) (by simp)

end MlxRuntime
