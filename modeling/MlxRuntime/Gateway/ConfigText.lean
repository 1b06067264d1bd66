import MlxRuntime.Gateway.Config

/-!
# The text of a configuration

The configuration that `render_runtime_config` writes is read back key by key.  A float that is
printed without a point is read as an integer, and the keys of floats take no integers: the
default stays.

## Main definitions

* `GenerationConfig.applied` — what is read of the floats.
* `Field.TakesEffect` — a line does what it says.
* `config_survives_text` — which configurations come back, and which lines take effect.
-/

namespace MlxRuntime

variable {R : Type} {floats : FloatText R}

/-! ## The sections of a configuration -/

theorem nodup_fields : ((fields (R := R)).map fun field => (field.table, field.key)).Nodup := by
  show ([("server", "host"), ("server", "port"), ("worker", "python"), ("worker", "module"),
    ("worker", "backend"), ("worker", "model"), ("worker", "vlm_model"), ("worker", "ipc_path"),
    ("generation", "temperature"), ("generation", "top_p"), ("generation", "max_tokens"),
    ("limits", "max_pending_requests"), ("limits", "max_active_requests"),
    ("limits", "max_prompt_tokens"), ("limits", "max_completion_tokens"),
    ("limits", "max_total_tokens_per_request"), ("limits", "request_timeout_seconds"),
    ("limits", "max_vlm_images"), ("telemetry", "enable_prometheus"),
    ("telemetry", "metrics_path")] : List (String × String)).Nodup
  decide

/-- No key comes twice. -/
theorem field?_of_mem {field : Field R} (h : field ∈ fields) :
    RuntimeConfig.field? field.table field.key = some field := by
  have hnodup := nodup_fields (R := R)
  rw [RuntimeConfig.field?]
  generalize (fields : List (Field R)) = all at h hnodup
  induction all with
  | nil => cases h
  | cons f fs ih =>
      rw [List.map_cons, List.nodup_cons] at hnodup
      rcases List.mem_cons.mp h with rfl | h
      · rw [List.find?_cons_of_pos (by simp)]
      · have hne : ¬ (f.table = field.table ∧ f.key = field.key) := by
          rintro ⟨htable, hkey⟩
          exact hnodup.1 (List.mem_map.mpr ⟨field, h, by rw [htable, hkey]⟩)
        rw [List.find?_cons_of_neg (by simpa using hne)]
        exact ih h hnodup.2

theorem plainKey_of_mem {field : Field R} (h : field ∈ fields) : PlainKey field.key := by
  have hall : ∀ key ∈ (fields (R := R)).map Field.key, PlainKey key := by
    show ∀ key ∈ (["host", "port", "python", "module", "backend", "model", "vlm_model", "ipc_path",
      "temperature", "top_p", "max_tokens", "max_pending_requests", "max_active_requests",
      "max_prompt_tokens", "max_completion_tokens", "max_total_tokens_per_request",
      "request_timeout_seconds", "max_vlm_images", "enable_prometheus",
      "metrics_path"] : List String), PlainKey key
    decide
  exact hall field.key (List.mem_map_of_mem h)

theorem readsLine_field {field : Field R} (hfield : field ∈ fields)
    {text : List Char} {value : ConfigValue R} {config config' : RuntimeConfig R}
    (htext : ValueText text) (hparse : parseValue floats text = .ok value)
    (hset : field.set.apply config value = .ok config') :
    ReadsLine floats (field.table, config) (entry field.key text) (field.table, config') := by
  have hkey := plainKey_of_mem hfield
  refine ⟨?_, lineText_entry hkey htext⟩
  rw [applyLine_entry hkey htext, hparse]
  show (RuntimeConfig.applyEntry field.table field.key value config >>= _) = _
  rw [RuntimeConfig.applyEntry, field?_of_mem hfield]
  dsimp only
  rw [hset]
  rfl

theorem integerField_apply {table key : String} {bound : ℕ} {get : RuntimeConfig R → ℕ}
    {set : ℕ → RuntimeConfig R → RuntimeConfig R} (config : RuntimeConfig R) {n : ℕ}
    (h : n < bound) : (integerField table key bound get set).set.apply config (.integer n) =
      .ok (set n config) := by
  have hrange : (0 : ℤ) ≤ n ∧ (n : ℤ) < bound := by omega
  simp only [integerField, Setter.apply, if_pos hrange, Int.toNat_natCast]

theorem readsLine_section {name : String} (hname : PlainKey name)
    (state : String × RuntimeConfig R) :
    ReadsLine floats state ('[' :: (name.toList ++ [']'])) (name, state.2) := by
  have hcomment : stripComment false false ('[' :: (name.toList ++ [']'])) =
      '[' :: (name.toList ++ [']']) := by
    have hall : ∀ c ∈ '[' :: (name.toList ++ [']']), c ≠ '"' ∧ c ≠ '#' := by
      intro c hc
      rcases List.mem_cons.mp hc with rfl | hc
      · decide
      rcases List.mem_append.mp hc with hc | hc
      · exact ⟨(isPlain_spec (hname.2 c hc)).1, (isPlain_spec (hname.2 c hc)).2.1⟩
      · obtain rfl := List.mem_singleton.mp hc
        decide
    have hplain := stripComment_plain hall []
    rwa [List.append_nil, stripComment, List.append_nil] at hplain
  have htrim : trim ('[' :: (name.toList ++ [']'])) = '[' :: (name.toList ++ [']']) :=
    trim_eq ⟨'[', _, rfl, rfl⟩ ⟨'[' :: name.toList, ']', rfl, rfl⟩
  have hsection : parseSection ('[' :: (name.toList ++ [']'])) = some name.toList := by
    simp [parseSection, stripPrefix, stripSuffix, hname.valueText.trim]
  refine ⟨?_, ?_, ?_⟩
  · rw [RuntimeConfig.applyLine, hcomment, htrim, if_neg (List.cons_ne_nil _ _), hsection]
    exact congrArg (fun name => Except.ok (name, state.2)) String.ofList_toList
  · simp [hname.valueText.line]
  · rw [← List.cons_append, List.getLast?_concat]
    decide

theorem readsLine_nil (state : String × RuntimeConfig R) :
    ReadsLine floats state [] state := ⟨rfl, List.not_mem_nil, nofun⟩

theorem readsLine_string {field : Field R} (hfield : field ∈ fields) {value : String}
    {text : List Char} {config config' : RuntimeConfig R} (htext : tomlString value = .ok text)
    (hset : field.set.apply config (.string value) = .ok config') :
    ReadsLine floats (field.table, config) (entry field.key text) (field.table, config') :=
  readsLine_field hfield (valueText_string htext) (parseValue_string htext) hset

theorem readsLine_integer {table key : String} {bound : ℕ} {get : RuntimeConfig R → ℕ}
    {set : ℕ → RuntimeConfig R → RuntimeConfig R}
    (hfield : integerField table key bound get set ∈ fields) (config : RuntimeConfig R) {n : ℕ}
    (hn : n < 2 ^ 63) (hbound : n < bound) :
    ReadsLine floats (table, config) (entry key (decimal n)) (table, set n config) :=
  readsLine_field hfield (valueText_decimal n) (parseValue_decimal hn)
    (integerField_apply config hbound)

theorem readsLine_limit {key : String} {get : RequestLimits → UInt64}
    {set : UInt64 → RequestLimits → RequestLimits} (hfield : limitField (R := R) key get set ∈ fields)
    (config : RuntimeConfig R) {n : UInt64} (hn : n.toNat < 2 ^ 63) :
    ReadsLine floats ("limits", config) (entry key (decimal n.toNat))
      ("limits", { config with limits := set n config.limits }) := by
  have hline : ReadsLine floats _ _ _ := readsLine_integer hfield config hn n.toNat_lt
  rwa [UInt64.ofNat_toNat] at hline

theorem readsLines_server {config : RuntimeConfig R} {server : ServerConfig} {host : List Char}
    (hhost : tomlString server.host = .ok host) :
    ReadsLines floats ("", config) [
      "[server]".toList,
      entry "host" host,
      entry "port" (decimal server.port.toNat),
      []] ("server", { config with server := server }) := by
  have hport : server.port.toNat < 2 ^ 16 := server.port.toNat_lt
  refine .cons (readsLine_section (by decide : PlainKey "server") _) ?_
  refine .cons (readsLine_string (by simp [fields] : hostField ∈ fields) hhost rfl) ?_
  refine .cons (readsLine_integer (by simp [fields] : portField ∈ fields) _ (by omega) hport) ?_
  refine .cons (readsLine_nil _) ?_
  rw [UInt16.ofNat_toNat]
  exact .nil _

theorem readsLines_worker {table : String} {config : RuntimeConfig R} {worker : WorkerConfig}
    (hconfig : config.worker.vlmModel = none) {python module backend model ipcPath : List Char}
    {vlmModel : Option (List Char)} (hpython : tomlString worker.python = .ok python)
    (hmodule : tomlString worker.module = .ok module)
    (hbackend : tomlString worker.backend.asStr = .ok backend)
    (hmodel : tomlString worker.model = .ok model)
    (hvlm : worker.vlmModel.mapM tomlString = .ok vlmModel)
    (hipc : tomlString worker.ipcPath = .ok ipcPath) :
    ReadsLines floats (table, config) ([
      "[worker]".toList,
      entry "python" python,
      entry "module" module,
      entry "backend" backend,
      entry "model" model] ++
      vlmModel.toList.map (entry "vlm_model") ++ [
      entry "ipc_path" ipcPath,
      []]) ("worker", { config with worker := worker }) := by
  have hhead : ReadsLines floats (table, config) [
      "[worker]".toList,
      entry "python" python,
      entry "module" module,
      entry "backend" backend,
      entry "model" model] ("worker", { config with
        worker := { worker with
          vlmModel := config.worker.vlmModel
          ipcPath := config.worker.ipcPath } }) := by
    refine .cons (readsLine_section (by decide : PlainKey "worker") _) ?_
    refine .cons (readsLine_string (by simp [fields] : pythonField ∈ fields) hpython rfl) ?_
    refine .cons (readsLine_string (by simp [fields] : moduleField ∈ fields) hmodule rfl) ?_
    have hset : ∀ c : RuntimeConfig R, backendField.set.apply c (.string worker.backend.asStr) =
        .ok { c with worker := { c.worker with backend := worker.backend } } := by
      intro c
      cases worker.backend <;> rfl
    refine .cons (readsLine_string (by simp [fields] : backendField ∈ fields) hbackend (hset _)) ?_
    refine .cons (readsLine_string (by simp [fields] : modelField ∈ fields) hmodel rfl) ?_
    exact .nil _
  rw [hconfig] at hhead
  have hlast : ReadsLines floats ("worker", { config with
        worker := { worker with ipcPath := config.worker.ipcPath } }) [
      entry "ipc_path" ipcPath,
      []] ("worker", { config with worker := worker }) := by
    refine .cons (readsLine_string (by simp [fields] : ipcPathField ∈ fields) hipc rfl) ?_
    exact .cons (readsLine_nil _) (.nil _)
  refine .append (.append hhead ?_) hlast
  cases hmodelId : worker.vlmModel with
  | none =>
      rw [hmodelId] at hvlm
      obtain rfl := Except.ok.inj hvlm
      rw [← hmodelId]
      exact .nil _
  | some vlm =>
      rw [hmodelId] at hvlm
      cases htext : tomlString vlm with
      | error e =>
          rw [Option.mapM_some, htext] at hvlm
          cases hvlm
      | ok text =>
          rw [Option.mapM_some, htext] at hvlm
          obtain rfl := Except.ok.inj hvlm
          rw [← hmodelId]
          refine .cons (readsLine_string (by simp [fields] : vlmModelField ∈ fields) htext rfl) ?_
          show ReadsLines floats ("worker", { config with worker := { worker with
            vlmModel := some vlm
            ipcPath := config.worker.ipcPath } }) [] _
          rw [← hmodelId]
          exact .nil _

theorem readsLines_limits {table : String} {config : RuntimeConfig R} {limits : RequestLimits}
    (h : ∀ limit ∈ [limits.maxPendingRequests, limits.maxActiveRequests, limits.maxPromptTokens,
      limits.maxCompletionTokens, limits.maxTotalTokensPerRequest, limits.requestTimeoutSeconds,
      limits.maxVlmImages], limit.toNat < 2 ^ 63) :
    ReadsLines floats (table, config) [
      "[limits]".toList,
      entry "max_pending_requests" (decimal limits.maxPendingRequests.toNat),
      entry "max_active_requests" (decimal limits.maxActiveRequests.toNat),
      entry "max_prompt_tokens" (decimal limits.maxPromptTokens.toNat),
      entry "max_completion_tokens" (decimal limits.maxCompletionTokens.toNat),
      entry "max_total_tokens_per_request" (decimal limits.maxTotalTokensPerRequest.toNat),
      entry "request_timeout_seconds" (decimal limits.requestTimeoutSeconds.toNat),
      entry "max_vlm_images" (decimal limits.maxVlmImages.toNat),
      []] ("limits", { config with limits := limits }) := by
  simp only [List.forall_mem_cons] at h
  obtain ⟨hpending, hactive, hprompt, hcompletion, htotal, htimeout, himages, -⟩ := h
  refine .cons (readsLine_section (by decide : PlainKey "limits") _) ?_
  refine .cons (readsLine_limit (by simp [fields] : maxPendingRequestsField ∈ fields) _ hpending) ?_
  refine .cons (readsLine_limit (by simp [fields] : maxActiveRequestsField ∈ fields) _ hactive) ?_
  refine .cons (readsLine_limit (by simp [fields] : maxPromptTokensField ∈ fields) _ hprompt) ?_
  refine .cons (readsLine_limit (by simp [fields] : maxCompletionTokensField ∈ fields) _
    hcompletion) ?_
  refine .cons (readsLine_limit (by simp [fields] : maxTotalTokensPerRequestField ∈ fields) _
    htotal) ?_
  refine .cons (readsLine_limit (by simp [fields] : requestTimeoutSecondsField ∈ fields) _
    htimeout) ?_
  refine .cons (readsLine_limit (by simp [fields] : maxVlmImagesField ∈ fields) _ himages) ?_
  exact .cons (readsLine_nil _) (.nil _)

/-- A float without a point in its text is passed over. -/
theorem readsLine_display {field : Field R} (hfield : field ∈ fields)
    {set : R → RuntimeConfig R → RuntimeConfig R} (hset : field.set = .float set)
    (config : RuntimeConfig R) {x : R} (hx : floats.Finite x) :
    ReadsLine floats (field.table, config) (entry field.key (floats.display x))
      (field.table, if parseI64 (floats.display x) = none then set x config else config) := by
  refine readsLine_field hfield (valueText_display hx) (parseValue_display hx) ?_
  rw [hset]
  cases parseI64 (floats.display x) <;> rfl

/-- What `apply_contents` leaves of the floats of a configuration. -/
def GenerationConfig.applied (floats : FloatText R) (generation start : GenerationConfig R) :
    GenerationConfig R where
  temperature := if parseI64 (floats.display generation.temperature) = none then
    generation.temperature else start.temperature
  topP := if parseI64 (floats.display generation.topP) = none then generation.topP else start.topP
  maxTokens := generation.maxTokens

theorem readsLines_generation {table : String} {config : RuntimeConfig R}
    {generation : GenerationConfig R} (htemperature : floats.Finite generation.temperature)
    (htopP : floats.Finite generation.topP) :
    ReadsLines floats (table, config) [
      "[generation]".toList,
      entry "temperature" (floats.display generation.temperature),
      entry "top_p" (floats.display generation.topP),
      entry "max_tokens" (decimal generation.maxTokens.toNat),
      []] ("generation", { config with
        generation := generation.applied floats config.generation }) := by
  have hmax : generation.maxTokens.toNat < 2 ^ 32 := generation.maxTokens.toNat_lt
  refine .cons (readsLine_section (by decide : PlainKey "generation") _) ?_
  refine .cons (readsLine_display (by simp [fields] : temperatureField ∈ fields) rfl _
    htemperature) ?_
  refine .cons (readsLine_display (by simp [fields] : topPField ∈ fields) rfl _ htopP) ?_
  refine .cons (readsLine_integer (by simp [fields] : maxTokensField ∈ fields) _ (by omega)
    hmax) ?_
  refine .cons (readsLine_nil _) ?_
  rw [UInt32.ofNat_toNat]
  cases htext : parseI64 (floats.display generation.temperature) <;>
    cases htext' : parseI64 (floats.display generation.topP) <;>
      simp only [GenerationConfig.applied, htext, htext', if_true, reduceCtorEq, if_false] <;>
      exact .nil _

theorem readsLines_telemetry {table : String} {config : RuntimeConfig R}
    {telemetry : TelemetryConfig} {metricsPath : List Char}
    (hpath : tomlString telemetry.metricsPath = .ok metricsPath) :
    ReadsLines floats (table, config) [
      "[telemetry]".toList,
      entry "enable_prometheus" (boolText telemetry.enablePrometheus),
      entry "metrics_path" metricsPath] ("telemetry", { config with telemetry := telemetry }) := by
  refine .cons (readsLine_section (by decide : PlainKey "telemetry") _) ?_
  refine .cons (readsLine_field (by simp [fields] : enablePrometheusField ∈ fields)
    (valueText_bool _) (parseValue_bool _) rfl) ?_
  refine .cons (readsLine_string (by simp [fields] : metricsPathField ∈ fields) hpath rfl) ?_
  exact .nil _

/-! ## The text of a configuration -/

theorem rustLines_flatMap {lines : List (List Char)} (h : ∀ line ∈ lines, LineText line) :
    RuntimeConfig.rustLines (lines.flatMap (· ++ ['\n'])) = lines := by
  have hlines : ∀ line ∈ lines.map (· ++ ['\n']), Lines.Line '\n' line := by
    intro line hline
    obtain ⟨body, hbody, rfl⟩ := List.mem_map.mp hline
    exact ⟨body, (h body hbody).1, rfl⟩
  have hsplit : Lines.lines '\n' (lines.flatMap (· ++ ['\n'])) = lines.map (· ++ ['\n']) := by
    have happend := Lines.lines_flatten_append hlines []
    rwa [List.append_nil, Lines.lines_nil, List.append_nil, ← List.flatMap_def] at happend
  have htail : Lines.tail '\n' (lines.flatMap (· ++ ['\n'])) = [] := by
    have hspec : _ ++ Lines.tail '\n' (lines.flatMap (· ++ ['\n'])) = _ := (Lines.split_spec _).1
    rw [hsplit, ← List.flatMap_def] at hspec
    exact List.append_cancel_left (hspec.trans (List.append_nil _).symm)
  rw [RuntimeConfig.rustLines, hsplit, htail, if_pos rfl, List.append_nil, List.map_map]
  refine (List.map_congr_left fun line hline => ?_).trans (List.map_id _)
  have hnone : stripSuffix '\r' line = none := if_neg (h line hline).2
  simp only [Function.comp_apply, List.dropLast_concat, hnone, Option.getD_none, id_eq]

/-- The limits are signed integers of 64 bits. -/
def RequestLimits.FitsI64 (limits : RequestLimits) : Prop :=
  ∀ limit ∈ [limits.maxPendingRequests, limits.maxActiveRequests, limits.maxPromptTokens,
    limits.maxCompletionTokens, limits.maxTotalTokensPerRequest, limits.requestTimeoutSeconds,
    limits.maxVlmImages], limit.toNat < 2 ^ 63

/-- **What comes back of a configuration**: all of it but the floats that are passed over. -/
theorem applyContents_render {c : RuntimeConfig R} {text : List Char}
    (hrender : c.render floats = .ok text) (htemperature : floats.Finite c.generation.temperature)
    (htopP : floats.Finite c.generation.topP) (hlimits : c.limits.FitsI64) :
    RuntimeConfig.applyContents floats (.default floats) text = .ok { c with
      generation := c.generation.applied floats (RuntimeConfig.default floats).generation } := by
  obtain ⟨lines, hlines, htext⟩ := bind_eq_ok hrender
  obtain rfl := Except.ok.inj htext
  obtain ⟨host, hhost, hlines⟩ := bind_eq_ok hlines
  obtain ⟨python, hpython, hlines⟩ := bind_eq_ok hlines
  obtain ⟨module, hmodule, hlines⟩ := bind_eq_ok hlines
  obtain ⟨backend, hbackend, hlines⟩ := bind_eq_ok hlines
  obtain ⟨model, hmodel, hlines⟩ := bind_eq_ok hlines
  obtain ⟨vlmModel, hvlm, hlines⟩ := bind_eq_ok hlines
  obtain ⟨ipcPath, hipc, hlines⟩ := bind_eq_ok hlines
  obtain ⟨metricsPath, hpath, hlines⟩ := bind_eq_ok hlines
  have hreads : ReadsLines floats ("", RuntimeConfig.default floats) lines ("telemetry", { c with
      generation := c.generation.applied floats (RuntimeConfig.default floats).generation }) := by
    have hserver : ReadsLines floats ("", .default floats) _ ("server", { RuntimeConfig.default floats with
        server := c.server }) := readsLines_server hhost
    have hworker := hserver.append (readsLines_worker rfl hpython hmodule hbackend hmodel hvlm hipc)
    have hgeneration := hworker.append (readsLines_generation htemperature htopP)
    have hall := (hgeneration.append (readsLines_limits hlimits)).append (readsLines_telemetry hpath)
    obtain rfl := Except.ok.inj hlines
    simpa only [List.append_assoc, List.cons_append, List.nil_append] using hall
  rw [RuntimeConfig.applyContents, rustLines_flatMap hreads.lineText, hreads.foldlM]
  rfl

/-! ## Which configurations are written -/

/-- A character that `toml_string` takes. -/
def tomlAllows (c : Char) : Bool := c = '\n' || c = '\r' || c = '\t' || !isControl c

theorem tomlChar_isOk {c : Char} (h : tomlAllows c) : ∃ text, tomlChar c = .ok text := by
  rw [tomlChar]
  repeat
    split
    · exact ⟨_, rfl⟩
  split
  · rename_i hnewline hreturn htab hcontrol
    simp [tomlAllows, hnewline, hreturn, htab, hcontrol] at h
  · exact ⟨_, rfl⟩

theorem tomlString_isOk {value : String} (h : value.toList.all tomlAllows) :
    ∃ text, tomlString value = .ok text := by
  have hchars : ∀ cs : List Char, cs.all tomlAllows → ∃ texts, cs.mapM tomlChar = .ok texts := by
    intro cs hcs
    induction cs with
    | nil => exact ⟨[], rfl⟩
    | cons c cs ih =>
        rw [List.all_cons, Bool.and_eq_true] at hcs
        obtain ⟨text, htext⟩ := tomlChar_isOk hcs.1
        obtain ⟨texts, htexts⟩ := ih hcs.2
        exact ⟨text :: texts, by rw [List.mapM_cons, htext, htexts]; rfl⟩
  obtain ⟨texts, htexts⟩ := hchars value.toList h
  exact ⟨'"' :: (texts.flatten ++ ['"']), by rw [tomlString, htexts]; rfl⟩

/-- A configuration is written when its strings have no other control characters. -/
theorem render_isOk {c : RuntimeConfig R} (h : ∀ s ∈ [c.server.host, c.worker.python,
      c.worker.module, c.worker.model, c.worker.ipcPath, c.telemetry.metricsPath] ++
      c.worker.vlmModel.toList, s.toList.all tomlAllows) :
    ∃ text, c.render floats = .ok text := by
  simp only [List.forall_mem_append, List.forall_mem_cons] at h
  obtain ⟨⟨hhost, hpython, hmodule, hmodel, hipc, hpath, -⟩, hvlm⟩ := h
  obtain ⟨host, hhost⟩ := tomlString_isOk hhost
  obtain ⟨python, hpython⟩ := tomlString_isOk hpython
  obtain ⟨module, hmodule⟩ := tomlString_isOk hmodule
  obtain ⟨model, hmodel⟩ := tomlString_isOk hmodel
  obtain ⟨ipcPath, hipc⟩ := tomlString_isOk hipc
  obtain ⟨metricsPath, hpath⟩ := tomlString_isOk hpath
  obtain ⟨backend, hbackend⟩ : ∃ text, tomlString c.worker.backend.asStr = .ok text := by
    cases c.worker.backend
    · exact tomlString_isOk (by decide)
    · exact tomlString_isOk (by decide)
  obtain ⟨vlmModel, hvlm⟩ : ∃ text, c.worker.vlmModel.mapM tomlString = .ok text := by
    cases hmodelId : c.worker.vlmModel with
    | none => exact ⟨none, rfl⟩
    | some vlm =>
        obtain ⟨text, htext⟩ := tomlString_isOk (hvlm vlm (by rw [hmodelId]; exact List.mem_cons_self))
        exact ⟨some text, by rw [Option.mapM_some, htext]; rfl⟩
  simp only [RuntimeConfig.render, RuntimeConfig.renderLines, hhost, hpython, hmodule, hbackend,
    hmodel, hvlm, hipc, hpath, ok_bind]
  exact ⟨_, rfl⟩

/-- Both floats are printed with a point, or are no signed integers of 64 bits. -/
def GenerationConfig.Pointed (floats : FloatText R) (generation : GenerationConfig R) : Prop :=
  parseI64 (floats.display generation.temperature) = none ∧
    parseI64 (floats.display generation.topP) = none

/-- A configuration comes back just when its floats are read as floats. -/
theorem applyContents_render_iff {c : RuntimeConfig R} {text : List Char}
    (hrender : c.render floats = .ok text) (htemperature : floats.Finite c.generation.temperature)
    (htopP : floats.Finite c.generation.topP) (hlimits : c.limits.FitsI64) :
    RuntimeConfig.applyContents floats (.default floats) text = .ok c ↔
      c.generation.Pointed floats := by
  rw [applyContents_render hrender htemperature htopP hlimits]
  constructor
  · intro h
    have hgeneration := congrArg RuntimeConfig.generation (Except.ok.inj h)
    constructor
    · have heq : ite _ _ _ = _ := congrArg GenerationConfig.temperature hgeneration
      by_contra hint
      rw [if_neg hint] at heq
      rw [← heq] at hint
      exact hint (floats.display_seven ▸ rfl)
    · have heq : ite _ _ _ = _ := congrArg GenerationConfig.topP hgeneration
      by_contra hint
      rw [if_neg hint] at heq
      rw [← heq] at hint
      exact hint (floats.display_nine ▸ rfl)
  · rintro ⟨htext, htext'⟩
    rw [GenerationConfig.applied, if_pos htext, if_pos htext']

/-! ## Lines that are passed over -/

/-- The value of a line is a number. -/
def IsNumber (floats : FloatText R) (raw : List Char) : Prop :=
  (∃ n, parseValue floats raw = .ok (.integer n)) ∨ ∃ x, parseValue floats raw = .ok (.float x)

namespace Field

/-- Under the key is the number that the line says. -/
def TakesEffect (floats : FloatText R) (field : Field R) (raw : List Char)
    (config : RuntimeConfig R) : Prop :=
  match field.get config with
  | some (.integer n) => parseI64 raw = some n
  | some (.float x) => floats.fromStr raw = some x
  | _ => False

/-- The key takes a number of this kind. -/
def TakesNumber (field : Field R) (raw : List Char) : Prop :=
  match field.set with
  | .integer _ => parseI64 raw ≠ none
  | .float _ => parseI64 raw = none
  | _ => False

/-- What is under a key is of its kind, and what is set is under it. -/
def Lawful (field : Field R) : Prop :=
  match field.set with
  | .string _ => ∀ config, ∀ value ∈ field.get config, ∃ s, value = .string s
  | .integer set => (∀ config, ∀ value ∈ field.get config, ∃ n, value = .integer n) ∧
      ∀ n config, (∃ e, set n config = .error e) ∨
        ∃ config', set n config = .ok config' ∧ field.get config' = some (.integer n)
  | .float set => ∀ x config, field.get (set x config) = some (.float x)
  | .bool _ => ∀ config, ∀ value ∈ field.get config, ∃ b, value = .bool b

end Field

theorem lawful_stringField (table key : String) (get : RuntimeConfig R → Option String)
    (set : String → RuntimeConfig R → RuntimeConfig R) :
    (stringField table key get set).Lawful := by
  intro config value hvalue
  obtain ⟨s, -, rfl⟩ := Option.map_eq_some_iff.mp hvalue
  exact ⟨s, rfl⟩

theorem lawful_integerField (table key : String) {bound : ℕ} {get : RuntimeConfig R → ℕ}
    {set : ℕ → RuntimeConfig R → RuntimeConfig R}
    (h : ∀ n < bound, ∀ config, get (set n config) = n) :
    (integerField table key bound get set).Lawful := by
  refine ⟨?_, fun n config => ?_⟩
  · rintro config _ ⟨⟩
    exact ⟨_, rfl⟩
  by_cases hrange : 0 ≤ n ∧ n < bound
  · refine .inr ⟨set n.toNat config, if_pos hrange, ?_⟩
    have hget := h n.toNat (by omega) config
    simp only [integerField, hget, Int.toNat_of_nonneg hrange.1]
  · exact .inl ⟨_, if_neg hrange⟩

theorem lawful_limitField (key : String) {get : RequestLimits → UInt64}
    {set : UInt64 → RequestLimits → RequestLimits} (h : ∀ n limits, get (set n limits) = n) :
    (limitField (R := R) key get set).Lawful := by
  refine lawful_integerField "limits" key fun n hn config => ?_
  simp only [h]
  exact UInt64.toNat_ofNat_of_lt' hn

theorem lawful_fields : ∀ field ∈ fields (R := R), field.Lawful := by
  simp only [fields, List.forall_mem_cons]
  refine ⟨lawful_stringField _ _ _ _, ?_, lawful_stringField _ _ _ _, lawful_stringField _ _ _ _, ?_,
    lawful_stringField _ _ _ _, lawful_stringField _ _ _ _, lawful_stringField _ _ _ _, ?_, ?_, ?_,
    lawful_limitField _ fun _ _ => rfl, lawful_limitField _ fun _ _ => rfl,
    lawful_limitField _ fun _ _ => rfl, lawful_limitField _ fun _ _ => rfl,
    lawful_limitField _ fun _ _ => rfl, lawful_limitField _ fun _ _ => rfl,
    lawful_limitField _ fun _ _ => rfl, ?_, lawful_stringField _ _ _ _, nofun⟩
  · exact lawful_integerField _ _ fun n hn config => UInt16.toNat_ofNat_of_lt' hn
  · rintro config _ ⟨⟩
    exact ⟨_, rfl⟩
  · exact fun x config => rfl
  · exact fun x config => rfl
  · exact lawful_integerField _ _ fun n hn config => UInt32.toNat_ofNat_of_lt' hn
  · rintro config _ ⟨⟩
    exact ⟨_, rfl⟩

theorem parseValue_eq_integer {raw : List Char} {n : ℤ}
    (h : parseValue floats raw = .ok (.integer n)) : parseI64 raw = some n := by
  rw [parseValue] at h
  split at h
  · obtain ⟨parsed, -, h⟩ := bind_eq_ok h
    cases Except.ok.inj h
  · split at h
    · rename_i hint
      obtain rfl := ConfigValue.integer.inj (Except.ok.inj h)
      exact hint
    · split at h
      · cases Except.ok.inj h
      · split at h
        · cases Except.ok.inj h
        · split at h <;> cases h

theorem parseValue_eq_float {raw : List Char} {x : R}
    (h : parseValue floats raw = .ok (.float x)) :
    parseI64 raw = none ∧ floats.fromStr raw = some x := by
  rw [parseValue] at h
  split at h
  · obtain ⟨parsed, -, h⟩ := bind_eq_ok h
    cases Except.ok.inj h
  · split at h
    · cases Except.ok.inj h
    · rename_i hint
      split at h
      · rename_i hfloat
        obtain rfl := ConfigValue.float.inj (Except.ok.inj h)
        exact ⟨hint, hfloat⟩
      · split at h
        · cases Except.ok.inj h
        · split at h <;> cases h

/-- A line with a key sets it. -/
theorem applyLine_of_lineEntry {rawLine raw : List Char} {field : Field R} (hfield : field ∈ fields)
    (hentry : RuntimeConfig.lineEntry rawLine = some (field.key, raw)) {value : ConfigValue R}
    (hvalue : parseValue floats raw = .ok value) (config : RuntimeConfig R) :
    RuntimeConfig.applyLine floats (field.table, config) rawLine = (do
      let config ← field.set.apply config value
      return (field.table, config)) := by
  rw [RuntimeConfig.lineEntry] at hentry
  rw [RuntimeConfig.applyLine]
  split at hentry
  · cases hentry
  · rename_i hne
    rw [if_neg hne]
    split at hentry
    · cases hentry
    · rename_i hsection
      simp only [hentry, hvalue, ok_bind, RuntimeConfig.applyEntry, field?_of_mem hfield]

/-- A line that a key passes over leaves the configuration. -/
theorem takesEffect_of_passed {rawLine raw : List Char} {field : Field R} (hfield : field ∈ fields)
    (hentry : RuntimeConfig.lineEntry rawLine = some (field.key, raw)) {value : ConfigValue R}
    (hvalue : parseValue floats raw = .ok value) {config : RuntimeConfig R}
    (hpassed : field.set.apply config value = .ok config)
    (h : (∃ e, RuntimeConfig.applyLine floats (field.table, config) rawLine = .error e) ∨
      ∃ config', RuntimeConfig.applyLine floats (field.table, config) rawLine =
        .ok (field.table, config') ∧ field.TakesEffect floats raw config') :
    field.TakesEffect floats raw config := by
  rw [applyLine_of_lineEntry hfield hentry hvalue, hpassed] at h
  rcases h with ⟨e, he⟩ | ⟨config', heq, heffect⟩
  · cases he
  · obtain rfl := (Prod.mk.inj (Except.ok.inj heq)).2
    exact heffect

/-- What is under a key that is set by a number of its kind. -/
theorem takesEffect_of_set {rawLine raw : List Char} {field : Field R} (hfield : field ∈ fields)
    (hentry : RuntimeConfig.lineEntry rawLine = some (field.key, raw)) {value : ConfigValue R}
    (hvalue : parseValue floats raw = .ok value) {config config' : RuntimeConfig R}
    (hset : field.set.apply config value = .ok config')
    (heffect : field.TakesEffect floats raw config') :
    ∃ config', RuntimeConfig.applyLine floats (field.table, config) rawLine =
      .ok (field.table, config') ∧ field.TakesEffect floats raw config' := by
  refine ⟨config', ?_, heffect⟩
  rw [applyLine_of_lineEntry hfield hentry hvalue, hset]
  rfl

/-- A key without numbers has none under it. -/
theorem not_takesEffect {field : Field R} {raw : List Char} {config : RuntimeConfig R}
    (h : ∀ value ∈ field.get config, (∃ s, value = .string s) ∨ ∃ b, value = .bool b) :
    ¬ field.TakesEffect floats raw config := by
  intro heffect
  rw [Field.TakesEffect] at heffect
  split at heffect
  · rename_i n hget
    rcases h _ hget with ⟨s, hs⟩ | ⟨b, hb⟩
    · cases hs
    · cases hb
  · rename_i x hget
    rcases h _ hget with ⟨s, hs⟩ | ⟨b, hb⟩
    · cases hs
    · cases hb
  · exact heffect

/-- **A line with a number is not passed over** just when its key takes numbers of that kind. -/
theorem line_takesEffect_iff {rawLine raw : List Char} {field : Field R} (hfield : field ∈ fields)
    (hentry : RuntimeConfig.lineEntry rawLine = some (field.key, raw))
    (hnumber : IsNumber floats raw) :
    (∀ config, (∃ e, RuntimeConfig.applyLine floats (field.table, config) rawLine = .error e) ∨
      ∃ config', RuntimeConfig.applyLine floats (field.table, config) rawLine =
        .ok (field.table, config') ∧ field.TakesEffect floats raw config') ↔
      field.TakesNumber raw := by
  have hlawful := lawful_fields field hfield
  rw [Field.Lawful] at hlawful
  rw [Field.TakesNumber]
  cases hset : field.set with
  | string set =>
      simp only [hset] at hlawful ⊢
      refine iff_of_false (fun h => ?_) id
      have heffect : field.TakesEffect floats raw (.default floats) := by
        rcases hnumber with ⟨n, hvalue⟩ | ⟨x, hvalue⟩
        · exact takesEffect_of_passed hfield hentry hvalue (by rw [hset]; rfl) (h _)
        · exact takesEffect_of_passed hfield hentry hvalue (by rw [hset]; rfl) (h _)
      exact not_takesEffect (fun value hvalue => .inl (hlawful _ value hvalue)) heffect
  | bool set =>
      simp only [hset] at hlawful ⊢
      refine iff_of_false (fun h => ?_) id
      have heffect : field.TakesEffect floats raw (.default floats) := by
        rcases hnumber with ⟨n, hvalue⟩ | ⟨x, hvalue⟩
        · exact takesEffect_of_passed hfield hentry hvalue (by rw [hset]; rfl) (h _)
        · exact takesEffect_of_passed hfield hentry hvalue (by rw [hset]; rfl) (h _)
      exact not_takesEffect (fun value hvalue => .inr (hlawful _ value hvalue)) heffect
  | integer set =>
      simp only [hset] at hlawful ⊢
      rcases hnumber with ⟨n, hvalue⟩ | ⟨x, hvalue⟩
      · have hint := parseValue_eq_integer hvalue
        refine iff_of_true (fun config => ?_) (by rw [hint]; simp)
        rcases hlawful.2 n config with ⟨e, he⟩ | ⟨config', hok, hget⟩
        · refine .inl ⟨e, ?_⟩
          rw [applyLine_of_lineEntry hfield hentry hvalue, hset, Setter.apply, he]
          rfl
        · refine .inr (takesEffect_of_set hfield hentry hvalue (by rw [hset]; exact hok) ?_)
          rw [Field.TakesEffect, hget]
          exact hint
      · have hint := (parseValue_eq_float hvalue).1
        refine iff_of_false (fun h => ?_) (fun hne => hne hint)
        have heffect := takesEffect_of_passed hfield hentry hvalue (by rw [hset]; rfl)
          (h (.default floats))
        rw [Field.TakesEffect] at heffect
        split at heffect
        · rw [hint] at heffect
          cases heffect
        · rename_i x hget
          obtain ⟨n, hn⟩ := hlawful.1 _ _ hget
          cases hn
        · exact heffect
  | float set =>
      simp only [hset] at hlawful ⊢
      rcases hnumber with ⟨n, hvalue⟩ | ⟨x, hvalue⟩
      · have hint := parseValue_eq_integer hvalue
        refine iff_of_false (fun h => ?_) (by rw [hint]; simp)
        -- the two defaults cannot both be what the line says
        have hread : ∀ x, floats.fromStr raw = some x := by
          intro x
          have heffect := takesEffect_of_passed hfield hentry hvalue (by rw [hset]; rfl)
            (h (set x (.default floats)))
          rwa [Field.TakesEffect, hlawful] at heffect
        have heq := Option.some.inj ((hread floats.seven).symm.trans (hread floats.nine))
        have hdisplay := floats.display_seven
        rw [heq, floats.display_nine] at hdisplay
        cases hdisplay
      · obtain ⟨hint, hfloat⟩ := parseValue_eq_float hvalue
        refine iff_of_true (fun config => ?_) hint
        refine .inr (takesEffect_of_set hfield hentry hvalue (by rw [hset]; rfl) ?_)
        rw [Field.TakesEffect, hlawful]
        exact hfloat

/-- **Which configurations come back, and which lines take effect**: those whose floats are read
as floats, and those with a number of the kind of the key. -/
theorem config_survives_text (floats : FloatText R) :
    (∀ (c : RuntimeConfig R) (text : List Char), c.render floats = .ok text →
      floats.Finite c.generation.temperature → floats.Finite c.generation.topP →
      c.limits.FitsI64 →
      (RuntimeConfig.applyContents floats (.default floats) text = .ok c ↔
        c.generation.Pointed floats)) ∧
    ∀ (rawLine raw : List Char), ∀ field ∈ fields (R := R),
      RuntimeConfig.lineEntry rawLine = some (field.key, raw) → IsNumber floats raw →
      ((∀ config, (∃ e, RuntimeConfig.applyLine floats (field.table, config) rawLine = .error e) ∨
        ∃ config', RuntimeConfig.applyLine floats (field.table, config) rawLine =
          .ok (field.table, config') ∧ field.TakesEffect floats raw config') ↔
      field.TakesNumber raw) :=
  ⟨fun _ _ hrender htemperature htopP hlimits =>
    applyContents_render_iff hrender htemperature htopP hlimits,
    fun _ _ _ hfield hentry hnumber => line_takesEffect_iff hfield hentry hnumber⟩

/-! ## Floats of tenths -/

theorem digitChar_tenth (n : ℕ) : (Nat.digitChar (n % 10)).isDigit ∧
    (Nat.digitChar (n % 10)).toNat - 48 = n % 10 := by
  have hspec := Json.digitChar_spec (n % 10) (Nat.mod_lt n (by decide))
  exact ⟨hspec.1, hspec.2.1⟩

/-- A number of tenths. -/
def displayTenths (n : ℕ) : List Char :=
  decimal (n / 10) ++ if n % 10 = 0 then [] else ['.', Nat.digitChar (n % 10)]

def tenthsFromStr (text : List Char) : Option ℕ :=
  match splitOnce '.' text with
  | none => (Json.natOf text).map (10 * ·)
  | some (whole, [d]) =>
      if d.isDigit then (Json.natOf whole).map fun n => 10 * n + (d.toNat - 48) else none
  | some _ => none

theorem splitOnce_eq_none {sep : Char} {text : List Char} (h : sep ∉ text) :
    splitOnce sep text = none := by
  induction text with
  | nil => rfl
  | cons c cs ih =>
      rw [List.mem_cons, not_or] at h
      rw [splitOnce, if_neg (Ne.symm h.1), ih h.2]
      rfl

theorem tenthsFromStr_display (n : ℕ) : tenthsFromStr (displayTenths n) = some n := by
  have hpoint : '.' ∉ decimal (n / 10) := by
    intro hmem
    have hdigit := List.all_eq_true.mp (Json.isDigit_textNat (n / 10)) '.' hmem
    cases hdigit
  by_cases hzero : n % 10 = 0
  · have hwhole : 10 * (n / 10) = n := by omega
    rw [displayTenths, if_pos hzero, List.append_nil, tenthsFromStr, splitOnce_eq_none hpoint]
    simp only [decimal, Json.natOf_textNat, Option.map_some, hwhole]
  · obtain ⟨hdigit, hvalue⟩ := digitChar_tenth n
    have hwhole : 10 * (n / 10) + n % 10 = n := by omega
    rw [displayTenths, if_neg hzero, tenthsFromStr, splitOnce_append hpoint]
    simp only [hdigit, if_true, decimal, Json.natOf_textNat, Option.map_some, hvalue, hwhole]

/-- Numbers of tenths, printed with as many digits as they have. -/
def tenths : FloatText ℕ where
  Finite _ := True
  display := displayTenths
  fromStr := tenthsFromStr
  fromStr_display n _ := tenthsFromStr_display n
  display_ne_nil n _ := by
    obtain ⟨c, cs, hcons, -⟩ := Json.head_textNat (n / 10)
    rw [displayTenths, decimal, hcons]
    exact List.cons_ne_nil _ _
  display_chars n _ c hc := by
    rw [displayTenths, List.mem_append] at hc
    rcases hc with hc | hc
    · exact .inl (List.all_eq_true.mp (Json.isDigit_textNat _) c hc)
    · split at hc
      · cases hc
      · rcases List.mem_cons.mp hc with rfl | hc
        · exact .inr (.inr rfl)
        · obtain rfl := List.mem_singleton.mp hc
          exact .inl (digitChar_tenth n).1
  seven := 7
  nine := 9
  display_seven := by decide
  display_nine := by decide
  fromStr_true := by decide
  fromStr_false := by decide

/-- A configuration with a temperature, and with quotes and hashes in its strings. -/
def quotedConfig (temperature : ℕ) : RuntimeConfig ℕ where
  worker := { model := "a \"b\" # c = [d]\n\\", vlmModel := some "é" }
  generation := { temperature := temperature, topP := 9 }

theorem fitsI64_quotedConfig (temperature : ℕ) : (quotedConfig temperature).limits.FitsI64 := by
  show RequestLimits.FitsI64 {}
  simp [RequestLimits.FitsI64]

theorem render_quotedConfig (temperature : ℕ) :
    ∃ text, (quotedConfig temperature).render tenths = .ok text := by
  refine render_isOk ?_
  show ∀ s ∈ ["127.0.0.1", "python/.venv/bin/python", "mlx_worker.main",
    "a \"b\" # c = [d]\n\\", "/tmp/mlx-runtime.sock", "/metrics", "é"], _
  decide

/-- A configuration with a fraction comes back. -/
theorem quotedConfig_survives : ∃ text, (quotedConfig 5).render tenths = .ok text ∧
    RuntimeConfig.applyContents tenths (.default tenths) text = .ok (quotedConfig 5) := by
  obtain ⟨text, htext⟩ := render_quotedConfig 5
  refine ⟨text, htext, ((config_survives_text tenths).1 (quotedConfig 5) text htext trivial trivial
    (fitsI64_quotedConfig 5)).mpr ?_⟩
  exact ⟨by decide, by decide⟩

/-- A temperature of one is read as an integer, and the default stays. -/
theorem integral_temperature_lost : ∃ text, (quotedConfig 10).render tenths = .ok text ∧
    RuntimeConfig.applyContents tenths (.default tenths) text ≠ .ok (quotedConfig 10) := by
  obtain ⟨text, htext⟩ := render_quotedConfig 10
  refine ⟨text, htext, fun h => ?_⟩
  rw [applyContents_render htext trivial trivial (fitsI64_quotedConfig 10)] at h
  have htemperature := congrArg (fun c => c.generation.temperature) (Except.ok.inj h)
  revert htemperature
  decide

end MlxRuntime
