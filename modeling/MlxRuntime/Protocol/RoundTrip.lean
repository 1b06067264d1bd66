import MlxRuntime.Protocol.Events

/-!
# Which events survive the wire

Every line `encode_event` writes is read in both languages, and every field is read back
that the encoder writes where the decoder looks for it.  The lists differ: the nested
object of a chat completion lacks eight of the fields its Rust reader declares, and
`decode_event` leaves out seven more.

## Main definitions

* `Event.Survives` — an event arrives whole in both languages.
* `Event.survives_iff` — which events do.
-/

namespace MlxRuntime

/-! ## Reading what was written -/

/-- The names of a response, in the outer object and in the nested one. -/
theorem nodup_responseNames : ((["type", "response"] ++ ["request_id", "model", "text",
    "finish_reason", "prompt_tokens", "completion_tokens"]) ++
    responseTable.map Prod.fst).Nodup := by decide

theorem nodup_responseTable : (responseTable.map Prod.fst).Nodup :=
  nodup_responseNames.of_append_right

/-- The optional fields have names of their own. -/
theorem notMem_head_of_mem_responseTable {name : String}
    (h : name ∈ responseTable.map Prod.fst) : name ∉ ["type", "response"] ∧
      name ∉ ["request_id", "model", "text", "finish_reason", "prompt_tokens",
        "completion_tokens"] := by
  have hdisjoint := List.disjoint_of_nodup_append nodup_responseNames
  constructor
  · exact fun hmem => hdisjoint (List.mem_append_left _ hmem) h
  · exact fun hmem => hdisjoint (List.mem_append_right _ hmem) h

theorem nodup_payloadNames : (["type", "response"] ++ responseTable.map Prod.fst).Nodup := by
  refine nodup_responseNames.sublist (List.Sublist.append_right ?_ _)
  exact List.sublist_append_left _ _

theorem nodup_nestedNames : (["request_id", "model", "text", "finish_reason", "prompt_tokens",
    "completion_tokens"] ++ nestedNames).Nodup := by decide

theorem nodup_nested (r : ChatCompletionResponse) : (r.nested.map Prod.fst).Nodup := by
  rw [ChatCompletionResponse.nested, List.map_append, Options.names_write]
  exact nodup_nestedNames

theorem nodup_metricsNames : metricsNames.Nodup := by decide

theorem nodup_metricsTable : (metricsTable.map Prod.fst).Nodup :=
  nodup_metricsNames.of_append_right

theorem nodup_metrics (m : SchedulerMetricsEvent) : (m.asdict.map Prod.fst).Nodup := by
  rw [SchedulerMetricsEvent.asdict, List.map_append, Options.names_write]
  exact nodup_metricsNames

theorem nodup_reset (s : BenchmarkResetState (List (String × Wire))) :
    (s.asdict.map Prod.fst).Nodup := by
  show (["request_id", "scheduler_idle", "cache_state", "model_preserved",
    "graphs_preserved"] : List String).Nodup
  decide

theorem nodup_delta (d : ChatCompletionDelta) :
    (([("request_id", .str d.requestId), ("delta", .str d.delta)] :
      List (String × Wire)).map Prod.fst).Nodup := by
  show (["request_id", "delta"] : List String).Nodup
  decide

theorem nodup_payload (e : Event) : (e.payload.map Prod.fst).Nodup := by
  cases e with
  | response r =>
      rw [Event.payload, List.map_append, Options.names_write]
      exact nodup_payloadNames
  | delta d => show (["type", "delta"] : List String).Nodup; decide
  | error e => show (["type", "code", "request_id", "message"] : List String).Nodup; decide
  | metrics m => show (["type", "metrics"] : List String).Nodup; decide
  | reset s => show (["type", "state"] : List String).Nodup; decide

/-- The integers of an event fit their fields, a message has no newline, and a cache state
is what a JSON reader of 64-bit integers gives back. -/
def Event.Fits : Event → Prop
  | .response r => FieldType.InWidth 32 r.promptTokens ∧ FieldType.InWidth 32 r.completionTokens ∧
      r.optional.Fits
  | .delta _ => True
  | .error e => '\n' ∉ e.message.toList
  | .metrics m => FieldType.InWidth 32 m.scheduledTokens ∧ FieldType.InWidth 32 m.batchSize ∧
      FieldType.InWidth 32 m.waitingRequests ∧ FieldType.InWidth 32 m.runningRequests ∧
      FieldType.InWidth 32 m.schedulerTickLatencyMs ∧ m.optional.Fits
  | .reset s => (Json.obj s.cacheState).Regular

theorem FieldType.require_string {members : List (String × Wire)}
    (hnodup : (members.map Prod.fst).Nodup) (strict : Bool) {name x : String}
    (h : (name, .str x) ∈ members) : FieldType.string.require strict members name = some x :=
  require_eq_some hnodup .string strict h trivial

theorem FieldType.require_bool {members : List (String × Wire)}
    (hnodup : (members.map Prod.fst).Nodup) (strict : Bool) {name : String} {x : Bool}
    (h : (name, .bool x) ∈ members) : FieldType.bool.require strict members name = some x :=
  require_eq_some hnodup .bool strict h trivial

/-- A response read from its nested object has the fields both sides know. -/
theorem readResponse_nested {r : ChatCompletionResponse} (h : (Event.response r).Fits)
    (strict : Bool) (names : List String) : readResponse strict names r.nested =
      some { r with optional := (r.optional.keep nestedNames).keep names } := by
  obtain ⟨hprompt, hcompletion, hoptional⟩ := h
  have hnodup := nodup_nested r
  have hmem : ∀ m ∈ ([("request_id", .str r.requestId), ("model", .str r.model),
      ("text", .str r.text), ("finish_reason", .str r.finishReason),
      ("prompt_tokens", .int r.promptTokens), ("completion_tokens", .int r.completionTokens)] :
      List (String × Wire)), m ∈ r.nested := fun m hm => List.mem_append_left _ hm
  simp only [List.forall_mem_cons] at hmem
  obtain ⟨hid, hmodel, htext, hreason, hp, hc, -⟩ := hmem
  have hread : Options.read strict names (Json.get? r.nested) =
      some ((r.optional.keep nestedNames).keep names) :=
    r.optional.read_write nodup_responseTable strict hoptional fun name hname =>
      r.optional.get?_append_write nodup_nestedNames (notMem_head_of_mem_responseTable hname).2
  rw [readResponse, FieldType.require_string hnodup strict hid,
    FieldType.require_string hnodup strict hmodel, FieldType.require_string hnodup strict htext,
    FieldType.require_string hnodup strict hreason,
    FieldType.require_eq_some hnodup .u32 strict hp hprompt,
    FieldType.require_eq_some hnodup .u32 strict hc hcompletion, hread]
  rfl

/-- The fields of a response are all in the outer object. -/
theorem read_payload {r : ChatCompletionResponse} (h : (Event.response r).Fits) :
    Options.read true (responseTable.map Prod.fst) (Json.get? (Event.response r).payload) =
      some r.optional := by
  have hlook : ∀ name ∈ responseTable.map Prod.fst,
      Json.get? (Event.response r).payload name =
        if name ∈ responseTable.map Prod.fst then some (r.optional.json name) else none :=
    fun name hname => r.optional.get?_append_write nodup_payloadNames
      (notMem_head_of_mem_responseTable hname).1
  rw [r.optional.read_write nodup_responseTable true h.2.2 hlook, Options.keep_names,
    Options.keep_names]

/-- The metrics are read as they were written. -/
theorem readMetrics_asdict {m : SchedulerMetricsEvent} (h : (Event.metrics m).Fits)
    (strict : Bool) : readMetrics strict m.asdict = some m := by
  obtain ⟨hscheduled, hbatch, hwaiting, hrunning, hlatency, hoptional⟩ := h
  have hnodup := nodup_metrics m
  have hmem : ∀ x ∈ ([("backend", .str m.backend), ("modality", .str m.modality),
      ("phase", .str m.phase), ("scheduled_tokens", .int m.scheduledTokens),
      ("batch_size", .int m.batchSize), ("waiting_requests", .int m.waitingRequests),
      ("running_requests", .int m.runningRequests),
      ("scheduler_tick_latency_ms", .int m.schedulerTickLatencyMs)] :
      List (String × Wire)), x ∈ m.asdict := fun x hx => List.mem_append_left _ hx
  simp only [List.forall_mem_cons] at hmem
  obtain ⟨hbackend, hmodality, hphase, hs, hb, hw, hr, hl, -⟩ := hmem
  have hnames : (["backend", "modality", "phase", "scheduled_tokens", "batch_size",
      "waiting_requests", "running_requests", "scheduler_tick_latency_ms"] ++
      metricsTable.map Prod.fst).Nodup := nodup_metricsNames
  have hlook : ∀ name ∈ metricsTable.map Prod.fst, Json.get? m.asdict name =
      if name ∈ metricsTable.map Prod.fst then some (m.optional.json name) else none :=
    fun name hname => m.optional.get?_append_write hnames fun hmem =>
      List.disjoint_of_nodup_append hnames hmem hname
  have hread : Options.read strict (metricsTable.map Prod.fst) (Json.get? m.asdict) =
      some m.optional := by
    rw [m.optional.read_write nodup_metricsTable strict hoptional hlook, Options.keep_names,
      Options.keep_names]
  rw [readMetrics, FieldType.require_string hnodup strict hbackend,
    FieldType.require_string hnodup strict hmodality,
    FieldType.require_string hnodup strict hphase,
    FieldType.require_eq_some hnodup .u32 strict hs hscheduled,
    FieldType.require_eq_some hnodup .u32 strict hb hbatch,
    FieldType.require_eq_some hnodup .u32 strict hw hwaiting,
    FieldType.require_eq_some hnodup .u32 strict hr hrunning,
    FieldType.require_eq_some hnodup .u32 strict hl hlatency, hread]
  rfl

theorem readReset_asdict {κ : Type} (s : BenchmarkResetState (List (String × Wire)))
    (strict : Bool) {cache : Wire → Option κ} {cacheState : κ}
    (h : cache (.obj s.cacheState) = some cacheState) : readReset strict cache s.asdict =
      some ⟨s.requestId, s.schedulerIdle, cacheState, s.modelPreserved, s.graphsPreserved⟩ := by
  have hnodup := nodup_reset s
  have hmem : ∀ x ∈ s.asdict, x ∈ s.asdict := fun x hx => hx
  nth_rewrite 1 [BenchmarkResetState.asdict] at hmem
  simp only [List.forall_mem_cons] at hmem
  obtain ⟨hid, hidle, hcache, hmodel, hgraphs, -⟩ := hmem
  rw [readReset, FieldType.require_string hnodup strict hid,
    FieldType.require_bool hnodup strict hidle, Json.get?_eq_some hnodup hcache,
    FieldType.require_bool hnodup strict hmodel, FieldType.require_bool hnodup strict hgraphs]
  simp only [Option.bind_eq_bind, Option.bind_some, h]
  rfl

/-- The name under `"type"`. -/
def Event.typeName : Event → String
  | .response _ => "chat_completion"
  | .delta _ => "chat_completion_delta"
  | .error _ => "error"
  | .metrics _ => "scheduler_metrics"
  | .reset _ => "benchmark_reset"

theorem get?_type (e : Event) : Json.get? e.payload "type" = some (.str e.typeName) := by
  refine Json.get?_eq_some (nodup_payload e) ?_
  cases e <;> exact List.mem_cons_self

theorem readDelta_payload (d : ChatCompletionDelta) (strict : Bool) :
    readDelta strict [("request_id", .str d.requestId), ("delta", .str d.delta)] = some d := by
  have hnodup := nodup_delta d
  rw [readDelta, FieldType.require_string hnodup strict List.mem_cons_self,
    FieldType.require_string hnodup strict (List.mem_cons_of_mem _ List.mem_cons_self)]
  rfl

theorem readError_payload {e : WorkerCommandError} (h : (Event.error e).Fits) (strict : Bool) :
    readError strict (Event.error e).payload = some e := by
  have hmessage : withoutNewlines e.message = e.message := by
    refine String.toList_injective ?_
    rw [withoutNewlines, String.toList_map]
    refine (List.map_congr_left fun c hc => if_neg ?_).trans (List.map_id _)
    rintro rfl
    exact h hc
  have hnodup := nodup_payload (.error e)
  have hmem : ∀ x ∈ (Event.error e).payload, x ∈ (Event.error e).payload := fun x hx => hx
  nth_rewrite 1 [Event.payload] at hmem
  simp only [List.forall_mem_cons, hmessage] at hmem
  obtain ⟨-, hcode, hid, hm, -⟩ := hmem
  rw [readError, FieldType.require_string hnodup strict hcode,
    FieldType.require_string hnodup strict hid, FieldType.require_string hnodup strict hm]
  rfl

/-- `decode_event` reads no more than the nested object has. -/
theorem decodedNames_subset : decodedNames ⊆ nestedNames := by
  have hall : ∀ name ∈ decodedNames, name ∈ nestedNames := by decide
  exact hall

/-- What `decode_event` makes of an event. -/
def Event.readByPython : Event → Event
  | .response r => .response { r with optional := r.optional.keep decodedNames }
  | e => e

/-- **Python reads its own lines back**, up to the fields it does not decode. -/
theorem decodeEvent_encodeEvent {e : Event} (h : e.Fits) :
    decodeEvent (encodeEvent e) = some (some e.readByPython) := by
  have hparse : Json.parse .integers (encodeEvent e) = some (.obj e.payload) :=
    Json.parse_text _ rfl
  rw [decodeEvent, hparse]
  simp only [Option.bind_eq_bind, Option.bind_some, asObject, get?_type]
  cases e with
  | response r =>
      have hobj : Json.get? (Event.response r).payload "response" = some (.obj r.nested) :=
        Json.get?_eq_some (nodup_payload _) (by simp [Event.payload])
      simp only [Event.typeName, hobj, Option.bind_some]
      rw [readResponse_nested h, Options.keep_keep _ fun _ h => decodedNames_subset h]
      rfl
  | delta d =>
      have hobj : Json.get? (Event.delta d).payload "delta" =
          some (.obj [("request_id", .str d.requestId), ("delta", .str d.delta)]) :=
        Json.get?_eq_some (nodup_payload _) (by simp [Event.payload])
      simp only [Event.typeName, hobj, Option.bind_some]
      rw [readDelta_payload]
      rfl
  | error e =>
      simp only [Event.typeName]
      rw [readError_payload h]
      rfl
  | metrics m =>
      have hobj : Json.get? (Event.metrics m).payload "metrics" = some (.obj m.asdict) :=
        Json.get?_eq_some (nodup_payload _) (by simp [Event.payload])
      simp only [Event.typeName, hobj, Option.bind_some]
      rw [readMetrics_asdict h]
      rfl
  | reset s =>
      have hobj : Json.get? (Event.reset s).payload "state" = some (.obj s.asdict) :=
        Json.get?_eq_some (nodup_payload _) (by simp [Event.payload])
      simp only [Event.typeName, hobj, Option.bind_some]
      rw [readReset_asdict s false (show asObject (.obj s.cacheState) = some s.cacheState from rfl)]
      rfl

/-! ## The strict reader -/

theorem regular_str (x : String) (d : ℕ) :
    (Json.str x : Wire).Regular ∧ (Json.str x : Wire).depth ≤ d := ⟨trivial, Nat.zero_le d⟩

theorem regular_bool (x : Bool) (d : ℕ) :
    (Json.bool x : Wire).Regular ∧ (Json.bool x : Wire).depth ≤ d := ⟨trivial, Nat.zero_le d⟩

theorem regular_int {n : ℤ} (h : FieldType.InWidth 32 n) (d : ℕ) :
    (Json.int n : Wire).Regular ∧ (Json.int n : Wire).depth ≤ d :=
  ⟨⟨by have := h.1; omega, by have := h.2; omega⟩, Nat.zero_le d⟩

theorem regular_append {head : List (String × Wire)} {T : Table} {o : Options T} {d : ℕ}
    (hhead : ∀ m ∈ head, m.2.Regular ∧ m.2.depth ≤ d) (h : o.Fits) (names : List String) :
    ∀ m ∈ head ++ o.write names, m.2.Regular ∧ m.2.depth ≤ d := by
  intro m hm
  rcases List.mem_append.mp hm with hm | hm
  · exact hhead m hm
  · obtain ⟨hregular, hdepth⟩ := o.regular_write h names m hm
    exact ⟨hregular, hdepth ▸ Nat.zero_le d⟩

theorem regular_nested {r : ChatCompletionResponse} (h : (Event.response r).Fits) :
    (Json.obj r.nested).Regular ∧ (Json.obj r.nested).depth ≤ 1 := by
  refine Json.regular_obj (nodup_nested r) (regular_append ?_ h.2.2 _)
  simp only [List.forall_mem_cons]
  exact ⟨regular_str _ _, regular_str _ _, regular_str _ _, regular_str _ _, regular_int h.1 _,
    regular_int h.2.1 _, nofun⟩

theorem regular_metrics {m : SchedulerMetricsEvent} (h : (Event.metrics m).Fits) :
    (Json.obj m.asdict).Regular ∧ (Json.obj m.asdict).depth ≤ 1 := by
  obtain ⟨hscheduled, hbatch, hwaiting, hrunning, hlatency, hoptional⟩ := h
  refine Json.regular_obj (nodup_metrics m) (regular_append ?_ hoptional _)
  simp only [List.forall_mem_cons]
  exact ⟨regular_str _ _, regular_str _ _, regular_str _ _, regular_int hscheduled _,
    regular_int hbatch _, regular_int hwaiting _, regular_int hrunning _,
    regular_int hlatency _, nofun⟩

/-- A line is regular; only a cache state nests deep. -/
theorem regular_payload {e : Event} (h : e.Fits) : (Json.obj e.payload).Regular ∧
    ((Json.obj e.payload).depth ≤ 127 ↔
      ∀ s, e = .reset s → (Json.obj s.cacheState).depth ≤ 125) := by
  have hshallow : (∀ m ∈ e.payload, m.2.Regular ∧ m.2.depth ≤ 1) → (∀ s, e ≠ .reset s) →
      (Json.obj e.payload).Regular ∧ ((Json.obj e.payload).depth ≤ 127 ↔
        ∀ s, e = .reset s → (Json.obj s.cacheState).depth ≤ 125) := by
    intro hmem hne
    obtain ⟨hregular, hdepth⟩ := Json.regular_obj (nodup_payload e) hmem
    exact ⟨hregular, iff_of_true (by omega) fun s hs => absurd hs (hne s)⟩
  cases e with
  | response r =>
      refine hshallow (regular_append ?_ h.2.2 _) nofun
      simp only [List.forall_mem_cons]
      exact ⟨regular_str _ _, regular_nested h, nofun⟩
  | delta d =>
      refine hshallow ?_ nofun
      simp only [Event.payload, List.forall_mem_cons]
      refine ⟨regular_str _ _, Json.regular_obj (d := 0) ?_ ?_, nofun⟩
      · exact nodup_delta d
      · simp only [List.forall_mem_cons]
        exact ⟨regular_str _ _, regular_str _ _, nofun⟩
  | error e =>
      refine hshallow ?_ nofun
      simp only [Event.payload, List.forall_mem_cons]
      exact ⟨regular_str _ _, regular_str _ _, regular_str _ _, regular_str _ _, nofun⟩
  | metrics m =>
      refine hshallow ?_ nofun
      simp only [Event.payload, List.forall_mem_cons]
      exact ⟨regular_str _ _, regular_metrics h, nofun⟩
  | reset s =>
      have hstate : (Json.obj s.asdict).Regular := by
        refine (Json.regular_obj (d := (Json.obj s.cacheState).depth) ?_ ?_).1
        · exact nodup_reset s
        · simp only [BenchmarkResetState.asdict, List.forall_mem_cons]
          exact ⟨regular_str _ _, regular_bool _ _, ⟨h, Nat.le_refl _⟩, regular_bool _ _,
            regular_bool _ _, nofun⟩
      have hdepth : (Json.obj (Event.reset s).payload).depth =
          (Json.obj s.cacheState).depth + 2 := by
        simp [Event.payload, BenchmarkResetState.asdict, Json.depth, Json.depthMembers,
          Json.depthMember]
      refine ⟨?_, ?_⟩
      · refine (Json.regular_obj (nodup_payload _) (d := (Json.obj s.asdict).depth) ?_).1
        simp only [Event.payload, List.forall_mem_cons]
        exact ⟨regular_str _ _, ⟨hstate, Nat.le_refl _⟩, nofun⟩
      · rw [hdepth]
        simp

theorem asStruct_obj {members : List (String × Wire)} (h : (members.map Prod.fst).Nodup)
    (names : List String) : asStruct names (.obj members) = some members := by
  rw [asStruct, asObject, Option.bind_eq_bind, Option.bind_some]
  exact if_pos (Json.once_of_nodup h names)

/-- What `decode_worker_event` makes of an event. -/
def Event.readByRust : Event → Option WorkerEvent
  | .response r =>
      some (.chatCompletion { r with optional := r.optional.keep nestedNames } r.optional)
  | .delta d => some (.chatCompletionDelta d)
  | .error e => some (.error e.code e.requestId e.message)
  | .metrics m => some (.schedulerMetrics m)
  | .reset s =>
      if (Json.obj s.cacheState).depth ≤ 125 then
        some (.benchmarkReset { s with cacheState := .obj s.cacheState })
      else none

/-- **Rust reads Python's lines**, up to the fields the encoder leaves out. -/
theorem decodeWorkerEvent_encodeEvent (serde : SerdeJson) {e : Event} (h : e.Fits) :
    decodeWorkerEvent serde (encodeEvent e) = e.readByRust := by
  obtain ⟨hregular, hdepth⟩ := regular_payload h
  have hparse := serde.fromStr_text _ hregular
  have hstruct := asStruct_obj (nodup_payload e)
  rw [decodeWorkerEvent, encodeEvent, hparse]
  cases e with
  | response r =>
      rw [if_pos (hdepth.mpr fun _ heq => by cases heq)]
      have hobj : Json.get? (Event.response r).payload "response" = some (.obj r.nested) :=
        Json.get?_eq_some (nodup_payload _) (by simp [Event.payload])
      have hkeep : (r.optional.keep nestedNames).keep (responseTable.map Prod.fst) =
          r.optional.keep nestedNames := Options.keep_names _
      simp only [Option.bind_eq_bind, Option.bind_some, hstruct, get?_type, Event.typeName, hobj,
        asStruct_obj (nodup_nested r)]
      rw [readResponse_nested h, read_payload h, hkeep]
      rfl
  | delta d =>
      rw [if_pos (hdepth.mpr fun _ heq => by cases heq)]
      have hobj : Json.get? (Event.delta d).payload "delta" =
          some (.obj [("request_id", .str d.requestId), ("delta", .str d.delta)]) :=
        Json.get?_eq_some (nodup_payload _) (by simp [Event.payload])
      simp only [Option.bind_eq_bind, Option.bind_some, hstruct, get?_type, Event.typeName, hobj,
        asStruct_obj (nodup_delta d)]
      rw [readDelta_payload]
      rfl
  | error e =>
      rw [if_pos (hdepth.mpr fun _ heq => by cases heq)]
      simp only [Option.bind_eq_bind, Option.bind_some, hstruct, get?_type, Event.typeName]
      rw [readError_payload h]
      rfl
  | metrics m =>
      rw [if_pos (hdepth.mpr fun _ heq => by cases heq)]
      have hobj : Json.get? (Event.metrics m).payload "metrics" = some (.obj m.asdict) :=
        Json.get?_eq_some (nodup_payload _) (by simp [Event.payload])
      simp only [Option.bind_eq_bind, Option.bind_some, hstruct, get?_type, Event.typeName, hobj,
        asStruct_obj (nodup_metrics m)]
      rw [readMetrics_asdict h]
      rfl
  | reset s =>
      have hiff : (Json.obj (Event.reset s).payload).depth ≤ 127 ↔
          (Json.obj s.cacheState).depth ≤ 125 :=
        hdepth.trans ⟨fun hall => hall s rfl, fun hle s' heq => Event.reset.inj heq ▸ hle⟩
      rw [Event.readByRust]
      by_cases hle : (Json.obj s.cacheState).depth ≤ 125
      · rw [if_pos (hiff.mpr hle), if_pos hle]
        have hobj : Json.get? (Event.reset s).payload "state" = some (.obj s.asdict) :=
          Json.get?_eq_some (nodup_payload _) (by simp [Event.payload])
        simp only [Option.bind_eq_bind, Option.bind_some, hstruct, get?_type, Event.typeName,
          hobj, asStruct_obj (nodup_reset s)]
        rw [readReset_asdict s true (show some (Json.obj s.cacheState) = some _ from rfl)]
        rfl
      · rw [if_neg (fun h => hle (hiff.mp h)), if_neg hle]
        rfl

/-! ## Which events survive -/

/-- The event in Rust with every field its value. -/
def Event.delivered : Event → WorkerEvent
  | .response r => .chatCompletion r r.optional
  | .delta d => .chatCompletionDelta d
  | .error e => .error e.code e.requestId e.message
  | .metrics m => .schedulerMetrics m
  | .reset s => .benchmarkReset { s with cacheState := .obj s.cacheState }

/-- The line of an event is read in Python as that event, and in Rust with every field its
value, for a chat completion both in the event and in the response inside it. -/
def Event.Survives (serde : SerdeJson) (e : Event) : Prop :=
  decodeEvent (encodeEvent e) = some (some e) ∧
    decodeWorkerEvent serde (encodeEvent e) = some e.delivered

/-- A chat completion sets no field that `decode_event` leaves out, and a cache state nests
no deeper than the Rust reader goes. -/
def Event.Covered : Event → Prop
  | .response r => ∀ i, (responseTable.get i).1 ∉ decodedNames → r.optional i = none
  | .reset s => (Json.obj s.cacheState).depth ≤ 125
  | _ => True

theorem optional_eq_self_iff (r : ChatCompletionResponse) (names : List String) :
    { r with optional := r.optional.keep names } = r ↔ r.optional.keep names = r.optional :=
  ⟨fun h => congrArg ChatCompletionResponse.optional h, fun h => by rw [h]⟩

/-- **Which events survive the wire.** -/
theorem Event.survives_iff (serde : SerdeJson) {e : Event} (h : e.Fits) :
    e.Survives serde ↔ e.Covered := by
  rw [Survives, decodeEvent_encodeEvent h, decodeWorkerEvent_encodeEvent serde h]
  cases e with
  | response r =>
      rw [readByPython, readByRust, delivered, Covered, Option.some_inj, Option.some_inj,
        Option.some_inj, response.injEq, WorkerEvent.chatCompletion.injEq, optional_eq_self_iff,
        optional_eq_self_iff, ← Options.keep_eq_self_iff]
      refine ⟨fun hall => hall.1, fun hkeep => ⟨hkeep, ?_, rfl⟩⟩
      -- what Python decodes, the encoder writes for Rust as well
      rw [Options.keep_eq_self_iff] at hkeep ⊢
      exact fun i hi => hkeep i fun hmem => hi (decodedNames_subset hmem)
  | delta d => exact iff_of_true ⟨rfl, rfl⟩ trivial
  | error e => exact iff_of_true ⟨rfl, rfl⟩ trivial
  | metrics m => exact iff_of_true ⟨rfl, rfl⟩ trivial
  | reset s =>
      refine ⟨fun hall => ?_, fun hle => ⟨rfl, if_pos hle⟩⟩
      by_contra hle
      have hrust : (reset s).readByRust = none := if_neg hle
      rw [hrust] at hall
      cases hall.2

/-- A reader of JSON text with the recursion limit of `serde_json`. -/
def boundedReader : SerdeJson where
  fromStr line := (Json.parse .integers line).filter fun j => j.depth ≤ 127
  fromStr_text j _ := by
    rw [Json.parse_text j rfl, Option.filter_some]
    simp only [decide_eq_true_eq]

/-- A short response with these fields. -/
def shortResponse (optional : Options responseTable) : ChatCompletionResponse :=
  ⟨"req-1", "test-model", "hi", "stop", 4, 1, optional⟩

/-- A response from the text backend: nested, it has no modality. -/
theorem modality_lost : (Event.response (shortResponse
      (.single ⟨12, by decide⟩ "text"))).Fits ∧
    ¬ Event.Survives boundedReader
      (.response (shortResponse (.single ⟨12, by decide⟩ "text"))) := by
  have hfits : (Event.response (shortResponse (.single ⟨12, by decide⟩ "text"))).Fits :=
    ⟨show FieldType.InWidth 32 4 by decide, show FieldType.InWidth 32 1 by decide,
      Options.fits_single trivial⟩
  refine ⟨hfits, fun hall => ?_⟩
  have hpython := hall.1
  rw [decodeEvent_encodeEvent hfits] at hpython
  have hlost := congrArg ChatCompletionResponse.optional
    (Event.response.inj (Option.some.inj (Option.some.inj hpython)))
  exact Option.some_ne_none _ (congrFun hlost ⟨12, by decide⟩).symm

/-- A response that only counts its images arrives whole. -/
theorem imageCount_survives :
    Event.Survives boundedReader (.response (shortResponse (.single ⟨0, by decide⟩ (2 : ℤ)))) := by
  have hfits : (Event.response (shortResponse (.single ⟨0, by decide⟩ (2 : ℤ)))).Fits :=
    ⟨show FieldType.InWidth 32 4 by decide, show FieldType.InWidth 32 1 by decide,
      Options.fits_single (show FieldType.InWidth 32 2 by decide)⟩
  refine (Event.survives_iff boundedReader hfits).mpr fun i hi => ?_
  have hne : i ≠ ⟨0, by decide⟩ := by
    rintro rfl
    exact hi (by decide)
  exact dif_neg hne

end MlxRuntime
