import MlxRuntime.Gateway.WorkerClient

/-!
# The map of calls in flight

A call puts its sender into the map when it registers and takes it out on its way back, once
for each of its endings.  `benchmark_reset` does so also when its command could not be written;
`execute_chat` leaves that ending to `?`, and its entry stays.

## Main definitions

* `ClientCall.InProgress` — a call between its registration and its return.
* `WorkerClient.Hygienic` — the entries of the map are those of the calls in progress.
* `WorkerClient.Unregisters` — the steps that do not leave the map by `?`.
-/

namespace MlxRuntime

/-- The call has registered and has not returned. -/
def ClientCall.InProgress (call : ClientCall) : Prop :=
  call.Registered ∧ ∀ result, call.place ≠ .returned result

namespace WorkerClient

variable {decode : List Char → Except String WorkerEvent} {w : WorkerClient}

/-- The ids of the calls. -/
def ids (w : WorkerClient) : List String := w.calls.map ClientCall.requestId

/-- The map holds calls in progress only, each under its id, and all of them unless the
reader has emptied the map or an id was given twice. -/
structure Hygienic (w : WorkerClient) : Prop where
  /-- A call that returned has no entry. -/
  returned : ∀ id call result, w.calls[id]? = some call → call.place = .returned result →
    id ∉ w.inflight.values
  /-- A key is the id of a call in progress. -/
  keys : ∀ key ∈ w.inflight.keys, ∃ call ∈ w.calls, call.requestId = key ∧ call.InProgress
  /-- A call in progress has its entry. -/
  complete : w.reader.done = false → w.ids.Nodup → ∀ id call, w.calls[id]? = some call →
    call.InProgress → w.inflight.get? call.requestId = some id

/-- The step is not a failed write of an `execute_chat` that is in the map. -/
def Unregisters (w : WorkerClient) : ClientOp → Prop
  | .write id (.error _) => ∀ call stream, w.calls[id]? = some call →
      call.kind = .executeChat stream → call.place = .registered →
      w.inflight.get? call.requestId ≠ some id
  | _ => True

/-- `Hygienic`, entry by entry. -/
structure Entries (w : WorkerClient) : Prop where
  held : ∀ key id, w.inflight.get? key = some id → ∃ call, w.calls[id]? = some call ∧
    call.requestId = key ∧ call.InProgress
  complete : w.reader.done = false → w.ids.Nodup → ∀ id call, w.calls[id]? = some call →
    call.InProgress → w.inflight.get? call.requestId = some id

theorem Entries.hygienic (h : Entries w) : Hygienic w where
  returned id call result hcall hplace hid := by
    obtain ⟨key, hkey⟩ := Dict.mem_values.mp hid
    obtain ⟨c, hc, -, -, hback⟩ := h.held key id (Dict.get?_eq_some.mpr hkey)
    obtain rfl := Option.some.inj (hcall.symm.trans hc)
    exact hback result hplace
  keys key hkey := by
    obtain ⟨id, hid⟩ := Dict.mem_keys.mp hkey
    obtain ⟨call, hcall, hrid, hprogress⟩ := h.held key id (Dict.get?_eq_some.mpr hid)
    exact ⟨call, List.mem_of_getElem? hcall, hrid, hprogress⟩
  complete := h.complete

theorem entries_init : Entries {} where
  held _ _ h := nomatch h
  complete _ _ _ _ h := nomatch h

theorem inProgress_congr {call call' : ClientCall} (hplace : call'.place = call.place) :
    call'.InProgress ↔ call.InProgress := by
  simp only [ClientCall.InProgress, ClientCall.Registered, hplace]

/-- The entries stay right where neither the map nor the ids and places of the calls change. -/
theorem Entries.frame {w' : WorkerClient} (h : Entries w) (hmap : w'.inflight = w.inflight)
    (hreader : w'.reader.done = false → w.reader.done = false)
    (hcalls : (w'.calls.map fun c => (c.requestId, c.place)) =
      w.calls.map fun c => (c.requestId, c.place)) : Entries w' := by
  have hlookup {v v' : WorkerClient} {id : ℕ} {c : ClientCall}
      (heq : (v.calls.map fun c => (c.requestId, c.place)) =
        v'.calls.map fun c => (c.requestId, c.place)) (hc : v.calls[id]? = some c) :
      ∃ c', v'.calls[id]? = some c' ∧ c'.requestId = c.requestId ∧ c'.place = c.place := by
    have hget := congrArg (fun l : List (String × Place) => l[id]?) heq
    simp only [List.getElem?_map, hc, Option.map_some] at hget
    obtain ⟨c', hc', hpair⟩ := Option.map_eq_some_iff.mp hget.symm
    obtain ⟨hid, hplace⟩ := Prod.mk.inj hpair
    exact ⟨c', hc', hid, hplace⟩
  have hids : w'.ids = w.ids := by
    have hfst := congrArg (List.map Prod.fst) hcalls
    simpa only [ids, List.map_map, Function.comp_def] using hfst
  constructor
  · intro key id hkey
    rw [hmap] at hkey
    obtain ⟨c, hc, hid, hprogress⟩ := h.held key id hkey
    obtain ⟨c', hc', hid', hplace⟩ := hlookup hcalls.symm hc
    exact ⟨c', hc', hid'.trans hid, (inProgress_congr hplace).mpr hprogress⟩
  · intro hdone hnodup id c hc hprogress
    obtain ⟨c', hc', hid', hplace⟩ := hlookup hcalls hc
    rw [hmap, ← hid']
    exact h.complete (hreader hdone) (hids ▸ hnodup) id c' hc'
      ((inProgress_congr hplace).mpr hprogress)

theorem getElem?_setCall {id j : ℕ} {call call' c : ClientCall}
    (hcall : w.calls[id]? = some call) (hc : (w.setCall id call').calls[j]? = some c) :
    (j = id ∧ c = call') ∨ (j ≠ id ∧ w.calls[j]? = some c) := by
  by_cases hj : j = id
  · subst hj
    have hlt : j < w.calls.length := (List.getElem?_eq_some_iff.mp hcall).1
    rw [WorkerClient.setCall, List.getElem?_set_self hlt] at hc
    exact .inl ⟨rfl, (Option.some.inj hc).symm⟩
  · rw [WorkerClient.setCall, List.getElem?_set_ne (Ne.symm hj)] at hc
    exact .inr ⟨hj, hc⟩

theorem ids_setCall {id : ℕ} {call call' : ClientCall} (hcall : w.calls[id]? = some call)
    (hid : call'.requestId = call.requestId) : (w.setCall id call').ids = w.ids := by
  obtain ⟨hlt, rfl⟩ := List.getElem?_eq_some_iff.mp hcall
  have hlt' : id < w.ids.length := by simpa [ids] using hlt
  have hget : w.ids[id] = call'.requestId := by simp [ids, hid]
  rw [ids, WorkerClient.setCall, List.map_set, ← hget]
  exact List.set_getElem_self hlt'

/-- Without repeated ids a call is known by its id. -/
theorem call_unique {id j : ℕ} {call c : ClientCall} (hnodup : w.ids.Nodup)
    (hcall : w.calls[id]? = some call) (hc : w.calls[j]? = some c)
    (heq : c.requestId = call.requestId) : j = id := by
  have hlt : j < w.ids.length := by
    simpa [ids] using (List.getElem?_eq_some_iff.mp hc).1
  exact (List.getElem?_inj hlt hnodup).mp (by simp [ids, hcall, hc, heq])

/-- A call moves, and is in progress after it if it was before. -/
theorem Entries.setCall {id : ℕ} {call call' : ClientCall} (h : Entries w)
    (hcall : w.calls[id]? = some call) (hid : call'.requestId = call.requestId)
    (hprogress : call'.InProgress ↔ call.InProgress) : Entries (w.setCall id call') := by
  have hlt : id < w.calls.length := (List.getElem?_eq_some_iff.mp hcall).1
  constructor
  · intro key j hj
    obtain ⟨c, hc, rfl, hc'⟩ := h.held key j hj
    by_cases hne : j = id
    · subst hne
      obtain rfl := Option.some.inj (hcall.symm.trans hc)
      exact ⟨call', by simp [WorkerClient.setCall, hlt], hid, hprogress.mpr hc'⟩
    · exact ⟨c, by rw [WorkerClient.setCall, List.getElem?_set_ne (Ne.symm hne), hc], rfl, hc'⟩
  · intro hdone hnodup j c hc hc'
    rw [ids_setCall hcall hid] at hnodup
    rcases getElem?_setCall hcall hc with ⟨rfl, rfl⟩ | ⟨-, hc⟩
    · rw [hid]
      exact h.complete hdone hnodup j call hcall (hprogress.mp hc')
    · exact h.complete hdone hnodup j c hc hc'

/-- A call registers. -/
theorem Entries.insert {id : ℕ} {call : ClientCall} (h : Entries w)
    (hcall : w.calls[id]? = some call) :
    Entries { w.setCall id { call with place := .registered } with
      inflight := w.inflight.set call.requestId id } := by
  have hlt : id < w.calls.length := (List.getElem?_eq_some_iff.mp hcall).1
  have hself : (w.setCall id { call with place := .registered }).calls[id]? =
      some { call with place := .registered } := by simp [WorkerClient.setCall, hlt]
  have hprogress : ({ call with place := .registered } : ClientCall).InProgress := by
    simp [ClientCall.InProgress, ClientCall.Registered]
  constructor
  · intro key j hj
    rw [Dict.get?_set] at hj
    by_cases hkey : key = call.requestId
    · rw [if_pos hkey] at hj
      obtain rfl := Option.some.inj hj
      exact ⟨_, hself, hkey.symm, hprogress⟩
    · rw [if_neg hkey] at hj
      obtain ⟨c, hc, rfl, hc'⟩ := h.held key j hj
      have hne : j ≠ id := by
        rintro rfl
        obtain rfl := Option.some.inj (hcall.symm.trans hc)
        exact hkey rfl
      refine ⟨c, ?_, rfl, hc'⟩
      rw [WorkerClient.setCall, List.getElem?_set_ne (Ne.symm hne), hc]
  · intro hdone hnodup j c hc hc'
    have hnodup' : w.ids.Nodup := by
      rwa [show ids { w.setCall id { call with place := .registered } with
        inflight := w.inflight.set call.requestId id } = w.ids from ids_setCall hcall rfl] at hnodup
    rcases getElem?_setCall hcall hc with ⟨rfl, rfl⟩ | ⟨hne, hc⟩
    · exact Dict.get?_set_self _ _
    · rw [Dict.get?_set, if_neg fun heq => hne (call_unique hnodup' hcall hc heq)]
      exact h.complete hdone hnodup' j c hc hc'

/-- A call leaves, and so does the entry of its id. -/
theorem Entries.leave {id : ℕ} {call : ClientCall} {result : CallResult} (h : Entries w)
    (hcall : w.calls[id]? = some call) :
    Entries { w.setCall id { call with place := .returned result } with
      inflight := w.inflight.pop call.requestId } := by
  constructor
  · intro key j hj
    rw [Dict.get?_pop] at hj
    split at hj
    case isTrue => cases hj
    case isFalse hkey =>
        obtain ⟨c, hc, rfl, hc'⟩ := h.held key j hj
        have hne : j ≠ id := by
          rintro rfl
          obtain rfl := Option.some.inj (hcall.symm.trans hc)
          exact hkey rfl
        refine ⟨c, ?_, rfl, hc'⟩
        rw [WorkerClient.setCall, List.getElem?_set_ne (Ne.symm hne), hc]
  · intro hdone hnodup j c hc hc'
    have hnodup' : w.ids.Nodup := by
      rwa [show ids { w.setCall id { call with place := .returned result } with
        inflight := w.inflight.pop call.requestId } = w.ids from ids_setCall hcall rfl] at hnodup
    rcases getElem?_setCall hcall hc with ⟨rfl, rfl⟩ | ⟨hne, hc⟩
    · exact absurd rfl (hc'.2 result)
    · rw [Dict.get?_pop, if_neg fun heq => hne (call_unique hnodup' hcall hc heq)]
      exact h.complete hdone hnodup' j c hc hc'

/-- A call that has no entry returns. -/
theorem Entries.lose {id : ℕ} {call call' : ClientCall} {result : CallResult} (h : Entries w)
    (hcall : w.calls[id]? = some call) (hid : call'.requestId = call.requestId)
    (hplace : call'.place = .returned result)
    (hentry : w.inflight.get? call.requestId ≠ some id) : Entries (w.setCall id call') := by
  constructor
  · intro key j hj
    obtain ⟨c, hc, rfl, hc'⟩ := h.held key j hj
    have hne : j ≠ id := by
      rintro rfl
      obtain rfl := Option.some.inj (hcall.symm.trans hc)
      exact hentry hj
    refine ⟨c, ?_, rfl, hc'⟩
    rw [WorkerClient.setCall, List.getElem?_set_ne (Ne.symm hne), hc]
  · intro hdone hnodup j c hc hc'
    rw [ids_setCall hcall hid] at hnodup
    rcases getElem?_setCall hcall hc with ⟨rfl, rfl⟩ | ⟨-, hc⟩
    · exact absurd hplace (hc'.2 result)
    · exact h.complete hdone hnodup j c hc hc'

/-- A step of a call keeps the entries right, if it does not leave by `?`. -/
theorem Entries.stepCall {id : ℕ} {call : ClientCall} {op : ClientOp} {w' : WorkerClient}
    (h : Entries w) (hcall : w.calls[id]? = some call)
    (hwrite : ∀ i result, op = .write i result → i = id) (hguard : Unregisters w op)
    (hop : w.stepCall id call op = some w') : Entries w' := by
  have hstays {call' : ClientCall} (hid : call'.requestId = call.requestId)
      (hbefore : call.InProgress) (hafter : call'.InProgress) : Entries (w.setCall id call') :=
    h.setCall hcall hid (by simp [hbefore, hafter])
  cases op with
  | load _ =>
      simp only [WorkerClient.stepCall] at hop
      split at hop
      case h_1 hplace =>
          have hnot : ¬ call.InProgress := fun hin => hin.1.1 hplace
          split at hop
          all_goals
            obtain rfl := Option.some.inj hop
            refine h.setCall hcall rfl (iff_of_false (fun hin => ?_) hnot)
          · exact hin.2 _ rfl
          · exact hin.1.2 rfl
      case h_2 => cases hop
  | insert _ =>
      simp only [WorkerClient.stepCall] at hop
      split at hop
      case h_1 =>
          obtain rfl := Option.some.inj hop
          exact h.insert hcall
      case h_2 => cases hop
  | write i result =>
      obtain rfl := hwrite i result rfl
      simp only [WorkerClient.stepCall] at hop
      split at hop
      case h_1 hplace =>
          have hin : call.InProgress := by
            simp [ClientCall.InProgress, ClientCall.Registered, hplace]
          obtain rfl := Option.some.inj hop
          rcases result with error | _
          · cases hkind : call.kind with
            | executeChat stream =>
                have hwritten : (call.written (.error error)).place = .returned (.failed error) := by
                  simp only [ClientCall.written, hkind]
                exact h.lose hcall (by simp) hwritten
                  (hguard call stream hcall hkind hplace)
            | benchmarkReset =>
                refine hstays (by simp) hin ?_
                simp [ClientCall.written, hkind, ClientCall.InProgress, ClientCall.Registered]
          · refine hstays (by simp) hin ?_
            simp [ClientCall.written, ClientCall.InProgress, ClientCall.Registered]
      case h_2 => cases hop
  | recv _ onDelta =>
      simp only [WorkerClient.stepCall] at hop
      split at hop
      case h_1 message rest hplace hchannel =>
          have hin : call.InProgress := by
            simp [ClientCall.InProgress, ClientCall.Registered, hplace]
          obtain rfl := Option.some.inj hop
          refine hstays (by simp) hin ?_
          rcases call.place_receive onDelta message rest with hp | ⟨result, hp⟩ <;>
            simp [ClientCall.InProgress, ClientCall.Registered, hp, hplace]
      case h_2 hplace hchannel =>
          have hdisconnected : Entries (w.setCall id { call with
              place := .unregistering (.failed (.protocol closedSocket)) }) :=
            hstays rfl (by simp [ClientCall.InProgress, ClientCall.Registered, hplace])
              (by simp [ClientCall.InProgress, ClientCall.Registered])
          split at hop <;> split at hop <;> cases hop <;> exact hdisconnected
      case h_3 => cases hop
  | unregister _ =>
      simp only [WorkerClient.stepCall] at hop
      split at hop
      case h_1 =>
          obtain rfl := Option.some.inj hop
          exact h.leave hcall
      case h_2 => cases hop
  | call _ _ | read _ | route | send | failAll | store => cases hop

/-- The reader touches the map only to empty it. -/
theorem Entries.stepReader {op : ClientOp} {w' : WorkerClient} (h : Entries w)
    (hop : w.stepReader decode op = some w') : Entries w' := by
  cases op with
  | read result =>
      simp only [WorkerClient.stepReader] at hop
      split at hop
      case h_1 hreader =>
          obtain rfl := Option.some.inj hop
          exact h.frame rfl (fun _ => by rw [hreader]; rfl) rfl
      case h_2 => cases hop
  | route =>
      simp only [WorkerClient.stepReader] at hop
      split at hop
      case h_1 event hreader =>
          split at hop
          all_goals
            obtain rfl := Option.some.inj hop
            exact h.frame rfl (fun _ => by rw [hreader]; rfl) rfl
      case h_2 => cases hop
  | send =>
      simp only [WorkerClient.stepReader] at hop
      split at hop
      case h_1 target event hreader =>
          obtain rfl := Option.some.inj hop
          refine h.frame rfl (fun _ => by rw [hreader]; rfl) ?_
          refine List.ext_getElem? fun j => ?_
          simp only [List.getElem?_map, List.getElem?_modify]
          cases w.calls[j]? with
          | none => rfl
          | some c => by_cases ht : target = j <;> simp [ht]
      case h_2 => cases hop
  | failAll =>
      simp only [WorkerClient.stepReader] at hop
      split at hop
      case h_1 =>
          obtain rfl := Option.some.inj hop
          exact ⟨fun _ _ hget => (by cases hget), fun hdone => (by cases hdone)⟩
      case h_2 => cases hop
  | store =>
      simp only [WorkerClient.stepReader] at hop
      split at hop
      case h_1 =>
          obtain rfl := Option.some.inj hop
          exact h.frame rfl (fun hdone => by cases hdone) rfl
      case h_2 => cases hop
  | call _ _ | load _ | insert _ | write _ _ | recv _ _ | unregister _ => cases hop

/-- A new call has no entry yet. -/
theorem Entries.call (h : Entries w) (requestId : String) (kind : CallKind) :
    Entries { w with calls := w.calls ++ [{ requestId := requestId, kind := kind }] } := by
  constructor
  · intro key id hid
    obtain ⟨c, hc, hrid, hprogress⟩ := h.held key id hid
    refine ⟨c, ?_, hrid, hprogress⟩
    rw [List.getElem?_append_left (List.getElem?_eq_some_iff.mp hc).1, hc]
  · intro hdone hnodup id c hc hprogress
    have hids : w.ids.Nodup := by
      have happend : (w.ids ++ [requestId]).Nodup := by simpa [ids] using hnodup
      exact happend.of_append_left
    rw [List.getElem?_append] at hc
    split at hc
    · exact h.complete hdone hids id c hc hprogress
    · obtain rfl := List.mem_singleton.mp (List.mem_of_getElem? hc)
      exact absurd rfl hprogress.1.1

theorem Entries.step (h : Entries w) {op : ClientOp} (hguard : Unregisters w op) :
    Entries (w.step decode op).2 := by
  simp only [WorkerClient.step]
  split
  case h_1 w' hop =>
      rcases step?_cases hop with
        ⟨id, call, hcall, hwrite, hstep⟩ | hstep | ⟨requestId, kind, -, rfl⟩
      · exact h.stepCall hcall hwrite hguard hstep
      · exact h.stepReader hstep
      · exact h.call requestId kind
  case h_2 => exact h

theorem entries_exec {ops : List ClientOp} (hops : Run.Each (step decode) Unregisters {} ops) :
    Entries (Run.exec (step decode) {} ops) := by
  have hstep : ∀ (w : WorkerClient) (op : ClientOp), Entries w → Unregisters w op →
      Entries (w.step decode op).2 := fun w op h hguard => h.step hguard
  exact Run.exec_invariant hstep entries_init hops

/-- A step that leaves by `?` leaves its entry behind. -/
theorem not_hygienic_of_leak {op : ClientOp} (henabled : (w.step decode op).1 = true)
    (hguard : ¬ Unregisters w op) : ¬ Hygienic (w.step decode op).2 := by
  cases op with
  | write id result =>
      rcases result with error | _
      · simp only [Unregisters, not_forall, not_not] at hguard
        obtain ⟨call, stream, hcall, hkind, hplace, hentry⟩ := hguard
        have hlt : id < w.calls.length := (List.getElem?_eq_some_iff.mp hcall).1
        have hwritten : (w.step decode (.write id (.error error))).2 =
            w.setCall id { call with place := .returned (.failed error) } := by
          simp [WorkerClient.step, WorkerClient.step?, hcall, WorkerClient.stepCall, hplace,
            ClientCall.written, hkind]
        rw [hwritten]
        intro h
        refine h.returned id { call with place := .returned (.failed error) } (.failed error) ?_
          rfl ?_
        · simp [WorkerClient.setCall, hlt]
        · exact Dict.mem_values.mpr ⟨_, Dict.get?_eq_some.mp hentry⟩
      · exact absurd trivial hguard
  | call _ _ | load _ | insert _ | recv _ _ | unregister _ | read _ | route | send | failAll
  | store => exact absurd trivial hguard

/-- **The map holds the calls in progress.** In a run in which no `execute_chat` fails to
write its command while it is in the map, every state is hygienic; the first step that fails
so leaves an entry behind. -/
theorem inflight_hygienic (decode : List Char → Except String WorkerEvent)
    (ops : List ClientOp) :
    (Run.Each (step decode) Unregisters {} ops →
      ∀ before, before <+: ops → Hygienic (Run.exec (step decode) {} before)) ∧
    ∀ op, ((Run.exec (step decode) {} ops).step decode op).1 = true →
      ¬ Unregisters (Run.exec (step decode) {} ops) op →
      ¬ Hygienic (Run.exec (step decode) {} (ops ++ [op])) := by
  refine ⟨fun hops before hbefore => ?_, fun op henabled hguard => ?_⟩
  · obtain ⟨after, rfl⟩ := hbefore
    exact (entries_exec hops.of_append).hygienic
  · rw [Run.exec_append]
    exact not_hygienic_of_leak henabled hguard

/-- A reset that could not be written takes itself out of the map. -/
def resetFails : List ClientOp :=
  [.call "benchmark-reset-1-0" .benchmarkReset, .load 0, .insert 0,
    .write 0 (.error (.io "Broken pipe")), .unregister 0]

theorem inflight_hygienic_reset : Run.Each (step garbled) Unregisters {} resetFails ∧
    ∀ before, before <+: resetFails → Hygienic (Run.exec (step garbled) {} before) := by
  have hops : Run.Each (step garbled) Unregisters {} resetFails := by
    refine ⟨trivial, trivial, trivial, fun call stream hcall hkind => ?_, trivial, trivial⟩
    obtain rfl := Option.some.inj hcall
    cases hkind
  exact ⟨hops, (inflight_hygienic garbled resetFails).1 hops⟩

/-- A chat whose command could not be written. -/
def chatFails : List ClientOp :=
  [.call "chat-1" (.executeChat true), .load 0, .insert 0,
    .write 0 (.error (.io "Broken pipe"))]

/-- It returned, and its entry is still in the map. -/
theorem entry_leaked : ¬ Hygienic (Run.exec (step garbled) {} chatFails) := by
  intro h
  exact h.returned 0 _ _ rfl rfl (by decide)

end WorkerClient
end MlxRuntime
