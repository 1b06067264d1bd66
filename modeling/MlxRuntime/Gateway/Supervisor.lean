import MlxRuntime.Gateway.WorkerClient
import MlxRuntime.Protocol.Status

/-!
# The supervisor of a worker

One thread bootstraps the worker and then monitors its process; the reader thread of the
client reads the events of the worker.  They share the status of the text model and the slot
of the client, each under a lock of its own.  A step is one section under a lock, one look at
the process, or a step of the client; the shutdown flag is not set from outside.

The lines of the bootstrap and the results of the system calls are inputs of the steps.  The
lifecycle of the VLM is left out: nothing here depends on it, and so is the end of a client
that is in nobody's hands any more.

## Main definitions

* `RuntimeState`, `RuntimeOp`, `RuntimeState.step` — the threads under any interleaving.
* `RuntimeState.Honest` — a model that is ready has a client, and one that is read from.
* `RuntimeState.Upholds` — the steps that keep it so.
* `RuntimeState.Inv` — the invariant: what is known in each place of the supervisor.
-/

namespace MlxRuntime

/-- The worker process: running, exited and not yet waited for, or waited for. -/
inductive WorkerProcess
  | running
  | exited
  | reaped
  deriving DecidableEq

/-- Where the supervisor thread is: before `set_state`, in the read loop, before
`mark_failed_with_error`, before the client is made, before it is put into the slot, before the
snapshot, before `set_status`, in the loop of `monitor_worker`, before and after the slot is
cleared for a process that exited; before the slot is cleared, before the snapshot and before
`mark_failed` for a bootstrap that failed; or gone. -/
inductive SupervisorPlace
  | starting
  | bootstrapping
  | rejecting (error : ModelError) (message : String)
  | connecting
  | installing (client : ℕ)
  | checking
  | announcing (status : ModelStatus)
  | monitoring
  | clearing
  | marking
  | failing (message : String)
  | failingCleared (message : String)
  | failingMark (message : String)
  | gone
  deriving DecidableEq

/-- `RuntimeState`, with the process, the clients made and the supervisor thread. -/
structure RuntimeState where
  modelStatus : ModelStatus
  workerClient : Option ℕ := none
  clients : List WorkerClient := []
  process : WorkerProcess := .running
  place : SupervisorPlace := .starting

/-- The steps. -/
inductive RuntimeOp
  /-- The process exits. -/
  | exit
  | start (now : ℕ)
  /-- `ensure_worker_running`; `status` is the exit status. -/
  | ensureRunning (status : String)
  /-- A line of the bootstrap, and what it decodes to. -/
  | line (text : List Char) (message : Option WorkerMessage)
  /-- The bootstrap fails otherwise: a system call, the deadline, the end of the stream. -/
  | fail (message : String)
  | reject (now : ℕ)
  /-- `set_read_timeout`, `try_clone` and `WorkerClient::new`. -/
  | connect (result : Except String Unit)
  | install
  | snapshot
  | announce (now : ℕ)
  /-- A round of `monitor_worker`; `error` is an error of `try_wait`. -/
  | poll (error : Option String)
  | clear
  | mark (now : ℕ)
  | client (id : ℕ) (op : ClientOp)

namespace RuntimeState

/-- `RuntimeState::new`. -/
def new (model : String) (now : ℕ) : RuntimeState := { modelStatus := .new model now }

variable (decode : List Char → Except String WorkerEvent)

/-- The loop body of `bootstrap_worker`, up to the next lock. -/
def handle (s : RuntimeState) (text : List Char) : Option WorkerMessage → RuntimeState
  | some (.status status) => { s with modelStatus := status }
  | some .ready => { s with place := .connecting }
  | some (.error error) =>
      match error.error with
      | some modelError => { s with place := .rejecting modelError error.message }
      | none => { s with place := .failing error.message }
  | none => { s with
      place := .failing ("unrecognized bootstrap message: " ++ String.ofList (trim text)) }

/-- A step, where it is enabled. -/
def step? (s : RuntimeState) : RuntimeOp → Option RuntimeState
  | .exit => if s.process = .running then some { s with process := .exited } else none
  | .start now =>
      match s.place with
      | .starting => some { s with
          modelStatus := s.modelStatus.setState .loadingWeights now, place := .bootstrapping }
      | _ => none
  | .ensureRunning status =>
      match s.place, s.process with
      | .bootstrapping, .running => some s
      | .bootstrapping, .exited => some { s with
          process := .reaped, place := .failing ("worker exited before ready: " ++ status) }
      | .bootstrapping, .reaped => some { s with place := .failing "worker process is not running" }
      | _, _ => none
  | .line text message =>
      match s.place with
      | .bootstrapping => some (s.handle text message)
      | _ => none
  | .fail message =>
      match s.place with
      | .bootstrapping => some { s with place := .failing message }
      | _ => none
  | .reject now =>
      match s.place with
      | .rejecting error message => some { s with
          modelStatus := s.modelStatus.markFailedWithError error now, place := .failing message }
      | _ => none
  | .connect result =>
      match s.place, result with
      | .connecting, .ok _ => some { s with
          clients := s.clients ++ [{}], place := .installing s.clients.length }
      | .connecting, .error message => some { s with place := .failing message }
      | _, _ => none
  | .install =>
      match s.place with
      | .installing client => some { s with workerClient := some client, place := .checking }
      | _ => none
  | .snapshot =>
      match s.place with
      | .checking => some { s with
          place := if s.modelStatus.ready then .monitoring else .announcing s.modelStatus }
      | .failingCleared message => some { s with
          place := if s.modelStatus.state = .failed then .gone else .failingMark message }
      | _ => none
  | .announce now =>
      match s.place with
      | .announcing status => some { s with
          modelStatus := status.markReady none none 1 now, place := .monitoring }
      | _ => none
  | .poll error =>
      match s.place, error, s.process with
      | .monitoring, none, .exited => some { s with process := .reaped, place := .clearing }
      | .monitoring, none, _ => some s
      | .monitoring, some _, _ => some { s with place := .clearing }
      | _, _, _ => none
  | .clear =>
      match s.place with
      | .clearing => some { s with workerClient := none, place := .marking }
      | .failing message => some { s with
          workerClient := none, place := .failingCleared message }
      | _ => none
  | .mark now =>
      match s.place with
      | .marking => some { s with
          modelStatus := s.modelStatus.markFailed "WORKER_EXITED" "worker process exited" now
          place := .gone }
      | .failingMark message => some { s with
          modelStatus := s.modelStatus.markFailed "WORKER_BOOTSTRAP_FAILED" message now
          place := .gone }
      | _ => none
  | .client id op =>
      (s.clients[id]?.bind fun c => c.step? decode op).map fun c =>
        { s with clients := s.clients.set id c }

/-- A step, answered with whether it was enabled. -/
def step (s : RuntimeState) (op : RuntimeOp) : Bool × RuntimeState :=
  match s.step? decode op with
  | some s' => (true, s')
  | none => (false, s)

/-- No thread has anything to do: the readers wait for the socket or are gone, and so does the
supervisor in the bootstrap, or it is gone, or it monitors a process that did not exit. -/
def Quiescent (s : RuntimeState) : Prop :=
  (s.place = .gone ∨ (s.place = .bootstrapping ∨ s.place = .monitoring) ∧ s.process ≠ .exited) ∧
    ∀ c ∈ s.clients, c.reader = .reading ∨ c.reader = .ended

/-- A text model that is ready has a client, and at rest the reader of the client is alive. -/
def Honest (s : RuntimeState) : Prop :=
  s.modelStatus.ready = true → ∃ id client, s.workerClient = some id ∧
    s.clients[id]? = some client ∧ (s.Quiescent → client.closed = false)

/-- The step does not make the status ready without a client, clear the slot of a model that is
ready, or store `closed` while the process runs. -/
def Upholds (s : RuntimeState) : RuntimeOp → Prop
  | .line _ (some (.status status)) => s.place = .bootstrapping → status.ready = false
  | .clear => s.place = .clearing → s.modelStatus.ready = false
  | .client id .store => ∀ c, s.clients[id]? = some c → c.reader = .drained →
      s.process ≠ .running
  | _ => True

/-! ## The invariant -/

end RuntimeState

/-- The places in which the client is in the slot. -/
@[simp] def SupervisorPlace.Serving : SupervisorPlace → Prop
  | .checking | .announcing _ | .monitoring | .clearing => True
  | _ => False

/-- The places in which there is a client. -/
@[simp] def SupervisorPlace.Connected (place : SupervisorPlace) : Prop :=
  place.Serving ∨ ∃ id, place = .installing id

/-- The places in which the process was perhaps waited for. -/
def SupervisorPlace.Waited : SupervisorPlace → Prop
  | .clearing | .marking | .failing _ | .failingCleared _ | .failingMark _ | .gone => True
  | _ => False

namespace RuntimeState

variable {decode : List Char → Except String WorkerEvent} {s : RuntimeState}

/-- What is known in each place of the supervisor. -/
structure Inv (s : RuntimeState) : Prop where
  clients : ∀ c ∈ s.clients, c.Inv
  /-- A reader is gone only when the process is. -/
  closed : ∀ c ∈ s.clients, c.closed = true → s.process ≠ .running
  ready : s.modelStatus.ready = true → s.place.Serving
  single : s.clients.length ≤ 1
  made : s.clients ≠ [] → s.place.Connected
  slot : ∀ id, s.workerClient = some id → s.place.Serving
  serving : s.place.Serving → s.workerClient = some 0 ∧ s.clients ≠ []
  installing : ∀ id, s.place = .installing id → id = 0 ∧ s.clients ≠ []
  served : s.place = .monitoring ∨ s.place = .clearing → s.modelStatus.ready = true
  waited : s.process = .reaped → s.place.Waited

theorem Inv.honest (h : Inv s) : Honest s := by
  intro hready
  have hserving := h.ready hready
  obtain ⟨hslot, hmade⟩ := h.serving hserving
  obtain ⟨c, rest, hclients⟩ := List.exists_cons_of_ne_nil hmade
  refine ⟨0, c, hslot, by rw [hclients]; rfl, fun hquiet => ?_⟩
  by_contra hclosed
  have hstopped := h.closed c (by rw [hclients]; exact List.mem_cons_self) (by simpa using hclosed)
  rcases hquiet.1 with hplace | ⟨hplace | hplace, hexited⟩
  · rw [hplace] at hserving
    exact hserving
  · rw [hplace] at hserving
    exact hserving
  · cases hprocess : s.process with
    | running => exact hstopped hprocess
    | exited => exact hexited hprocess
    | reaped =>
        have hwaited := h.waited hprocess
        rw [hplace] at hwaited
        exact hwaited

theorem inv_new (model : String) (now : ℕ) : Inv (new model now) where
  clients := nofun
  closed := nofun
  ready := nofun
  single := by simp [new]
  made h := absurd rfl h
  slot := nofun
  serving := nofun
  installing := nofun
  served := by rintro (hp | hp) <;> cases hp
  waited := nofun

theorem Inv.not_ready (h : Inv s) (hplace : ¬ s.place.Connected) :
    s.modelStatus.ready = false := by
  by_contra hready
  exact hplace (.inl (h.ready (by simpa using hready)))

theorem Inv.no_client (h : Inv s) (hplace : ¬ s.place.Connected) :
    s.clients = [] ∧ s.workerClient = none := by
  refine ⟨by_contra fun hne => hplace (h.made hne), ?_⟩
  cases hslot : s.workerClient with
  | none => rfl
  | some id => exact absurd (.inl (h.slot id hslot)) hplace

theorem Inv.not_reaped (h : Inv s) (hplace : ¬ s.place.Waited) : s.process ≠ .reaped :=
  fun hreaped => hplace (h.waited hreaped)

/-- The supervisor moves among the places without a client. -/
theorem Inv.idle {s' : RuntimeState} (h : Inv s) (hplace : ¬ s.place.Connected)
    (hclients : s'.clients = s.clients) (hslot : s.workerClient = none → s'.workerClient = none)
    (hready : s.modelStatus.ready = false → s'.modelStatus.ready = false)
    (hconnected : ¬ s'.place.Connected) (hwaited : s'.process = .reaped → s'.place.Waited) :
    Inv s' := by
  obtain ⟨hempty, hnone⟩ := h.no_client hplace
  have hempty' : s'.clients = [] := hclients.trans hempty
  refine ⟨?_, ?_, fun hr => ?_, ?_, fun hne => absurd hempty' hne, fun id hid => ?_,
    fun hs => absurd (.inl hs) hconnected, fun id hid => absurd (.inr ⟨id, hid⟩) hconnected,
    fun hp => absurd (.inl ?_) hconnected, hwaited⟩
  · rw [hempty']
    exact nofun
  · rw [hempty']
    exact nofun
  · rw [hready (h.not_ready hplace)] at hr
    cases hr
  · rw [hempty']
    simp
  · rw [hslot hnone] at hid
    cases hid
  · rcases hp with hp | hp <;> rw [hp] <;> trivial

/-- The supervisor moves among the places in which the client is in the slot. -/
theorem Inv.serve {s' : RuntimeState} (h : Inv s) (hclients : s'.clients = s.clients)
    (hprocess : s'.process = .running → s.process = .running)
    (hslot : s'.workerClient = some 0 ∧ s.clients ≠ []) (hserving : s'.place.Serving)
    (hserved : s'.place = .monitoring ∨ s'.place = .clearing → s'.modelStatus.ready = true)
    (hwaited : s'.process = .reaped → s'.place.Waited) : Inv s' where
  clients := hclients ▸ h.clients
  closed _ hc hclosed hrunning := h.closed _ (hclients ▸ hc) hclosed (hprocess hrunning)
  ready _ := hserving
  single := hclients ▸ h.single
  made _ := .inl hserving
  slot _ _ := hserving
  serving _ := hclients ▸ hslot
  installing id hid := absurd hserving (by rw [hid]; exact not_false)
  served := hserved
  waited := hwaited

/-- A client moves: only when the process is gone may it store `closed`. -/
theorem Inv.client {id : ℕ} {c' : WorkerClient} (h : Inv s) (hc' : c'.Inv)
    (hclosed : c'.closed = true → s.process ≠ .running) :
    Inv { s with clients := s.clients.set id c' } where
  clients d hd := by
    rcases List.mem_or_eq_of_mem_set hd with hd | rfl
    · exact h.clients d hd
    · exact hc'
  closed d hd hdc := by
    rcases List.mem_or_eq_of_mem_set hd with hd | rfl
    · exact h.closed d hd hdc
    · exact hclosed hdc
  ready := h.ready
  single := by simpa using h.single
  made hne := h.made fun hempty => hne (by simp [hempty])
  slot := h.slot
  serving hs := ⟨(h.serving hs).1, by simpa using (h.serving hs).2⟩
  installing i hi := ⟨(h.installing i hi).1, by simpa using (h.installing i hi).2⟩
  served := h.served
  waited := h.waited

theorem Inv.exit (h : Inv s) : Inv { s with process := .exited } where
  clients := h.clients
  closed _ _ _ := nofun
  ready := h.ready
  single := h.single
  made := h.made
  slot := h.slot
  serving := h.serving
  installing := h.installing
  served := h.served
  waited := nofun

/-- A client is made; its reader has read nothing. -/
theorem Inv.connect (h : Inv s) (hplace : s.place = .connecting) : Inv { s with
    clients := s.clients ++ [{}], place := .installing s.clients.length } := by
  have hconnected : ¬ s.place.Connected := by simp [hplace]
  obtain ⟨hempty, hnone⟩ := h.no_client hconnected
  have hreaped : s.process ≠ .reaped := h.not_reaped (by rw [hplace]; exact not_false)
  refine ⟨fun c hc => ?_, fun c hc hclosed => ?_, fun hr => ?_, by simp [hempty],
    fun _ => .inr ⟨_, rfl⟩, fun id hid => ?_, nofun, fun id hid => ?_, ?_,
    fun hr => absurd hr hreaped⟩
  · obtain rfl : c = {} := by simpa [hempty] using hc
    exact WorkerClient.inv_init
  · obtain rfl : c = {} := by simpa [hempty] using hc
    cases hclosed
  · rw [h.not_ready hconnected] at hr
    cases hr
  · rw [hnone] at hid
    cases hid
  · obtain rfl := SupervisorPlace.installing.inj hid
    simp [hempty]
  · rintro (hp | hp) <;> cases hp

/-- A line of the bootstrap: a status that is not ready, or a change of place. -/
theorem Inv.handle {text : List Char} {message : Option WorkerMessage} (h : Inv s)
    (hplace : s.place = .bootstrapping)
    (hstatus : ∀ status, message = some (.status status) → status.ready = false) :
    Inv (s.handle text message) := by
  have hconnected : ¬ s.place.Connected := by simp [hplace]
  have hreaped : s.process ≠ .reaped := h.not_reaped (by rw [hplace]; exact not_false)
  have hmove (place : SupervisorPlace) (hp : ¬ place.Connected) :
      Inv { s with place := place } :=
    h.idle hconnected rfl id id hp fun hr => absurd hr hreaped
  rcases message with _ | status | _ | error
  · exact hmove _ (by simp)
  · exact h.idle hconnected rfl id (fun _ => hstatus status rfl) hconnected
      fun hr => absurd hr hreaped
  · exact hmove _ (by simp)
  · simp only [RuntimeState.handle]
    split <;> exact hmove _ (by simp)

theorem Inv.step? {op : RuntimeOp} {s' : RuntimeState} (h : Inv s) (hop : Upholds s op)
    (hstep : s.step? decode op = some s') : Inv s' := by
  cases op with
  | exit =>
      simp only [RuntimeState.step?] at hstep
      split at hstep
      case isTrue =>
          obtain rfl := Option.some.inj hstep
          exact h.exit
      case isFalse => cases hstep
  | start now =>
      simp only [RuntimeState.step?] at hstep
      split at hstep <;> cases hstep
      case h_1 hplace =>
          have hreaped := h.not_reaped (by rw [hplace]; exact not_false)
          exact h.idle (by simp [hplace]) rfl id (by simp) (by simp) fun hr => absurd hr hreaped
  | ensureRunning status =>
      simp only [RuntimeState.step?] at hstep
      split at hstep <;> cases hstep
      case h_1 => exact h
      case h_2 hplace _ => exact h.idle (by simp [hplace]) rfl id id (by simp) fun _ => trivial
      case h_3 hplace _ => exact h.idle (by simp [hplace]) rfl id id (by simp) fun _ => trivial
  | line text message =>
      simp only [RuntimeState.step?] at hstep
      split at hstep <;> cases hstep
      case h_1 hplace =>
          refine h.handle hplace fun status hmessage => ?_
          subst hmessage
          exact hop hplace
  | fail message =>
      simp only [RuntimeState.step?] at hstep
      split at hstep <;> cases hstep
      case h_1 hplace => exact h.idle (by simp [hplace]) rfl id id (by simp) fun _ => trivial
  | reject now =>
      simp only [RuntimeState.step?] at hstep
      split at hstep <;> cases hstep
      case h_1 error message hplace =>
          exact h.idle (by simp [hplace]) rfl id (fun _ => rfl) (by simp) fun _ => trivial
  | connect result =>
      simp only [RuntimeState.step?] at hstep
      split at hstep <;> cases hstep
      case h_1 hplace => exact h.connect hplace
      case h_2 hplace => exact h.idle (by simp [hplace]) rfl id id (by simp) fun _ => trivial
  | install =>
      simp only [RuntimeState.step?] at hstep
      split at hstep <;> cases hstep
      case h_1 client hplace =>
          obtain ⟨rfl, hclients⟩ := h.installing client hplace
          have hreaped := h.not_reaped (by rw [hplace]; exact not_false)
          exact h.serve rfl id ⟨rfl, hclients⟩ trivial (by simp) fun hr => absurd hr hreaped
  | snapshot =>
      simp only [RuntimeState.step?] at hstep
      split at hstep <;> cases hstep
      case h_1 hplace =>
          have hserving := h.serving (by rw [hplace]; trivial)
          have hreaped := h.not_reaped (by rw [hplace]; exact not_false)
          by_cases hready : s.modelStatus.ready
          · simp only [hready, if_true]
            exact h.serve rfl id hserving trivial (fun _ => hready) fun hr => absurd hr hreaped
          · simp only [hready]
            exact h.serve rfl id hserving trivial (by simp) fun hr => absurd hr hreaped
      case h_2 hplace =>
          split
          all_goals exact h.idle (by simp [hplace]) rfl id id (by simp) fun _ => trivial
  | announce now =>
      simp only [RuntimeState.step?] at hstep
      split at hstep <;> cases hstep
      case h_1 status hplace =>
          have hserving := h.serving (by rw [hplace]; trivial)
          have hreaped := h.not_reaped (by rw [hplace]; exact not_false)
          exact h.serve rfl id hserving trivial (fun _ => by simp) fun hr => absurd hr hreaped
  | poll error =>
      simp only [RuntimeState.step?] at hstep
      split at hstep <;> cases hstep
      case h_1 _ hplace _ =>
          have hserving := h.serving (by rw [hplace]; trivial)
          have hready := h.served (.inl hplace)
          exact h.serve rfl nofun hserving trivial (fun _ => hready) fun _ => trivial
      case h_2 => exact h
      case h_3 _ hplace =>
          have hserving := h.serving (by rw [hplace]; trivial)
          have hready := h.served (.inl hplace)
          exact h.serve rfl id hserving trivial (fun _ => hready) fun _ => trivial
  | clear =>
      simp only [RuntimeState.step?] at hstep
      split at hstep <;> cases hstep
      case h_1 hplace =>
          have hready := hop hplace
          rw [h.served (.inr hplace)] at hready
          cases hready
      case h_2 message hplace =>
          exact h.idle (by simp [hplace]) rfl (fun _ => rfl) id (by simp) fun _ => trivial
  | mark now =>
      simp only [RuntimeState.step?] at hstep
      split at hstep <;> cases hstep
      case h_1 hplace =>
          exact h.idle (by simp [hplace]) rfl id (fun _ => rfl) (by simp) fun _ => trivial
      case h_2 hplace =>
          exact h.idle (by simp [hplace]) rfl id (fun _ => rfl) (by simp) fun _ => trivial
  | client id op =>
      simp only [RuntimeState.step?] at hstep
      obtain ⟨c', hc', rfl⟩ := Option.map_eq_some_iff.mp hstep
      obtain ⟨c, hc, hclient⟩ := Option.bind_eq_some_iff.mp hc'
      have hmem := List.mem_of_getElem? hc
      refine h.client ((h.clients c hmem).step? hclient) fun hclosed => ?_
      rcases WorkerClient.closed_step? hclient hclosed with hclosed | ⟨rfl, hdrained⟩
      · exact h.closed c hmem hclosed
      · exact hop c hc hdrained

theorem Inv.step (h : Inv s) {op : RuntimeOp} (hop : Upholds s op) :
    Inv (s.step decode op).2 := by
  simp only [RuntimeState.step]
  split
  case h_1 s' hstep => exact h.step? hop hstep
  case h_2 => exact h

theorem inv_exec {model : String} {now : ℕ} {ops : List RuntimeOp}
    (hops : Run.Each (step decode) Upholds (new model now) ops) :
    Inv (Run.exec (step decode) (new model now) ops) := by
  have hstep : ∀ (s : RuntimeState) (op : RuntimeOp), Inv s → Upholds s op →
      Inv (s.step decode op).2 := fun s op h hop => h.step hop
  exact Run.exec_invariant hstep (inv_new model now) hops

/-! ## Models that are not honestly ready -/

/-- A model that is ready has no client. -/
theorem not_honest_of_none (hready : s.modelStatus.ready = true) (hslot : s.workerClient = none) :
    ¬ Honest s := by
  intro h
  obtain ⟨id, c, hid, -⟩ := h hready
  rw [hslot] at hid
  cases hid

/-- Nothing watches the reader of a client. -/
theorem not_honest_of_closed {c : WorkerClient} (hready : s.modelStatus.ready = true)
    (hslot : s.workerClient = some 0) (hclients : s.clients = [c]) (hreader : c.reader = .ended)
    (hclosed : c.closed = true) (hplace : s.place = .monitoring) (hprocess : s.process = .running) :
    ¬ Honest s := by
  intro h
  obtain ⟨id, c', hid, hc', hquiet⟩ := h hready
  obtain rfl : 0 = id := Option.some.inj (hslot.symm.trans hid)
  obtain rfl : c = c' := by simpa [hclients] using hc'
  have hquiescent : Quiescent s := by
    refine ⟨.inr ⟨.inr hplace, by simp [hprocess]⟩, fun d hd => .inr ?_⟩
    obtain rfl : d = c := by simpa [hclients] using hd
    exact hreader
  rw [hquiet hquiescent] at hclosed
  cases hclosed

/-- The supervisor goes on with what it was about to do. -/
def settle : List RuntimeOp := [.install, .snapshot, .announce 0, .clear]

/-- A client whose reader is gone stays in the slot of a model that is, or will be, ready. -/
theorem Inv.not_honest_settle {c : WorkerClient} (h : Inv s) (hclients : s.clients = [c])
    {c' : WorkerClient} (hreader : c'.reader = .ended) (hclosed : c'.closed = true)
    (hprocess : s.process = .running) :
    ¬ Honest (Run.exec (RuntimeState.step decode) { s with clients := [c'] } settle) := by
  have hconnected := h.made (by simp [hclients])
  simp only [settle, Run.exec_cons, Run.exec_nil]
  cases hplace : s.place with
  | installing id =>
      obtain ⟨rfl, -⟩ := h.installing id hplace
      have hready : s.modelStatus.ready = false := by
        have hserving := h.ready
        rw [hplace] at hserving
        simpa using hserving
      simp only [RuntimeState.step, RuntimeState.step?, hready]
      exact not_honest_of_closed (by simp) rfl rfl hreader hclosed rfl hprocess
  | checking =>
      obtain ⟨hslot, -⟩ := h.serving (by rw [hplace]; trivial)
      by_cases hready : s.modelStatus.ready = true
      · simp only [RuntimeState.step, RuntimeState.step?, hready, if_true]
        exact not_honest_of_closed hready hslot rfl hreader hclosed rfl hprocess
      · simp only [RuntimeState.step, RuntimeState.step?, hready]
        exact not_honest_of_closed (by simp) hslot rfl hreader hclosed rfl hprocess
  | announcing status =>
      obtain ⟨hslot, -⟩ := h.serving (by rw [hplace]; trivial)
      simp only [RuntimeState.step, RuntimeState.step?]
      exact not_honest_of_closed (by simp) hslot rfl hreader hclosed rfl hprocess
  | monitoring =>
      obtain ⟨hslot, -⟩ := h.serving (by rw [hplace]; trivial)
      simp only [RuntimeState.step, RuntimeState.step?]
      exact not_honest_of_closed (h.served (.inl hplace)) hslot rfl hreader hclosed rfl hprocess
  | clearing =>
      simp only [RuntimeState.step, RuntimeState.step?]
      exact not_honest_of_none (h.served (.inr hplace)) rfl
  | starting | bootstrapping | rejecting error message | connecting | marking
  | failing message | failingCleared message | failingMark message | gone =>
      simp [hplace] at hconnected

/-- **Readiness.** In a run whose steps uphold it, every state is honest.  After a step that does
not, the supervisor reaches a state that is not by going on. -/
theorem honest_of_upholds (decode : List Char → Except String WorkerEvent) (model : String)
    (now : ℕ) (ops : List RuntimeOp)
    (hops : Run.Each (step decode) Upholds (new model now) ops) :
    (∀ before, before <+: ops → Honest (Run.exec (step decode) (new model now) before)) ∧
    ∀ op, ((Run.exec (step decode) (new model now) ops).step decode op).1 = true →
      ¬ Upholds (Run.exec (step decode) (new model now) ops) op →
      ∃ more, ¬ Honest (Run.exec (step decode) (new model now) (ops ++ op :: more)) := by
  refine ⟨fun before hbefore => ?_, fun op henabled hop => ?_⟩
  · obtain ⟨after, rfl⟩ := hbefore
    exact (inv_exec hops.of_append).honest
  · have h := inv_exec hops
    generalize hs : Run.exec (step decode) (new model now) ops = s at h henabled hop
    have hexec (more : List RuntimeOp) :
        Run.exec (step decode) (new model now) (ops ++ op :: more) =
          Run.exec (step decode) (s.step decode op).2 more := by
      rw [Run.exec_append, hs, Run.exec_cons]
    cases op with
    | line text message =>
        rcases message with _ | status | _ | error
        · exact absurd trivial hop
        · simp only [Upholds, Classical.not_imp, Bool.not_eq_false] at hop
          obtain ⟨hplace, hready⟩ := hop
          refine ⟨[], ?_⟩
          have hslot := (h.no_client (by simp [hplace])).2
          rw [hexec, Run.exec_nil]
          simp only [step, step?, hplace, handle]
          exact not_honest_of_none hready hslot
        · exact absurd trivial hop
        · exact absurd trivial hop
    | clear =>
        simp only [Upholds, Classical.not_imp, Bool.not_eq_false] at hop
        obtain ⟨hplace, hready⟩ := hop
        refine ⟨[], ?_⟩
        rw [hexec, Run.exec_nil]
        simp only [step, step?, hplace]
        exact not_honest_of_none hready rfl
    | client id op =>
        cases op with
        | store =>
            simp only [Upholds, not_forall, not_not] at hop
            obtain ⟨c, hc, hdrained, hprocess⟩ := hop
            obtain ⟨rfl, hclients⟩ : id = 0 ∧ s.clients = [c] := by
              have hlt := (List.getElem?_eq_some_iff.mp hc).1
              have hsingle := h.single
              obtain rfl : id = 0 := by omega
              refine ⟨rfl, ?_⟩
              obtain ⟨d, hd⟩ := List.length_eq_one_iff.mp (show s.clients.length = 1 by omega)
              simpa [hd] using hc
            refine ⟨settle, ?_⟩
            have hstep : (s.step decode (.client 0 .store)).2 =
                { s with clients := [{ c with reader := .ended, closed := true }] } := by
              simp [step, step?, hclients, WorkerClient.step?, WorkerClient.stepReader, hdrained]
            rw [hexec, hstep]
            exact h.not_honest_settle hclients rfl rfl hprocess
        | _ => exact absurd trivial hop
    | _ => exact absurd trivial hop

/-- A worker that says `READY`, and then a line that is no event. -/
def garbledWorker : List RuntimeOp :=
  [.start 0, .line "READY".toList (some .ready), .connect (.ok ()), .install, .snapshot,
    .announce 1, .client 0 (.read (.line ['x', '\n'])), .client 0 .failAll]

/-- It is honest up to the last step of the reader. -/
theorem honest_garbledWorker :
    Run.Each (step WorkerClient.garbled) Upholds (new "m" 0) garbledWorker ∧
    ∀ before, before <+: garbledWorker →
      Honest (Run.exec (step WorkerClient.garbled) (new "m" 0) before) := by
  have hops : Run.Each (step WorkerClient.garbled) Upholds (new "m" 0) garbledWorker :=
    ⟨trivial, trivial, trivial, trivial, trivial, trivial, trivial, trivial, trivial⟩
  exact ⟨hops, (honest_of_upholds WorkerClient.garbled "m" 0 garbledWorker hops).1⟩

/-- After it the model is ready for ever, and its client closed. -/
theorem not_honest_garbledWorker : ¬ Honest (Run.exec (step WorkerClient.garbled) (new "m" 0)
    (garbledWorker ++ [.client 0 .store])) :=
  not_honest_of_closed rfl rfl rfl rfl rfl rfl rfl

end RuntimeState
end MlxRuntime
