import MlxRuntime.Gateway.Config
import MlxRuntime.Lib.Run
import MlxRuntime.Protocol.Status

/-!
# Stopping a managed instance

`launchd` keeps one process of the instance running while its agent is loaded, under a new pid
after each exit; a process it started may outlive the agent.  `stop` asks for the pid, disables
and unloads the agent, waits until that process is gone and removes the socket and the instance
directory.  Every command of it may fail or be cut off, processes come and go between two of
its steps, and several calls may be on their way at once.

When the agent is already unloaded the pid is the one `start` recorded, which a restart does
not update.

## Main definitions

* `StopPlace` — where a call of `stop` stands.
* `ManagedInstance.step?` — one step of the processes or of a call.
* `ManagedInstance.Guarantee` — what a call that returned promises.
* `ManagedInstance.Knows` — the steps after which the call still knows every live process.
-/

namespace MlxRuntime

/-- A process identifier. -/
abbrev Pid := ℕ

/-- `CommandResult`. -/
structure CommandResult where
  success : Bool
  stdout : List Char := []
  stderr : List Char := []

/-- What `CommandRunner::run` answers; the error is its text. -/
abbrev CommandReply := Except String CommandResult

/-- The fields of `instance.json` that `stop` reads. -/
structure InstanceMetadata where
  pid : Option Pid
  gatewayExecutable : List Char
  deriving DecidableEq

/-- `ServiceStatus`. -/
structure ServiceStatus where
  loaded : Bool
  pid : Option Pid

/-- `InstanceError`, of kind `Launchd`. -/
structure InstanceError where
  message : String
  deriving DecidableEq

/-- `command_failure`. -/
def commandFailure (action : String) (result : CommandResult) : InstanceError :=
  let detail := if trim result.stderr = [] then trim result.stdout else trim result.stderr
  let detail := if detail = [] then "no output" else String.ofList detail
  ⟨"failed to " ++ action ++ ": " ++ detail⟩

/-- `run_required`. -/
def runRequired (reply : CommandReply) (action : String) : Except InstanceError Unit :=
  match reply with
  | .error text => .error ⟨text⟩
  | .ok result => if result.success then .ok () else .error (commandFailure action result)

/-- `str::parse::<u32>`. -/
def parseU32 (raw : List Char) : Option ℕ :=
  let digits := (stripPrefix '+' raw).getD raw
  if digits ≠ [] ∧ digits.all Char.isDigit = true ∧ digitsValue digits < 2 ^ 32 then
    some (digitsValue digits)
  else none

/-- `parse_service_status`. -/
def parseServiceStatus (output : List Char) : ServiceStatus where
  loaded := true
  pid := (RuntimeConfig.rustLines output).foldl (fun pid line =>
    match splitOnce '=' (trim line) with
    | none => pid
    | some (key, value) =>
        if trim key = "pid".toList ∧ pid = none then parseU32 (trim value) else pid) none

/-- `InstanceManager::query_service`. -/
def queryService (reply : CommandReply) : Except InstanceError ServiceStatus :=
  match reply with
  | .error text => .error ⟨text⟩
  | .ok result =>
      if result.success then .ok (parseServiceStatus result.stdout)
      else .ok { loaded := false, pid := none }

/-- `InstanceManager::process_is_alive`. -/
def processIsAlive (reply : CommandReply) : Except InstanceError Bool :=
  match reply with
  | .error text => .error ⟨text⟩
  | .ok result => .ok result.success

/-- `InstanceManager::process_matches`. -/
def processMatches (executable : List Char) (reply : CommandReply) : Except InstanceError Bool :=
  match reply with
  | .error text => .error ⟨text⟩
  | .ok result => .ok (result.success && trim result.stdout == executable)

/-- Where a call of `stop` stands: the command it is about to run, or what it returned. -/
inductive StopPlace
  /-- Before `launchctl print`, with the metadata it read. -/
  | querying (metadata : Option InstanceMetadata)
  /-- Before `launchctl disable`. -/
  | disabling (metadata : Option InstanceMetadata) (status : ServiceStatus)
  /-- Before `launchctl bootout`. -/
  | unloading (status : ServiceStatus)
  /-- Before `ps -p`. -/
  | matching (status : ServiceStatus) (stale : Pid) (executable : List Char)
  /-- Before `kill -TERM`. -/
  | terminating (stale : Pid)
  /-- Before a `kill -0` of `wait_until_stopped`. -/
  | waiting (pid : Pid)
  /-- Before `remove_socket`. -/
  | removingSocket
  /-- Before `remove_dir_all`. -/
  | removingDirectory
  /-- Back at the caller. -/
  | returned (result : Except InstanceError String)

/-- `std::fs::remove_file` on the socket. -/
inductive RemoveFile
  | removed
  | notFound
  | failed (text : String)

namespace StopPlace

/-- `if let Some(pid) = pid { self.wait_until_stopped(pid)?; }`. -/
def waitFor : Option Pid → StopPlace
  | some pid => .waiting pid
  | none => .removingSocket

def afterQuery (metadata : Option InstanceMetadata) (reply : CommandReply) : StopPlace :=
  match queryService reply with
  | .error error => .returned (.error error)
  | .ok status => .disabling metadata status

def afterDisable (metadata : Option InstanceMetadata) (status : ServiceStatus)
    (reply : CommandReply) : StopPlace :=
  match runRequired reply "disable launchd restart" with
  | .error error => .returned (.error error)
  | .ok () =>
      if status.loaded then .unloading status
      else
        match metadata with
        | some { pid := some stale, gatewayExecutable } => .matching status stale gatewayExecutable
        | _ => waitFor status.pid

def afterBootout (status : ServiceStatus) (reply : CommandReply) : StopPlace :=
  match runRequired reply "unload launch agent" with
  | .error error => .returned (.error error)
  | .ok () => waitFor status.pid

def afterMatch (status : ServiceStatus) (stale : Pid) (executable : List Char)
    (reply : CommandReply) : StopPlace :=
  match processMatches executable reply with
  | .error error => .returned (.error error)
  | .ok found => if found then .terminating stale else waitFor status.pid

def afterTerminate (stale : Pid) (reply : CommandReply) : StopPlace :=
  match runRequired reply "terminate orphaned instance process" with
  | .error error => .returned (.error error)
  | .ok () => waitFor (some stale)

/-- One round of `wait_until_stopped`; `expired` says the deadline has passed. -/
def afterPoll (pid : Pid) (reply : CommandReply) (expired : Bool) : StopPlace :=
  match processIsAlive reply with
  | .error error => .returned (.error error)
  | .ok alive =>
      if alive then
        if expired then .returned (.error ⟨"instance process " ++ toString pid ++
          " did not stop within the shutdown timeout"⟩)
        else .waiting pid
      else .removingSocket

def afterRemoveSocket : RemoveFile → StopPlace
  | .removed | .notFound => .removingDirectory
  | .failed text => .returned (.error ⟨"remove instance socket: " ++ text⟩)

def afterRemoveDirectory (name : String) : Except String Unit → StopPlace
  | .error text => .returned (.error ⟨"remove managed instance state: " ++ text⟩)
  | .ok () => .returned (.ok ("Stopped " ++ name ++ "\n"))

end StopPlace

/-- An instance that was started: `launchd`'s side of it, its files, and the calls of `stop`. -/
structure ManagedInstance where
  name : String
  /-- The agent is loaded. -/
  loaded : Bool
  /-- The process `launchd` holds for the agent. -/
  current : Option Pid
  /-- Every live process that `launchd` ran for the instance. -/
  live : List Pid
  directory : Bool
  /-- What reading `instance.json` gives. -/
  metadata : Option InstanceMetadata
  socket : Bool
  stops : List StopPlace := []
  /-- Some call has run `remove_dir_all`. -/
  removed : Bool := false

/-- What can happen to an instance. -/
inductive InstanceOp
  | exits (pid : Pid)
  | restarts (pid : Pid)
  | binds
  | stop (readable : Bool)
  | query (id : ℕ) (reply : CommandReply)
  | disable (id : ℕ) (reply : CommandReply)
  | bootout (id : ℕ) (reply : CommandReply) (unloads : Bool)
  | ps (id : ℕ) (reply : CommandReply)
  | terminate (id : ℕ) (reply : CommandReply)
  | poll (id : ℕ) (reply : CommandReply) (expired : Bool)
  | removeSocket (id : ℕ) (result : RemoveFile)
  | removeDirectory (id : ℕ) (result : Except String Unit) (keepsMetadata : Bool)

/-- The command ran, and `success` is how it ended. -/
def CommandReply.Ended (success : Bool) : CommandReply → Prop
  | .error _ => False
  | .ok result => result.success = success

instance (success : Bool) : DecidablePred (CommandReply.Ended success)
  | .error _ => inferInstanceAs (Decidable False)
  | .ok result => inferInstanceAs (Decidable (result.success = success))

namespace ManagedInstance

/-- An instance whose `start` has just returned. -/
def started (name : String) (pid : Pid) (executable : List Char) : ManagedInstance where
  name := name
  loaded := true
  current := some pid
  live := [pid]
  directory := true
  metadata := some { pid := some pid, gatewayExecutable := executable }
  socket := true

/-- A call goes on. -/
def moved (w : ManagedInstance) (id : ℕ) (place : StopPlace) : ManagedInstance :=
  { w with stops := w.stops.set id place }

/-- `launchctl print` succeeds only on a loaded agent, and reports its process. -/
def Reports (w : ManagedInstance) : CommandReply → Prop
  | .ok { success := true, stdout, .. } =>
      w.loaded = true ∧ (parseServiceStatus stdout).pid = w.current
  | _ => True

instance (w : ManagedInstance) : DecidablePred w.Reports
  | .ok { success := true, stdout, .. } =>
      inferInstanceAs (Decidable (w.loaded = true ∧ (parseServiceStatus stdout).pid = w.current))
  | .ok { success := false, .. } | .error _ => inferInstanceAs (Decidable True)

/-- One step; `none` where it cannot happen. -/
def step? (w : ManagedInstance) : InstanceOp → Option ManagedInstance
  | .exits pid =>
      some { w with
        live := w.live.filter (· ≠ pid)
        current := if w.current = some pid then none else w.current }
  | .restarts pid =>
      if w.loaded = true ∧ w.current = none then
        some { w with live := pid :: w.live, current := some pid }
      else none
  | .binds => if w.live = [] then none else some { w with socket := true }
  | .stop readable =>
      some { w with stops := w.stops ++ [
        if w.directory then .querying (if readable then w.metadata else none)
        else .returned (.error
          ⟨"managed instance '" ++ w.name ++ "' is not registered"⟩)] }
  | .query id reply =>
      match w.stops[id]? with
      | some (.querying metadata) =>
          if w.Reports reply then some (w.moved id (.afterQuery metadata reply)) else none
      | _ => none
  | .disable id reply =>
      match w.stops[id]? with
      | some (.disabling metadata status) =>
          some (w.moved id (.afterDisable metadata status reply))
      | _ => none
  | .bootout id reply unloads =>
      match w.stops[id]? with
      | some (.unloading status) =>
          -- a call that failed or was cut off may still have unloaded the agent
          if unloads then
            some ({ w with loaded := false, current := none }.moved id (.afterBootout status reply))
          else if reply.Ended true then none
          else some (w.moved id (.afterBootout status reply))
      | _ => none
  | .ps id reply =>
      match w.stops[id]? with
      | some (.matching status stale executable) =>
          some (w.moved id (.afterMatch status stale executable reply))
      | _ => none
  | .terminate id reply =>
      match w.stops[id]? with
      | some (.terminating stale) => some (w.moved id (.afterTerminate stale reply))
      | _ => none
  | .poll id reply expired =>
      match w.stops[id]? with
      | some (.waiting pid) => some (w.moved id (.afterPoll pid reply expired))
      | _ => none
  | .removeSocket id result =>
      match w.stops[id]?, result with
      | some .removingSocket, .removed =>
          if w.socket then some ({ w with socket := false }.moved id (.afterRemoveSocket .removed))
          else none
      | some .removingSocket, .notFound =>
          if w.socket then none else some (w.moved id (.afterRemoveSocket .notFound))
      | some .removingSocket, .failed text =>
          some (w.moved id (.afterRemoveSocket (.failed text)))
      | _, _ => none
  | .removeDirectory id result keepsMetadata =>
      match w.stops[id]?, result with
      | some .removingDirectory, .ok () =>
          if w.directory then
            some ({ w with directory := false, metadata := none, removed := true }.moved id
              (.afterRemoveDirectory w.name (.ok ())))
          else none
      | some .removingDirectory, .error text =>
          some ({ w with
            metadata := if keepsMetadata then w.metadata else none
            removed := true }.moved id (.afterRemoveDirectory w.name (.error text)))
      | _, _ => none

/-- The step, and whether it could happen. -/
def step (w : ManagedInstance) (op : InstanceOp) : Bool × ManagedInstance :=
  match w.step? op with
  | some w' => (true, w')
  | none => (false, w)

/-- What the calls that returned promise, of an instance registered under `metadata`. -/
structure Guarantee (metadata : InstanceMetadata) (w : ManagedInstance) : Prop where
  /-- After an `Ok` nothing is left of the instance. -/
  stopped : ∀ text, .returned (.ok text) ∈ w.stops →
    w.live = [] ∧ w.directory = false ∧ w.socket = false
  /-- Until a call runs `remove_dir_all` the registration can be read. -/
  registered : w.removed = false → w.directory = true ∧ w.metadata = some metadata

/-- The answer the call acts on is right about the processes that are alive. -/
def Knows (w : ManagedInstance) : InstanceOp → Prop
  | .query id reply =>
      match w.stops[id]? with
      | some (.querying _) => reply.Ended false → w.loaded = false
      | _ => True
  | .disable id reply =>
      match w.stops[id]? with
      | some (.disabling metadata status) => reply.Ended true → status.loaded = false →
          ∀ pid ∈ w.live, metadata.bind InstanceMetadata.pid = some pid
      | _ => True
  | .bootout id reply _ =>
      match w.stops[id]? with
      | some (.unloading status) => reply.Ended true → ∀ pid ∈ w.live, status.pid = some pid
      | _ => True
  | .ps id reply =>
      match w.stops[id]? with
      | some (.matching _ stale executable) =>
          processMatches executable reply = .ok false → stale ∉ w.live
      | _ => True
  | .poll id reply _ =>
      match w.stops[id]? with
      | some (.waiting pid) => reply.Ended false → pid ∉ w.live
      | _ => True
  | _ => True

/-! ## What a call knows -/

/-- No process but `pid` is left, and none will be started. -/
def Only (w : ManagedInstance) (pid : Pid) : Prop :=
  w.loaded = false ∧ ∀ p ∈ w.live, p = pid

/-- No process is left, and none will be started. -/
def Gone (w : ManagedInstance) : Prop := w.loaded = false ∧ w.live = []

/-- What a call has made sure of where it stands. -/
def Safe (w : ManagedInstance) : StopPlace → Prop
  | .querying _ | .unloading _ | .returned (.error _) => True
  | .disabling _ status => status.loaded = false → w.loaded = false ∧ status.pid = none
  | .matching status stale _ => status.pid = none ∧ w.Only stale
  | .terminating pid | .waiting pid => w.Only pid
  | .removingSocket => w.Gone
  | .removingDirectory => w.Gone ∧ w.socket = false
  | .returned (.ok _) => w.Gone ∧ w.socket = false ∧ w.directory = false

/-- Nothing that a call made sure of comes back. -/
structure Fades (w w' : ManagedInstance) : Prop where
  loaded : w.loaded = false → w'.loaded = false
  live : w.loaded = false → ∀ pid ∈ w'.live, pid ∈ w.live
  socket : w.Gone → w.socket = false → w'.socket = false
  directory : w.directory = false → w'.directory = false

variable {w w' : ManagedInstance} {pid : Pid} {place : StopPlace}

theorem Only.gone (h : w.Only pid) (hdead : pid ∉ w.live) : w.Gone := by
  refine ⟨h.1, List.eq_nil_iff_forall_not_mem.mpr fun p hp => ?_⟩
  rw [h.2 p hp] at hp
  exact hdead hp

theorem Only.fade (h : w.Only pid) (hfade : Fades w w') : w'.Only pid :=
  ⟨hfade.loaded h.1, fun p hp => h.2 p (hfade.live h.1 p hp)⟩

theorem Gone.fade (h : w.Gone) (hfade : Fades w w') : w'.Gone := by
  refine ⟨hfade.loaded h.1, List.eq_nil_iff_forall_not_mem.mpr fun p hp => ?_⟩
  have hbefore := hfade.live h.1 p hp
  rw [h.2] at hbefore
  exact List.not_mem_nil hbefore

theorem Safe.fade (h : w.Safe place) (hfade : Fades w w') : w'.Safe place := by
  cases place with
  | querying | unloading => trivial
  | disabling metadata status => exact fun hun => ⟨hfade.loaded (h hun).1, (h hun).2⟩
  | matching status stale executable => exact ⟨h.1, h.2.fade hfade⟩
  | terminating pid => exact Only.fade h hfade
  | waiting pid => exact Only.fade h hfade
  | removingSocket => exact Gone.fade h hfade
  | removingDirectory => exact ⟨h.1.fade hfade, hfade.socket h.1 h.2⟩
  | returned result =>
    cases result with
    | error => trivial
    | ok text =>
      obtain ⟨hgone, hsocket, hdirectory⟩ := h
      exact ⟨hgone.fade hfade, hfade.socket hgone hsocket, hfade.directory hdirectory⟩

theorem fades_refl (w : ManagedInstance) : Fades w w :=
  ⟨fun h => h, fun _ _ hp => hp, fun _ h => h, fun h => h⟩

/-! ## Where a call gets to -/

theorem safe_waitFor {pid? : Option Pid} (hloaded : w.loaded = false)
    (hlive : ∀ p ∈ w.live, pid? = some p) : w.Safe (StopPlace.waitFor pid?) := by
  cases pid? with
  | none =>
    exact ⟨hloaded, List.eq_nil_iff_forall_not_mem.mpr fun p hp => by cases hlive p hp⟩
  | some pid => exact ⟨hloaded, fun p hp => (Option.some.inj (hlive p hp)).symm⟩

theorem safe_afterQuery {metadata : Option InstanceMetadata} {reply : CommandReply}
    (hknows : reply.Ended false → w.loaded = false) :
    w.Safe (StopPlace.afterQuery metadata reply) := by
  rcases reply with text | ⟨_ | _, stdout, stderr⟩
  · trivial
  · exact fun _ => ⟨hknows rfl, rfl⟩
  · exact fun hun => by cases hun

theorem safe_afterDisable {metadata : Option InstanceMetadata} {status : ServiceStatus}
    {reply : CommandReply} (hsafe : w.Safe (.disabling metadata status))
    (hknows : reply.Ended true → status.loaded = false →
      ∀ pid ∈ w.live, metadata.bind InstanceMetadata.pid = some pid) :
    w.Safe (StopPlace.afterDisable metadata status reply) := by
  rcases reply with text | ⟨_ | _, stdout, stderr⟩
  · trivial
  · trivial
  · cases hstatus : status.loaded with
    | true => simp [StopPlace.afterDisable, runRequired, hstatus, Safe]
    | false =>
      obtain ⟨hloaded, hpid⟩ := hsafe hstatus
      have hlive := hknows rfl hstatus
      rcases metadata with _ | ⟨_ | stale, executable⟩
      · simp only [StopPlace.afterDisable, runRequired, hstatus, if_true, Bool.false_eq_true,
          if_false]
        exact safe_waitFor hloaded fun p hp => by cases hlive p hp
      · simp only [StopPlace.afterDisable, runRequired, hstatus, if_true, Bool.false_eq_true,
          if_false]
        exact safe_waitFor hloaded fun p hp => by cases hlive p hp
      · simp only [StopPlace.afterDisable, runRequired, hstatus, if_true, Bool.false_eq_true,
          if_false]
        exact ⟨hpid, hloaded, fun p hp => (Option.some.inj (hlive p hp)).symm⟩

theorem safe_afterBootout {status : ServiceStatus} {reply : CommandReply}
    (hloaded : reply.Ended true → w.loaded = false)
    (hknows : reply.Ended true → ∀ pid ∈ w.live, status.pid = some pid) :
    w.Safe (StopPlace.afterBootout status reply) := by
  rcases reply with text | ⟨_ | _, stdout, stderr⟩
  · trivial
  · trivial
  · exact safe_waitFor (hloaded rfl) (hknows rfl)

theorem safe_afterMatch {status : ServiceStatus} {stale : Pid} {executable : List Char}
    {reply : CommandReply} (hsafe : w.Safe (.matching status stale executable))
    (hknows : processMatches executable reply = .ok false → stale ∉ w.live) :
    w.Safe (StopPlace.afterMatch status stale executable reply) := by
  obtain ⟨hpid, honly⟩ := hsafe
  rcases hreply : processMatches executable reply with error | _ | _
  · simp only [StopPlace.afterMatch, hreply, Safe]
  · simp only [StopPlace.afterMatch, hreply, hpid]
    exact honly.gone (hknows hreply)
  · simp only [StopPlace.afterMatch, hreply]
    exact honly

theorem safe_afterTerminate {stale : Pid} {reply : CommandReply} (honly : w.Only stale) :
    w.Safe (StopPlace.afterTerminate stale reply) := by
  rcases reply with text | ⟨_ | _, stdout, stderr⟩
  · trivial
  · trivial
  · exact honly

theorem safe_afterPoll {reply : CommandReply} {expired : Bool} (honly : w.Only pid)
    (hknows : reply.Ended false → pid ∉ w.live) :
    w.Safe (StopPlace.afterPoll pid reply expired) := by
  rcases reply with text | ⟨_ | _, stdout, stderr⟩
  · trivial
  · exact honly.gone (hknows rfl)
  · cases expired with
    | false => exact honly
    | true => trivial

/-! ## Steps -/

/-- What a step leaves right. -/
structure Keeps (w : ManagedInstance) (op : InstanceOp) (w' : ManagedInstance) : Prop where
  fades : Fades w w'
  /-- Only `remove_dir_all` touches the registration. -/
  registration : w'.removed = true ∨
    (w'.removed = w.removed ∧ w'.directory = w.directory ∧ w'.metadata = w.metadata)
  /-- The call that takes the step gets to a place it is sure of. -/
  place : (∀ place ∈ w.stops, w.Safe place) → w.Knows op →
    ∀ place ∈ w'.stops, place ∈ w.stops ∨ w'.Safe place

/-- A step of the processes. -/
theorem Keeps.processes {op : InstanceOp} (hfades : Fades w w') (hstops : w'.stops = w.stops)
    (hregistration : w'.removed = w.removed ∧ w'.directory = w.directory ∧
      w'.metadata = w.metadata) : Keeps w op w' :=
  ⟨hfades, .inr hregistration, fun _ _ _ hplace => .inl (hstops ▸ hplace)⟩

/-- A step of a call: the files become those of `v`, the call goes to `fresh`. -/
theorem Keeps.moved {op : InstanceOp} {v : ManagedInstance} {id : ℕ} {fresh : StopPlace}
    (hfades : Fades w v) (hstops : v.stops = w.stops)
    (hregistration : v.removed = true ∨
      (v.removed = w.removed ∧ v.directory = w.directory ∧ v.metadata = w.metadata))
    (hfresh : (∀ place ∈ w.stops, w.Safe place) → w.Knows op → v.Safe fresh) :
    Keeps w op (v.moved id fresh) := by
  have hfiles : Fades v (v.moved id fresh) :=
    ⟨fun h => h, fun _ _ hp => hp, fun _ h => h, fun h => h⟩
  refine ⟨⟨hfades.loaded, hfades.live, hfades.socket, hfades.directory⟩, hregistration, ?_⟩
  intro hsafe hknows place hplace
  rcases List.mem_or_eq_of_mem_set hplace with h | rfl
  · exact .inl (hstops ▸ h)
  · exact .inr ((hfresh hsafe hknows).fade hfiles)

/-- A call runs a command that changes no file. -/
theorem Keeps.ran {op : InstanceOp} {id : ℕ} {fresh : StopPlace}
    (hfresh : (∀ place ∈ w.stops, w.Safe place) → w.Knows op → w.Safe fresh) :
    Keeps w op (w.moved id fresh) :=
  .moved (fades_refl w) rfl (.inr ⟨rfl, rfl, rfl⟩) hfresh

theorem step?_keeps {op : InstanceOp} (hop : w.step? op = some w') : Keeps w op w' := by
  cases op with
  | exits pid =>
    obtain rfl := Option.some.inj hop
    refine .processes ⟨fun h => h, ?_, fun _ h => h, fun h => h⟩ rfl ⟨rfl, rfl, rfl⟩
    exact fun _ p hp => (List.mem_filter.mp hp).1
  | restarts pid =>
    simp only [step?, Option.ite_none_right_eq_some, Option.some.injEq] at hop
    obtain ⟨⟨hloaded, -⟩, rfl⟩ := hop
    refine .processes ⟨fun h => h, ?_, fun _ h => h, fun h => h⟩ rfl ⟨rfl, rfl, rfl⟩
    exact fun hun => by simp [hloaded] at hun
  | binds =>
    simp only [step?, Option.ite_none_left_eq_some, Option.some.injEq] at hop
    obtain ⟨hlive, rfl⟩ := hop
    refine .processes ⟨fun h => h, fun _ _ hp => hp, ?_, fun h => h⟩ rfl ⟨rfl, rfl, rfl⟩
    exact fun hgone => absurd hgone.2 hlive
  | stop readable =>
    obtain rfl := Option.some.inj hop
    refine ⟨⟨fun h => h, fun _ _ hp => hp, fun _ h => h, fun h => h⟩, .inr ⟨rfl, rfl, rfl⟩, ?_⟩
    intro _ _ place hplace
    rcases List.mem_append.mp hplace with h | h
    · exact .inl h
    · obtain rfl := List.mem_singleton.mp h
      right
      split <;> trivial
  | query id reply =>
    simp only [step?] at hop
    split at hop
    next metadata hid =>
      simp only [Option.ite_none_right_eq_some, Option.some.injEq] at hop
      obtain ⟨-, rfl⟩ := hop
      refine .ran fun _ hknows => ?_
      simp only [Knows, hid] at hknows
      exact safe_afterQuery hknows
    next => cases hop
  | disable id reply =>
    simp only [step?] at hop
    split at hop
    next metadata status hid =>
      obtain rfl := Option.some.inj hop
      refine .ran fun hsafe hknows => ?_
      simp only [Knows, hid] at hknows
      exact safe_afterDisable (hsafe _ (List.mem_of_getElem? hid)) hknows
    next => cases hop
  | bootout id reply unloads =>
    simp only [step?] at hop
    split at hop
    next status hid =>
      split at hop
      · obtain rfl := Option.some.inj hop
        refine .moved ⟨fun _ => rfl, fun _ _ hp => hp, fun _ h => h, fun h => h⟩ rfl
          (.inr ⟨rfl, rfl, rfl⟩) fun _ hknows => ?_
        simp only [Knows, hid] at hknows
        exact safe_afterBootout (fun _ => rfl) hknows
      · simp only [Option.ite_none_left_eq_some, Option.some.injEq] at hop
        obtain ⟨hfailed, rfl⟩ := hop
        refine .ran fun _ hknows => ?_
        simp only [Knows, hid] at hknows
        exact safe_afterBootout (fun h => absurd h hfailed) hknows
    next => cases hop
  | ps id reply =>
    simp only [step?] at hop
    split at hop
    next status stale executable hid =>
      obtain rfl := Option.some.inj hop
      refine .ran fun hsafe hknows => ?_
      simp only [Knows, hid] at hknows
      exact safe_afterMatch (hsafe _ (List.mem_of_getElem? hid)) hknows
    next => cases hop
  | terminate id reply =>
    simp only [step?] at hop
    split at hop
    next stale hid =>
      obtain rfl := Option.some.inj hop
      exact .ran fun hsafe _ => safe_afterTerminate (hsafe _ (List.mem_of_getElem? hid))
    next => cases hop
  | poll id reply expired =>
    simp only [step?] at hop
    split at hop
    next pid hid =>
      obtain rfl := Option.some.inj hop
      refine .ran fun hsafe hknows => ?_
      simp only [Knows, hid] at hknows
      exact safe_afterPoll (hsafe _ (List.mem_of_getElem? hid)) hknows
    next => cases hop
  | removeSocket id result =>
    simp only [step?] at hop
    split at hop
    next hid =>
      simp only [Option.ite_none_right_eq_some, Option.some.injEq] at hop
      obtain ⟨-, rfl⟩ := hop
      refine .moved ⟨fun h => h, fun _ _ hp => hp, fun _ _ => rfl, fun h => h⟩ rfl
        (.inr ⟨rfl, rfl, rfl⟩) fun hsafe _ => ?_
      exact ⟨hsafe _ (List.mem_of_getElem? hid), rfl⟩
    next hid =>
      simp only [Option.ite_none_left_eq_some, Option.some.injEq] at hop
      obtain ⟨hsocket, rfl⟩ := hop
      refine .ran fun hsafe _ => ?_
      exact ⟨hsafe _ (List.mem_of_getElem? hid), Bool.eq_false_iff.mpr hsocket⟩
    next =>
      obtain rfl := Option.some.inj hop
      exact .ran fun _ _ => trivial
    next => cases hop
  | removeDirectory id result keepsMetadata =>
    simp only [step?] at hop
    split at hop
    next hid =>
      simp only [Option.ite_none_right_eq_some, Option.some.injEq] at hop
      obtain ⟨-, rfl⟩ := hop
      refine .moved ⟨fun h => h, fun _ _ hp => hp, fun _ h => h, fun _ => rfl⟩ rfl (.inl rfl)
        fun hsafe _ => ?_
      obtain ⟨hgone, hsocket⟩ := hsafe _ (List.mem_of_getElem? hid)
      exact ⟨hgone, hsocket, rfl⟩
    next =>
      obtain rfl := Option.some.inj hop
      exact .moved ⟨fun h => h, fun _ _ hp => hp, fun _ h => h, fun h => h⟩ rfl (.inl rfl)
        fun _ _ => trivial
    next => cases hop

/-- Every call is sure of where it stands, and the registration is there until it is removed. -/
structure Sure (metadata : InstanceMetadata) (w : ManagedInstance) : Prop where
  safe : ∀ place ∈ w.stops, w.Safe place
  registered : w.removed = false → w.directory = true ∧ w.metadata = some metadata

theorem Sure.step {metadata : InstanceMetadata} {op : InstanceOp} (h : Sure metadata w)
    (hknows : w.Knows op) : Sure metadata (w.step op).2 := by
  simp only [ManagedInstance.step]
  split
  next w' hop =>
    obtain ⟨hfades, hregistration, hplaces⟩ := step?_keeps hop
    constructor
    · intro place hplace
      rcases hplaces h.safe hknows place hplace with hbefore | hsafe
      · exact (h.safe place hbefore).fade hfades
      · exact hsafe
    · intro hremoved
      rcases hregistration with hdone | ⟨hsame, hdirectory, hmetadata⟩
      · rw [hdone] at hremoved
        cases hremoved
      · rw [hdirectory, hmetadata]
        exact h.registered (hsame ▸ hremoved)
  next => exact h

theorem Sure.guarantee {metadata : InstanceMetadata} (h : Sure metadata w) :
    Guarantee metadata w where
  stopped text htext := by
    obtain ⟨hgone, hsocket, hdirectory⟩ := h.safe _ htext
    exact ⟨hgone.2, hdirectory, hsocket⟩
  registered := h.registered

/-- **A stop leaves nothing running.** In a run in which every answer that a call acts on is
right about the live processes, a call that returned `Ok` left no process, no directory and no
socket, and the registration can be read until some call runs `remove_dir_all`. -/
theorem stop_sound (name : String) (pid : Pid) (executable : List Char) (ops : List InstanceOp)
    (hops : Run.Each step Knows (started name pid executable) ops) :
    Guarantee ⟨some pid, executable⟩ (Run.exec step (started name pid executable) ops) := by
  have hstep : ∀ (w : ManagedInstance) (op : InstanceOp), Sure ⟨some pid, executable⟩ w →
      w.Knows op → Sure ⟨some pid, executable⟩ (w.step op).2 := fun w op h hknows => h.step hknows
  have hstart : Sure ⟨some pid, executable⟩ (started name pid executable) :=
    ⟨fun _ hplace => absurd hplace List.not_mem_nil, fun _ => ⟨rfl, rfl⟩⟩
  exact (Run.exec_invariant hstep hstart hops).guarantee

/-- The process ends under `bootout`, and the wait for it finds it gone. -/
theorem stop_sound_once :
    Guarantee ⟨some 7, ['g']⟩ (Run.exec step (started "a" 7 ['g'])
      [.stop true, .query 0 (.ok { success := true, stdout := ['p', 'i', 'd', '=', '7'] }),
        .disable 0 (.ok { success := true }), .bootout 0 (.ok { success := true }) true,
        .exits 7, .poll 0 (.ok { success := false }) false, .removeSocket 0 .removed,
        .removeDirectory 0 (.ok ()) false]) :=
  stop_sound "a" 7 ['g'] _ ⟨trivial, fun h => absurd h (by decide),
    fun _ hunloaded => absurd hunloaded (by decide), fun _ => by decide, trivial,
    fun _ => by decide, trivial, trivial, trivial⟩

/-- A restart gave the process a new pid; the wait for it ran out, and the next call, which
knows the first pid only, removes the instance while the process is alive. -/
theorem stop_forgets_restarted :
    ¬ ∀ ops : List InstanceOp, Guarantee ⟨some 7, ['g']⟩
      (Run.exec step (started "a" 7 ['g']) ops) := by
  intro h
  have hguarantee := h [.exits 7, .restarts 8, .stop true,
    .query 0 (.ok { success := true, stdout := ['p', 'i', 'd', '=', '8'] }),
    .disable 0 (.ok { success := true }), .bootout 0 (.ok { success := true }) true,
    .poll 0 (.ok { success := true }) true, .stop true, .query 1 (.ok { success := false }),
    .disable 1 (.ok { success := true }), .ps 1 (.ok { success := false }),
    .removeSocket 1 .removed, .removeDirectory 1 (.ok ()) false]
  obtain ⟨hlive, -⟩ := hguarantee.stopped ("Stopped " ++ "a" ++ "\n")
    (List.mem_of_getElem? (i := 1) rfl)
  cases hlive

end ManagedInstance

end MlxRuntime
