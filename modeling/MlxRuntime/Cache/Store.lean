import MlxRuntime.Lib.Run
import MlxRuntime.Cache.Reservation

/-!
# Runs of the paged store

A `KVStore` is the backend together with the last reservation made on it.  Its
operations are the calls a user of the store can make; at most one reservation is
open at a time, so a `reserve_batch` while one is open is not issued, and neither
is one that names a cache nobody created.

## Main definitions

* `KVStore`, `KVOp`, `KVReply`, `KVStore.step` — the transition system.
* `KVStore.Moves`, `KVStore.moves_step` — everything a step can do.
* `KVStore.Inv` — the invariant of its runs.
* `PageTableInvariant` — what the invariant says of the five pieces of bookkeeping.
-/

namespace MlxRuntime

variable {ρ κ : Type}

/-- The store and the last reservation made on it. -/
structure KVStore (ρ κ : Type) where
  backend : PagedKVCacheBackend ρ κ
  reservation : Option (PagedBatchReservation κ)

/-- A call on the store or on its last reservation.  `evalError` is the text of what
`mx.eval` raises inside `commit`, if it does. -/
inductive KVOp (ρ κ : Type)
  | create (requestId : ρ)
  | get (handle : Option Handle) (requestId : ρ)
  | fork (handle : Handle) (requestId : ρ) (length : Option ℤ)
  | release (handle : Option Handle)
  | reset (resetCounters : Bool)
  | reserveBatch (caches : List Handle) (appendLengths : List ℕ)
  | stageLayer (layer : ℕ) (keys values : KVTensor κ)
  | commit (evalError : Option String)
  | abort

/-- What a call answers. -/
inductive KVReply (κ : Type)
  | notIssued
  | raised (error : PyError)
  | done
  | handle (handle : Handle)
  | staged (keys values : PageArray κ)
  | lengths (lengths : List ℕ)

/-- The reply to a method's result. -/
def KVReply.ofResult {α : Type} (ok : α → KVReply κ) : Except PyError α → KVReply κ
  | .error e => .raised e
  | .ok a => ok a

namespace KVStore

/-- The reservation that is still open, if any. -/
def outstanding (w : KVStore ρ κ) : Option (PagedBatchReservation κ) :=
  w.reservation.filter fun r => !r.finished

/-- A store just built, with no reservation made on it. -/
def ofConfig (config : PagedKVConfig) (zero : κ) (noRequest : ρ) :
    Except PyError (KVStore ρ κ) :=
  (PagedKVCacheBackend.postInit config zero noRequest).map fun s => ⟨s, none⟩

/-- One call. -/
def step [DecidableEq ρ] (w : KVStore ρ κ) : KVOp ρ κ → KVReply κ × KVStore ρ κ
  | .create requestId =>
      let (handle, s) := w.backend.create requestId
      (.handle handle, { w with backend := s })
  | .get handle requestId => (.ofResult .handle (w.backend.get handle requestId), w)
  | .fork handle requestId length =>
      let (result, s) := w.backend.fork handle requestId length
      (.ofResult .handle result, { w with backend := s })
  | .release handle =>
      let (result, s) := w.backend.release handle
      (.ofResult (fun _ => .done) result, { w with backend := s })
  | .reset resetCounters =>
      let (result, s) := w.backend.reset resetCounters
      (.ofResult (fun _ => .done) result, { w with backend := s })
  | .reserveBatch caches appendLengths =>
      if w.outstanding.isSome ∨ ∃ h ∈ caches, w.backend.nextHandle ≤ h then (.notIssued, w)
      else
        match w.backend.reserveBatch caches appendLengths with
        | (.error e, s) => (.raised e, { w with backend := s })
        | (.ok r, s) => (.done, ⟨s, some r⟩)
  | .stageLayer layer keys values =>
      match w.reservation with
      | none => (.notIssued, w)
      | some r =>
          let (result, r', s) := w.backend.stageLayer r layer keys values
          (.ofResult (fun x => .staged x.1 x.2) result, ⟨s, some r'⟩)
  | .commit evalError =>
      match w.reservation with
      | none => (.notIssued, w)
      | some r =>
          let (result, r', s) := w.backend.commit r (evalError.map .external)
          (.ofResult .lengths result, ⟨s, some r'⟩)
  | .abort =>
      match w.reservation with
      | none => (.notIssued, w)
      | some r =>
          let (result, r', s) := w.backend.abort r
          (.ofResult (fun _ => .done) result, ⟨s, some r'⟩)

variable {w : KVStore ρ κ}

theorem outstanding_eq_some {r : PagedBatchReservation κ} :
    w.outstanding = some r ↔ w.reservation = some r ∧ r.finished = false := by
  simp [outstanding, Option.filter_eq_some_iff]

theorem outstanding_of_finished {r : PagedBatchReservation κ} (h : w.reservation = some r)
    (hfin : r.finished = true) : w.outstanding = none := by
  simp [outstanding, h, hfin]

/-- The pages set aside for the open reservation. -/
def reservedNow (w : KVStore ρ κ) : List Page :=
  (w.outstanding.map PagedBatchReservation.reservedPages).getD []

/-- The pages the open reservation pins. -/
def pinnedNow (w : KVStore ρ κ) : List Page :=
  (w.outstanding.map PagedBatchReservation.pinnedPages).getD []

theorem reservedNow_of_none (h : w.outstanding = none) : w.reservedNow = [] := by
  simp [reservedNow, h]

theorem reservedNow_of_some {r : PagedBatchReservation κ} (h : w.outstanding = some r) :
    w.reservedNow = r.reservedPages := by
  simp [reservedNow, h]

theorem pinnedNow_of_none (h : w.outstanding = none) : w.pinnedNow = [] := by
  simp [pinnedNow, h]

theorem pinnedNow_of_some {r : PagedBatchReservation κ} (h : w.outstanding = some r) :
    w.pinnedNow = r.pinnedPages := by
  simp [pinnedNow, h]

/-- The invariant of the runs: the backend is well formed, the open reservation is
one it made, and nothing else is reserved or pinned. -/
structure Inv (w : KVStore ρ κ) : Prop where
  wf : w.backend.Wf
  opened : ∀ r, w.outstanding = some r → w.backend.Outstanding r
  reserved_eq : w.backend.reservedPages = w.reservedNow.toFinset
  pins_eq : ∀ p, w.backend.pinCounts p = if p ∈ w.pinnedNow then 1 else 0

/-- The guard of the page-table theorem: a commit that gets past its checks names
caches that are live, or dead ones whose tables it does not change. -/
def CommitsLive (w : KVStore ρ κ) : KVOp ρ κ → Prop
  | .commit none => ∀ r ∈ w.outstanding, w.backend.AllStaged r → w.backend.Committable r
  | _ => True

instance (w : KVStore ρ κ) : DecidablePred w.CommitsLive
  | .commit none => inferInstanceAs (Decidable (∀ r ∈ w.outstanding, _))
  | .commit (some _) | .create _ | .get _ _ | .fork _ _ _ | .release _ | .reset _
  | .reserveBatch _ _ | .stageLayer _ _ _ | .abort => inferInstanceAs (Decidable True)

/-- The calls that change nothing but the count of failed allocations. -/
inductive Quiet (w : KVStore ρ κ) : KVOp ρ κ → KVReply κ → Prop
  | notIssued (op : KVOp ρ κ) : Quiet w op .notIssued
  | raised (op : KVOp ρ κ) {e : PyError} (he : ¬ PagedKVCacheBackend.BecameNegative e) :
      Quiet w op (.raised e)
  | got (handle : Option Handle) (requestId : ρ) (h : Handle) :
      Quiet w (.get handle requestId) (.handle h)
  | releasedNothing {handle : Option Handle} (hdead : ∀ h ∈ handle, h ∉ w.backend.caches) :
      Quiet w (.release handle) .done
  | alreadyFinished (h : w.outstanding = none) : Quiet w .abort .done

/-- Everything a step of a store can do, with its reply. -/
inductive Moves (w : KVStore ρ κ) : KVOp ρ κ → KVReply κ → KVStore ρ κ → Prop
  | quiet {op : KVOp ρ κ} {reply : KVReply κ} (h : Quiet w op reply) (n : ℕ) :
      Moves w op reply { w with backend := w.backend.allocationFailed n }
  | created (requestId : ρ) :
      Moves w (.create requestId) (.handle w.backend.nextHandle)
        { w with backend := w.backend.addCache requestId [] 0 }
  | forked {handle : Handle} (requestId : ρ) {length : Option ℤ}
      (hlive : handle ∈ w.backend.caches)
      (hn : w.backend.forkLength handle length ≤ (w.backend.cacheOf handle).length) :
      Moves w (.fork handle requestId length) (.handle w.backend.nextHandle)
        ⟨w.backend.addCache requestId
            ((w.backend.cacheOf handle).blockTable.take
              (pagesFor w.backend.pageSize (w.backend.forkLength handle length)))
            (w.backend.forkLength handle length), w.reservation⟩
  | released {h : Handle} (hlive : h ∈ w.backend.caches) :
      Moves w (.release (some h)) .done { w with backend := w.backend.released h }
  | reset (hclosed : w.outstanding = none) (resetCounters : Bool) :
      Moves w (.reset resetCounters) .done
        { w with backend := w.backend.emptied resetCounters }
  | reserved {caches : List Handle} {appendLengths : List ℕ}
      {changes : List PagedKVCacheBackend.TableChange} {r : PagedBatchReservation κ}
      (hclosed : w.outstanding = none) (hcreated : ∀ h ∈ caches, h < w.backend.nextHandle)
      (h : w.backend.Reserves caches appendLengths changes r) :
      Moves w (.reserveBatch caches appendLengths) .done ⟨w.backend.reservedFor r, some r⟩
  | staged {layer : ℕ} {keys values : KVTensor κ} {r : PagedBatchReservation κ}
      (hopen : w.outstanding = some r) (h : w.backend.Stages r layer keys values) :
      Moves w (.stageLayer layer keys values)
        (.staged (w.backend.stagedPools r layer keys values).1
          (w.backend.stagedPools r layer keys values).2)
        ⟨w.backend.copiedFor r layer, some (PagedKVCacheBackend.stagedWith r layer
          (w.backend.stagedPools r layer keys values))⟩
  | committed {r : PagedBatchReservation κ} (hopen : w.outstanding = some r)
      (hstaged : w.backend.AllStaged r) (hc : w.backend.Committable r) :
      Moves w (.commit none)
        (.lengths (r.requestCaches.map fun h => ((w.backend.committed r).cacheOf h).size))
        ⟨w.backend.committed r, some { r with finished := true }⟩
  | aborted {r : PagedBatchReservation κ} (hopen : w.outstanding = some r) :
      Moves w .abort .done ⟨w.backend.aborted r, some { r with finished := true }⟩

theorem not_becameNegative_of_get [DecidableEq ρ] {s : PagedKVCacheBackend ρ κ}
    {handle : Option Handle} {requestId : ρ} {e : PyError}
    (h : s.get handle requestId = .error e) : ¬ PagedKVCacheBackend.BecameNegative e := by
  rw [PagedKVCacheBackend.get.eq_def] at h
  split at h
  · obtain rfl := Except.error.inj h
    decide
  · repeat' split at h
    all_goals first | (obtain rfl := Except.error.inj h; decide) | cases h

theorem Moves.same {op : KVOp ρ κ} {reply : KVReply κ} (h : Quiet w op reply) :
    Moves w op reply w := Moves.quiet h 0

/-- **One step of a store**, under the guard, is one of the moves. -/
theorem moves_step [DecidableEq ρ] (hw : w.Inv) {op : KVOp ρ κ} (hok : CommitsLive w op) :
    Moves w op (w.step op).1 (w.step op).2 := by
  cases op with
  | create requestId =>
      rw [step, PagedKVCacheBackend.create_eq]
      exact .created requestId
  | get handle requestId =>
      rw [step]
      cases hget : w.backend.get handle requestId with
      | ok h => exact .same (.got handle requestId h)
      | error e => exact .same (.raised _ (not_becameNegative_of_get hget))
  | fork handle requestId length =>
      rw [step]
      rcases w.backend.fork_cases handle requestId length with ⟨e, he, heq⟩ | ⟨hlive, hn, heq⟩ <;>
        rw [heq]
      · exact .same (.raised _ he)
      · exact .forked requestId hlive hn
  | release handle =>
      rw [step]
      by_cases hlive : ∃ h, handle = some h ∧ h ∈ w.backend.caches
      · obtain ⟨h, rfl, hlive⟩ := hlive
        rw [PagedKVCacheBackend.release_of_mem hw.wf hlive]
        exact .released hlive
      · have hdead : ∀ h ∈ handle, h ∉ w.backend.caches :=
          fun h hh hmem => hlive ⟨h, hh, hmem⟩
        have heq : w.backend.release handle = (.ok (), w.backend) := by
          cases handle with
          | none => exact PagedKVCacheBackend.release_none _
          | some h => exact PagedKVCacheBackend.release_of_notMem (hdead h rfl)
        rw [heq]
        exact .same (.releasedNothing hdead)
  | reset resetCounters =>
      rw [step]
      rcases w.backend.reset_cases resetCounters with ⟨e, he, heq⟩ | ⟨-, heq⟩
      · rw [heq]
        exact .same (.raised _ he)
      · cases hopen : w.outstanding with
        | none => rw [heq]; exact .reset hopen resetCounters
        | some r =>
            rw [(hw.opened r hopen).reset_refused resetCounters]
            exact .same (.raised _ (by decide))
  | reserveBatch caches appendLengths =>
      rw [step]
      split
      case isTrue => exact .same (.notIssued _)
      case isFalse hissued =>
        simp only [not_or, not_exists, not_and, not_le, Bool.not_eq_true, Option.isSome_eq_false_iff,
          Option.isNone_iff_eq_none] at hissued
        rcases w.backend.reserveBatch_cases caches appendLengths with
          ⟨e, n, he, heq⟩ | ⟨r, changes, h, heq⟩ <;> rw [heq]
        · exact .quiet (.raised _ he) n
        · exact .reserved hissued.1 hissued.2 h
  | stageLayer layer keys values =>
      rw [step]
      cases hres : w.reservation with
      | none => exact .same (.notIssued _)
      | some r =>
          dsimp only
          rcases w.backend.stageLayer_cases r layer keys values with ⟨e, he, heq⟩ | ⟨h, heq⟩ <;>
            rw [heq]
          · exact hres ▸ .same (.raised _ he)
          · exact .staged (outstanding_eq_some.mpr ⟨hres, h.not_finished⟩) h
  | commit evalError =>
      rw [step]
      cases hres : w.reservation with
      | none => exact .same (.notIssued _)
      | some r =>
          dsimp only
          have heval : ∀ e ∈ evalError.map PyError.external,
              ¬ PagedKVCacheBackend.BecameNegative e := by
            rintro e he (rfl | rfl) <;> simp at he
          rcases w.backend.commit_cases r heval with ⟨e, he, heq⟩ | ⟨hnone, hfin, hstaged⟩
          · rw [heq]
            exact hres ▸ .same (.raised _ he)
          · obtain rfl : evalError = none := by simpa using hnone
            have hopen := outstanding_eq_some.mpr ⟨hres, hfin⟩
            rw [Option.map_none, PagedKVCacheBackend.commit_eq hw.wf (hw.opened r hopen)
              hstaged (hok r hopen hstaged)]
            exact .committed hopen hstaged (hok r hopen hstaged)
  | abort =>
      rw [step]
      cases hres : w.reservation with
      | none => exact .same (.notIssued _)
      | some r =>
          cases hfin : r.finished with
          | true =>
            have hdone : w.backend.abort r = (.ok (), r, w.backend) := by
              simp [PagedKVCacheBackend.abort, hfin]
            dsimp only
            rw [hdone]
            exact hres ▸ .same (.alreadyFinished (outstanding_of_finished hres hfin))
          | false =>
            have hopen := outstanding_eq_some.mpr ⟨hres, hfin⟩
            dsimp only
            rw [PagedKVCacheBackend.abort_eq (hw.opened r hopen)]
            exact .aborted hopen

/-! ## The invariant of the runs -/

/-- A change of the backend alone keeps the invariant when it keeps what is reserved
and pinned. -/
theorem Inv.of_backend (hw : w.Inv) {s : PagedKVCacheBackend ρ κ} (hwf : s.Wf)
    (hopen : ∀ r, w.backend.Outstanding r → s.Outstanding r)
    (hreserved : s.reservedPages = w.backend.reservedPages)
    (hpins : s.pinCounts = w.backend.pinCounts) : Inv { w with backend := s } where
  wf := hwf
  opened := fun r hr => hopen r (hw.opened r hr)
  reserved_eq := hreserved.trans hw.reserved_eq
  pins_eq := fun p => (congrFun hpins p).trans (hw.pins_eq p)

/-- What the end of a reservation leaves: nothing reserved, nothing pinned. -/
theorem Inv.of_finished (hw : w.Inv) {r : PagedBatchReservation κ}
    (hopen : w.outstanding = some r) {s : PagedKVCacheBackend ρ κ} (hwf : s.Wf)
    (hreserved : s.reservedPages = w.backend.reservedPages \ r.reservedPages.toFinset)
    (hpins : s.pinCounts = fun p =>
      if p ∈ r.pinnedPages then w.backend.pinCounts p - 1 else w.backend.pinCounts p) :
    Inv ⟨s, some { r with finished := true }⟩ := by
  have hclosed : outstanding ⟨s, some { r with finished := true }⟩ = none :=
    outstanding_of_finished rfl rfl
  refine ⟨hwf, by simp [hclosed], ?_, fun p => ?_⟩
  · rw [reservedNow_of_none hclosed, hreserved, hw.reserved_eq, reservedNow_of_some hopen]
    simp
  · rw [pinnedNow_of_none hclosed, hpins]
    dsimp only
    rw [hw.pins_eq, pinnedNow_of_some hopen]
    by_cases hp : p ∈ r.pinnedPages <;> simp [hp]

/-- What a reservation in progress leaves: its own pages reserved and pinned. -/
theorem Inv.of_open {s : PagedKVCacheBackend ρ κ} {r : PagedBatchReservation κ} (hwf : s.Wf)
    (ho : s.Outstanding r) (hreserved : s.reservedPages = r.reservedPages.toFinset)
    (hpins : ∀ p, s.pinCounts p = if p ∈ r.pinnedPages then 1 else 0) : Inv ⟨s, some r⟩ := by
  have hopen : outstanding ⟨s, some r⟩ = some r :=
    outstanding_eq_some.mpr ⟨rfl, ho.not_finished⟩
  refine ⟨hwf, ?_, ?_, fun p => ?_⟩
  · intro r' hr'
    obtain rfl : r = r' := by simpa [hopen] using hr'
    exact ho
  · rw [reservedNow_of_some hopen]
    exact hreserved
  · rw [pinnedNow_of_some hopen]
    exact hpins p

/-- **The step lemma.** Every move keeps the invariant. -/
theorem inv_moves (hw : w.Inv) {op : KVOp ρ κ} {reply : KVReply κ} {w' : KVStore ρ κ}
    (h : Moves w op reply w') : w'.Inv := by
  cases h with
  | quiet _ n =>
      exact hw.of_backend (PagedKVCacheBackend.wf_allocationFailed hw.wf n)
        (fun r hr => PagedKVCacheBackend.outstanding_allocationFailed hr n) rfl rfl
  | created requestId =>
      exact hw.of_backend (PagedKVCacheBackend.wf_create hw.wf requestId)
        (fun r hr => PagedKVCacheBackend.outstanding_addCache hr _ _ _) rfl rfl
  | forked requestId hlive hn =>
      exact hw.of_backend (PagedKVCacheBackend.wf_fork hw.wf requestId hlive hn)
        (fun r hr => PagedKVCacheBackend.outstanding_addCache hr _ _ _) rfl rfl
  | released hlive =>
      exact hw.of_backend (PagedKVCacheBackend.wf_released hw.wf hlive)
        (fun r hr => PagedKVCacheBackend.outstanding_released hr _) rfl rfl
  | reset hclosed resetCounters =>
      have hempty : w.backend.reservedPages = ∅ := by
        simp [hw.reserved_eq, reservedNow_of_none hclosed]
      refine ⟨PagedKVCacheBackend.wf_emptied hw.wf hempty _, ?_, hw.reserved_eq, hw.pins_eq⟩
      intro r (hr : w.outstanding = some r)
      simp [hclosed] at hr
  | @reserved caches appendLengths changes r hclosed hcreated h =>
      refine .of_open (PagedKVCacheBackend.wf_reservedFor hw.wf h)
        (PagedKVCacheBackend.outstanding_reservedFor hw.wf h hcreated) ?_ fun p => ?_
      · simp [PagedKVCacheBackend.reservedFor, hw.reserved_eq, reservedNow_of_none hclosed]
      · simp [PagedKVCacheBackend.reservedFor, hw.pins_eq, pinnedNow_of_none hclosed]
  | @staged layer keys values r hopen h =>
      have hfrom : PagedKVCacheBackend.StagedFrom w.backend r
          (PagedKVCacheBackend.stagedWith r layer (w.backend.stagedPools r layer keys values))
          (w.backend.copiedFor r layer) := ⟨rfl, rfl⟩
      refine .of_open (hfrom.wf hw.wf) (hfrom.outstanding (hw.opened r hopen)) ?_ fun p => ?_
      · exact hw.reserved_eq.trans (by rw [reservedNow_of_some hopen]; rfl)
      · have := hw.pins_eq p
        rwa [pinnedNow_of_some hopen] at this
  | committed hopen hstaged hc =>
      exact hw.of_finished hopen
        (PagedKVCacheBackend.wf_committed hw.wf (hw.opened _ hopen) hc) rfl rfl
  | aborted hopen =>
      exact hw.of_finished hopen
        (PagedKVCacheBackend.wf_aborted hw.wf (hw.opened _ hopen)) rfl rfl

theorem Moves.not_becameNegative {op : KVOp ρ κ} {e : PyError} {w' : KVStore ρ κ}
    (h : Moves w op (.raised e) w') : ¬ PagedKVCacheBackend.BecameNegative e := by
  cases h with
  | quiet h n =>
      cases h with
      | raised _ he => exact he

theorem inv_ofConfig {config : PagedKVConfig} {zero : κ} {noRequest : ρ}
    (h : ofConfig config zero noRequest = .ok w) : w.Inv := by
  rw [ofConfig] at h
  cases hpost : PagedKVCacheBackend.postInit config zero noRequest with
  | error e => simp [hpost, Except.map] at h
  | ok s =>
      obtain rfl : KVStore.mk s none = w := by simpa [hpost, Except.map] using h
      obtain ⟨hwf, hreserved, hpins, -⟩ := PagedKVCacheBackend.wf_postInit hpost
      refine ⟨hwf, ?_, ?_, fun p => ?_⟩
      · intro r hr
        simp [outstanding] at hr
      · simp [reservedNow, outstanding, hreserved]
      · simp [pinnedNow, outstanding, hpins]

/-- The invariant holds after every run whose commits meet their guard. -/
theorem inv_exec [DecidableEq ρ] {ops : List (KVOp ρ κ)} (hw : w.Inv)
    (hops : Run.Each step CommitsLive w ops) : (Run.exec step w ops).Inv := by
  have hstep : ∀ (w : KVStore ρ κ) op, w.Inv → CommitsLive w op → (step w op).2.Inv :=
    fun w op hw hok => inv_moves hw (moves_step hw hok)
  exact Run.exec_invariant hstep hw hops

/-! ## The page-table invariant -/

/-- What the five pieces of bookkeeping have to do with each other between two
calls. -/
structure PageTableInvariant (w : KVStore ρ κ) : Prop where
  refs_count : ∀ p, w.backend.refCounts p =
    ∑ h ∈ w.backend.caches, ((w.backend.cacheOf h).blockTable.count p : ℤ)
  table_length : ∀ h ∈ w.backend.caches, (w.backend.cacheOf h).blockTable.length =
    pagesFor w.backend.pageSize (w.backend.cacheOf h).length
  table_nodup : ∀ h ∈ w.backend.caches, (w.backend.cacheOf h).blockTable.Nodup
  free_sorted : w.backend.freePages.Pairwise (· < ·)
  free_unreferenced : ∀ p ∈ w.backend.freePages, w.backend.refCounts p = 0
  reserved_free : ∀ p ∈ w.backend.reservedPages, p ∈ w.backend.freePages ∧
    ∀ h ∈ w.backend.caches, p ∉ (w.backend.cacheOf h).blockTable
  pins_nonneg : ∀ p, 0 ≤ w.backend.pinCounts p
  pinned_named : ∀ p, w.backend.pinCounts p ≠ 0 →
    ∃ r, w.outstanding = some r ∧ p ∈ r.pinnedPages

theorem Inv.pageTableInvariant (hw : w.Inv) : w.PageTableInvariant where
  refs_count := hw.wf.ref_eq
  table_length := hw.wf.table_length
  table_nodup := hw.wf.table_nodup
  free_sorted := hw.wf.free_sorted
  free_unreferenced := hw.wf.free_ref
  reserved_free := fun p hp =>
    ⟨hw.wf.reserved_free p hp, fun _ hh => hw.wf.notMem_table_of_reserved hp hh⟩
  pins_nonneg := hw.wf.pin_nonneg
  pinned_named := by
    intro p hp
    rw [hw.pins_eq] at hp
    cases hopen : w.outstanding with
    | none => simp [pinnedNow_of_none hopen] at hp
    | some r => exact ⟨r, rfl, by simpa [pinnedNow_of_some hopen] using hp⟩

/-- A pool of three pages of eight one-number rows. -/
def threePages : PagedKVConfig where
  numLayers := 1
  numKvHeads := 1
  headDim := 1
  pageSize := 8
  budgetBytes := 96
  dtype := .float16

/-- Rows `0, …, n - 1` of one request for one layer. -/
def numberedRows (n : ℕ) : KVTensor ℕ := ⟨[1, 1, n, 1], .float16, fun _ i => i⟩

/-- Three rows appended to a fresh cache, ready to commit. -/
def appendThree : List (KVOp ℕ ℕ) :=
  [.create 0, .reserveBatch [0] [3], .stageLayer 0 (numberedRows 3) (numberedRows 3)]

end KVStore
end MlxRuntime
