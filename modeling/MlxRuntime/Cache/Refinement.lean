import MlxRuntime.Cache.Rows
import MlxRuntime.Cache.Store

/-!
# The paged store refines private lists

What the store is for: each live handle has a private list of rows, a fork starts
with a prefix of its source's list, and a commit appends what was staged.
`PrivateLists` says that without pages, tables or counts.  `Refines` relates the rows
read through the block tables to those lists, over every run that reserves live
caches and does not release the caches of an open reservation.

## Main definitions

* `PrivateLists`, `PrivateLists.step` — the abstract store.
* `KVStore.Isolated` — the guard of the runs.
* `KVStore.Refines`, `KVStore.refines_moves` — the simulation.
-/

namespace MlxRuntime

variable {ρ κ : Type}

/-! ## The abstract store -/

/-- An append in progress: who appends how many rows, and the tensors staged so far. -/
structure PendingAppend (κ : Type) where
  requests : List (Handle × ℕ)
  staged : ℕ → Option (KVTensor κ × KVTensor κ)

/-- A private list of rows for each live handle, and the append in progress. -/
structure PrivateLists (κ : Type) where
  rows : Handle → Option (List (Row κ))
  pending : Option (PendingAppend κ)

namespace PrivateLists

/-- No handle and nothing pending. -/
def empty : PrivateLists κ := ⟨fun _ => none, none⟩

/-- Append the staged rows of the requests, each with its index in the batch. -/
def appendAll (layers : ℕ) (staged : ℕ → Option (KVTensor κ × KVTensor κ))
    (requests : List ((Handle × ℕ) × ℕ)) (rows : Handle → Option (List (Row κ))) :
    Handle → Option (List (Row κ)) :=
  requests.foldl
    (fun rows x => Function.update rows x.1.1
      ((rows x.1.1).map (· ++ stagedRows staged layers x.2 x.1.2)))
    rows

/-- What a call does to the lists, given how it was answered.  Every other answer,
the raised ones among them, leaves them as they are. -/
def step (layers : ℕ) (t : PrivateLists κ) : KVOp ρ κ → KVReply κ → PrivateLists κ
  | .create _, .handle h => { t with rows := Function.update t.rows h (some []) }
  | .fork source _ length, .handle h =>
      { t with rows := Function.update t.rows h ((t.rows source).map fun rows =>
          rows.take (length.getD rows.length).toNat) }
  | .release (some h), .done => { t with rows := Function.update t.rows h none }
  | .reset _, .done => { t with rows := fun _ => none }
  | .reserveBatch caches appendLengths, .done =>
      { t with pending := some ⟨caches.zip appendLengths, fun _ => none⟩ }
  | .stageLayer layer keys values, .staged _ _ =>
      { t with pending := t.pending.map fun b =>
          { b with staged := Function.update b.staged layer (some (keys, values)) } }
  | .commit _, .lengths _ =>
      match t.pending with
      | none => t
      | some b => ⟨appendAll layers b.staged b.requests.zipIdx t.rows, none⟩
  | .abort, .done => { t with pending := none }
  | _, _ => t

theorem appendAll_of_notMem {layers : ℕ} {staged : ℕ → Option (KVTensor κ × KVTensor κ)}
    {requests : List ((Handle × ℕ) × ℕ)} {rows : Handle → Option (List (Row κ))} {h : Handle}
    (hnot : h ∉ requests.map fun x => x.1.1) : appendAll layers staged requests rows h = rows h :=
  foldl_update_of_notMem _ rows hnot

theorem appendAll_of_mem {layers : ℕ} {staged : ℕ → Option (KVTensor κ × KVTensor κ)}
    {requests : List ((Handle × ℕ) × ℕ)} {rows : Handle → Option (List (Row κ))}
    (hnodup : (requests.map fun x => x.1.1).Nodup) {x : (Handle × ℕ) × ℕ} (hx : x ∈ requests) :
    appendAll layers staged requests rows x.1.1 =
      (rows x.1.1).map (· ++ stagedRows staged layers x.2 x.1.2) :=
  foldl_update_of_mem
    (fun (x : (Handle × ℕ) × ℕ) (list : Option (List (Row κ))) =>
      list.map (· ++ stagedRows staged layers x.2 x.1.2)) rows hnodup hx

end PrivateLists

namespace KVStore

variable {w : KVStore ρ κ}

/-- The guard: reservations are made on live caches, and a cache is not released
while the open reservation names it. -/
def Isolated (w : KVStore ρ κ) : KVOp ρ κ → Prop
  | .reserveBatch caches _ => ∀ h ∈ caches, h ∈ w.backend.caches
  | .release (some h) => ∀ r ∈ w.outstanding, h ∉ r.requestCaches
  | _ => True

instance (w : KVStore ρ κ) : DecidablePred w.Isolated
  | .reserveBatch caches _ => inferInstanceAs (Decidable (∀ h ∈ caches, _))
  | .release (some h) => inferInstanceAs (Decidable (∀ r ∈ w.outstanding, h ∉ r.requestCaches))
  | .release none | .create _ | .get _ _ | .fork _ _ _ | .reset _ | .stageLayer _ _ _
  | .commit _ | .abort => inferInstanceAs (Decidable True)

/-- **The simulation relation.** Each live handle reads its private list, and the
open reservation has staged what is pending. -/
structure Refines (layers : ℕ) (w : KVStore ρ κ) (t : PrivateLists κ) : Prop where
  inv : w.Inv
  layers_eq : w.backend.numLayers = layers
  rows_eq : ∀ h, t.rows h = if h ∈ w.backend.caches then some (w.backend.visibleRows h) else none
  closed : w.outstanding = none → t.pending = none
  opened : ∀ r, w.outstanding = some r → w.backend.Writable r ∧
    ∃ b, t.pending = some b ∧ b.requests = r.requestCaches.zip r.appendLengths ∧
      w.backend.HoldsStaged r b.staged

variable {layers : ℕ} {t : PrivateLists κ}

/-- The caches of an open reservation are live, so a commit may install its tables. -/
theorem Refines.commitsLive (h : Refines layers w t) (op : KVOp ρ κ) : w.CommitsLive op := by
  cases op with
  | commit evalError =>
      cases evalError with
      | none =>
          exact fun r hr _ change hchange =>
            .inl ((h.opened r hr).1.live _ (PagedKVCacheBackend.mem_requestCaches hchange))
      | some e => trivial
  | _ => trivial

/-- A quiet call changes no list. -/
theorem Refines.step_quiet (h : Refines layers w t) {op : KVOp ρ κ} {reply : KVReply κ}
    (hq : Quiet w op reply) : t.step layers op reply = t := by
  cases hq with
  | notIssued => cases op <;> first | rfl | (rename_i handle; cases handle <;> rfl)
  | raised => cases op <;> first | rfl | (rename_i handle; cases handle <;> rfl)
  | got => rfl
  | @releasedNothing handle hdead =>
      cases handle with
      | none => rfl
      | some x =>
          have hnone : t.rows x = none := by rw [h.rows_eq, if_neg (hdead x rfl)]
          simp [PrivateLists.step, ← hnone]
  | alreadyFinished hclosed =>
      have hnone := h.closed hclosed
      simp [PrivateLists.step, ← hnone]

/-- A call that leaves the pools and the open reservation alone and shows no more
rows keeps what is staged. -/
theorem Refines.of_backend (h : Refines layers w t) {s : PagedKVCacheBackend ρ κ}
    {t' : PrivateLists κ} (hinv : Inv { w with backend := s })
    (hlayers : s.numLayers = w.backend.numLayers) (hkeys : s.keyPages = w.backend.keyPages)
    (hvalues : s.valuePages = w.backend.valuePages)
    (hshow : ∀ r, w.outstanding = some r → w.backend.Writable r → w.backend.ShowsNoMore s r)
    (hrows : ∀ x, t'.rows x = if x ∈ s.caches then some (s.visibleRows x) else none)
    (hpending : t'.pending = t.pending) : Refines layers { w with backend := s } t' where
  inv := hinv
  layers_eq := hlayers.trans h.layers_eq
  rows_eq := hrows
  closed := fun hclosed => hpending.trans (h.closed hclosed)
  opened := by
    intro r hr
    obtain ⟨hw, b, hb, hrequests, hstaged⟩ := h.opened r hr
    have hshow := hshow r hr hw
    exact ⟨hw.frame hshow, b, hpending.trans hb, hrequests, hstaged.frame hshow hkeys hvalues⟩

/-- A new cache: its list is what it reads, and the other lists stay. -/
theorem Refines.rows_addCache (h : Refines layers w t) (requestId : ρ) (table : List Page)
    (length : ℕ) (x : Handle) :
    Function.update t.rows w.backend.nextHandle
        (some ((w.backend.addCache requestId table length).visibleRows w.backend.nextHandle)) x =
      if x ∈ (w.backend.addCache requestId table length).caches then
        some ((w.backend.addCache requestId table length).visibleRows x) else none := by
  have hmem : x ∈ (w.backend.addCache requestId table length).caches ↔
      x = w.backend.nextHandle ∨ x ∈ w.backend.caches := Finset.mem_insert
  by_cases hx : x = w.backend.nextHandle
  · subst hx
    rw [Function.update_self, if_pos (hmem.mpr (.inl rfl))]
  · rw [Function.update_of_ne hx, h.rows_eq]
    by_cases hlive : x ∈ w.backend.caches
    · rw [if_pos hlive, if_pos (hmem.mpr (.inr hlive)),
        PagedKVCacheBackend.visibleRows_addCache_of_lt _ _ _ (h.inv.wf.fresh x hlive)]
    · rw [if_neg hlive, if_neg fun hx' => (hmem.mp hx').elim hx hlive]

/-- A commit appends the staged rows to the lists of its requests. -/
theorem Refines.rows_committed (h : Refines layers w t) {r : PagedBatchReservation κ}
    (hopen : w.outstanding = some r) (hall : w.backend.AllStaged r) {b : PendingAppend κ}
    (hrequests : b.requests = r.requestCaches.zip r.appendLengths)
    (hstaged : w.backend.HoldsStaged r b.staged) (x : Handle) :
    PrivateLists.appendAll layers b.staged b.requests.zipIdx t.rows x =
      if x ∈ (w.backend.committed r).caches then some ((w.backend.committed r).visibleRows x)
      else none := by
  have ho := h.inv.opened r hopen
  have hw := (h.opened r hopen).1
  have hhandles : (b.requests.zipIdx.map fun y => y.1.1) = r.requestCaches := by
    calc (b.requests.zipIdx.map fun y => y.1.1)
        = (b.requests.zipIdx.map Prod.fst).map Prod.fst := by rw [List.map_map]; rfl
      _ = r.requestCaches := by
          rw [List.zipIdx_map_fst, hrequests, List.map_fst_zip (by rw [ho.appends_length])]
  have hcaches : (w.backend.committed r).caches = w.backend.caches := rfl
  rw [hcaches]
  by_cases hx : x ∈ r.requestCaches
  · obtain ⟨change, hchange, rfl⟩ := ho.shaped.exists_change hx
    obtain ⟨i, hi, rfl⟩ := List.getElem_of_mem hchange
    have hmem : (r.changes[i], i) ∈ r.changes.zipIdx :=
      List.mk_mem_zipIdx_iff_getElem?.mpr (List.getElem?_eq_getElem hi)
    have hfst : r.changes.map Prod.fst = b.requests := by
      rw [hrequests, PagedBatchReservation.changes, List.map_fst_zip]
      simp [ho.appends_length, ho.tables_length]
    have hmem' : (r.changes[i].1, i) ∈ b.requests.zipIdx := by
      rw [List.mk_mem_zipIdx_iff_getElem?, ← hfst, List.getElem?_map,
        List.getElem?_eq_getElem hi, Option.map_some]
    have happend : PrivateLists.appendAll layers b.staged b.requests.zipIdx t.rows
        r.changes[i].1.1 = _ := PrivateLists.appendAll_of_mem (hhandles ▸ ho.nodup) hmem'
    have hlive := hw.live _ hx
    rw [happend, h.rows_eq, if_pos hlive, if_pos hlive, Option.map_some,
      PagedKVCacheBackend.visibleRows_committed_of_mem hstaged hall ho hmem, h.layers_eq]
  · rw [PrivateLists.appendAll_of_notMem (by rwa [hhandles]), h.rows_eq]
    by_cases hlive : x ∈ w.backend.caches
    · rw [if_pos hlive, if_pos hlive,
        PagedKVCacheBackend.visibleRows_committed_of_notMem hstaged hall ho hlive hx]
    · rw [if_neg hlive, if_neg hlive]

/-- **The step lemma.** Every move under the guard keeps the lists in step with the
rows. -/
theorem refines_moves (h : Refines layers w t) {op : KVOp ρ κ} {reply : KVReply κ}
    {w' : KVStore ρ κ} (hok : w.Isolated op) (hm : Moves w op reply w') :
    Refines layers w' (t.step layers op reply) := by
  have hinv := inv_moves h.inv hm
  cases hm with
  | quiet hq n =>
      rw [h.step_quiet hq]
      exact h.of_backend hinv rfl rfl rfl
        (fun r hr hw => hw.showsNoMore_of_same rfl rfl rfl) h.rows_eq rfl
  | created requestId =>
      refine h.of_backend hinv rfl rfl rfl
        (fun r hr hw => hw.showsNoMore_addCache h.inv.wf _ (by simp)) (fun x => ?_) rfl
      rw [← h.rows_addCache, PagedKVCacheBackend.visibleRows_create]
      rfl
  | @forked handle requestId length hlive hn =>
      have hrows : (t.rows handle).map (fun rows => rows.take (length.getD rows.length).toNat) =
          some ((w.backend.visibleRows handle).take (w.backend.forkLength handle length)) := by
        rw [h.rows_eq, if_pos hlive, Option.map_some, PagedKVCacheBackend.length_visibleRows]
        rfl
      refine h.of_backend hinv rfl rfl rfl
        (fun r hr hw => hw.showsNoMore_addCache h.inv.wf _ fun pos hpos => ?_) (fun x => ?_) rfl
      · exact ⟨handle, hlive, pos, lt_of_lt_of_le hpos hn,
          PagedKVCacheBackend.slotOf_take h.inv.wf.pageSize_pos _ hpos⟩
      · rw [← h.rows_addCache, PagedKVCacheBackend.visibleRows_fork h.inv.wf requestId hn, ← hrows]
        rfl
  | @released x hlive =>
      refine h.of_backend hinv rfl rfl rfl
        (fun r hr hw => hw.showsNoMore_released (hok r hr)) (fun y => ?_) rfl
      have hmem : y ∈ (w.backend.released x).caches ↔ y ≠ x ∧ y ∈ w.backend.caches :=
        Finset.mem_erase
      by_cases hy : y = x
      · subst hy
        rw [if_neg fun hy => (hmem.mp hy).1 rfl]
        exact Function.update_self _ _ _
      · rw [show (t.step layers (.release (some x) : KVOp ρ κ) .done).rows y = t.rows y from
          Function.update_of_ne hy _ _, h.rows_eq]
        by_cases hlive : y ∈ w.backend.caches
        · rw [if_pos hlive, if_pos (hmem.mpr ⟨hy, hlive⟩)]
          rfl
        · rw [if_neg hlive, if_neg fun hy' => hlive (hmem.mp hy').2]
  | reset hclosed resetCounters =>
      refine ⟨hinv, h.layers_eq, fun x => rfl, h.closed, fun r hr => ?_⟩
      exact absurd hclosed (by rw [show w.outstanding = some r from hr]; simp)
  | @reserved caches appendLengths changes r hclosed hcreated hr =>
      have hw := PagedKVCacheBackend.writable_reservedFor hr h.inv.wf hok
      have hopen : outstanding ⟨w.backend.reservedFor r, some r⟩ = some r :=
        outstanding_eq_some.mpr ⟨rfl, by rw [hr.eq_new]; rfl⟩
      refine ⟨hinv, h.layers_eq, h.rows_eq, by simp [hopen], fun r' hr' => ?_⟩
      obtain rfl : r = r' := by simpa [hopen] using hr'
      refine ⟨hw, _, rfl, by rw [hr.eq_new]; rfl, ?_, ?_⟩
      · intro layer _
        rw [hr.eq_new]
        rfl
      · intro layer tensors hlayer
        cases hlayer
  | @staged layer keys values r hopen hst =>
      obtain ⟨hw, b, hb, hrequests, hstaged⟩ := h.opened r hopen
      have ho := h.inv.opened r hopen
      have hopen' : outstanding ⟨w.backend.copiedFor r layer,
          some (PagedKVCacheBackend.stagedWith r layer
            (w.backend.stagedPools r layer keys values))⟩ = some _ :=
        outstanding_eq_some.mpr ⟨rfl, hst.not_finished⟩
      refine ⟨hinv, h.layers_eq, fun x => ?_, by simp [hopen'], fun r' hr' => ?_⟩
      · refine (h.rows_eq x).trans ?_
        by_cases hlive : x ∈ w.backend.caches
        · rw [if_pos hlive, if_pos (show x ∈ (w.backend.copiedFor r layer).caches from hlive),
            PagedKVCacheBackend.visibleRows_copiedFor h.inv.wf ho hw layer hlive]
        · rw [if_neg hlive, if_neg (show x ∉ (w.backend.copiedFor r layer).caches from hlive)]
      · obtain rfl : PagedKVCacheBackend.stagedWith r layer
            (w.backend.stagedPools r layer keys values) = r' := by simpa [hopen'] using hr'
        have hw' := hw.frame (hw.showsNoMore_of_same rfl rfl rfl :
          w.backend.ShowsNoMore (w.backend.copiedFor r layer) r)
        refine ⟨{ hw' with }, ⟨b.requests, Function.update b.staged layer (some (keys, values))⟩,
          by rw [PrivateLists.step, hb]; rfl, hrequests, ?_⟩
        exact hstaged.stagedWith h.inv.wf ho hw layer keys values
  | @committed r hopen hall hc =>
      obtain ⟨hw, b, hb, hrequests, hstaged⟩ := h.opened r hopen
      have hclosed : outstanding ⟨w.backend.committed r, some { r with finished := true }⟩ = none :=
        outstanding_of_finished rfl rfl
      have hstep : t.step layers (.commit none : KVOp ρ κ) (.lengths
          (r.requestCaches.map fun h => ((w.backend.committed r).cacheOf h).size)) =
          ⟨PrivateLists.appendAll layers b.staged b.requests.zipIdx t.rows, none⟩ := by
        rw [PrivateLists.step, hb]
      rw [hstep]
      exact ⟨hinv, h.layers_eq, h.rows_committed hopen hall hrequests hstaged, fun _ => rfl,
        fun r' hr' => by simp [hclosed] at hr'⟩
  | @aborted r hopen =>
      have hclosed : outstanding ⟨w.backend.aborted r, some { r with finished := true }⟩ = none :=
        outstanding_of_finished rfl rfl
      exact ⟨hinv, h.layers_eq, h.rows_eq, fun _ => rfl, fun r' hr' => by simp [hclosed] at hr'⟩

/-- A call changes the list of no handle but the one it creates or drops and the ones
its commit appends to. -/
theorem Refines.visibleRows_step [DecidableEq ρ] (h : Refines layers w t) {op : KVOp ρ κ}
    (hok : w.Isolated op) {x : Handle} (hx : x ∈ w.backend.caches)
    (hx' : x ∈ (w.step op).2.backend.caches)
    (hnot : ∀ e r, op = .commit e → w.outstanding = some r → x ∉ r.requestCaches) :
    (w.step op).2.backend.visibleRows x = w.backend.visibleRows x := by
  have hm := moves_step h.inv (h.commitsLive op)
  have hnext := refines_moves h hok hm
  have hrows : (t.step layers op (w.step op).1).rows x = t.rows x := by
    generalize hreply : (w.step op).1 = reply at hm
    generalize hstate : (w.step op).2 = w' at hm hx'
    cases hm with
    | quiet hq n => rw [h.step_quiet hq]
    | created | forked =>
        exact Function.update_of_ne (ne_of_lt (h.inv.wf.fresh x hx)) _ _
    | @released y hlive =>
        exact Function.update_of_ne (Finset.mem_erase.mp hx').1 _ _
    | reset => simp [PagedKVCacheBackend.emptied] at hx'
    | reserved | staged | aborted => rfl
    | @committed r hopen hall hc =>
        obtain ⟨-, b, hb, hrequests, -⟩ := h.opened r hopen
        have ho := h.inv.opened r hopen
        rw [PrivateLists.step, hb]
        refine PrivateLists.appendAll_of_notMem fun hmem => hnot none r rfl hopen ?_
        obtain ⟨y, hy, rfl⟩ := List.mem_map.mp hmem
        have hfst := List.fst_mem_of_mem_zipIdx hy
        rw [hrequests] at hfst
        exact (List.of_mem_zip hfst).1
  have hnew := hnext.rows_eq x
  rw [hrows, h.rows_eq, if_pos hx, if_pos hx'] at hnew
  exact (Option.some.inj hnew).symm

theorem refines_ofConfig {config : PagedKVConfig} {zero : κ} {noRequest : ρ}
    (h : ofConfig config zero noRequest = .ok w) :
    Refines w.backend.numLayers w PrivateLists.empty := by
  have hinv := inv_ofConfig h
  rw [ofConfig] at h
  cases hpost : PagedKVCacheBackend.postInit config zero noRequest with
  | error e => simp [hpost, Except.map] at h
  | ok s =>
      obtain rfl : KVStore.mk s none = w := by simpa [hpost, Except.map] using h
      obtain ⟨-, -, -, hcaches, -⟩ := PagedKVCacheBackend.wf_postInit hpost
      refine ⟨hinv, rfl, fun x => ?_, fun _ => rfl, fun r hr => ?_⟩
      · simp [PrivateLists.empty, hcaches]
      · simp [outstanding] at hr

/-- **The paged store refines private lists.** After every run of isolated calls each
live handle reads exactly its private list, and a further call changes the rows of no
handle but the ones its commit appends to. -/
theorem paged_refines_privateLists [DecidableEq ρ] {config : PagedKVConfig} {zero : κ}
    {noRequest : ρ} {ops : List (KVOp ρ κ)} (hw : ofConfig config zero noRequest = .ok w)
    (hops : Run.Each step Isolated w ops) :
    let w' := Run.exec step w ops
    let t := Run.follow step (PrivateLists.step w.backend.numLayers) w PrivateLists.empty ops
    (∀ h, t.rows h = if h ∈ w'.backend.caches then some (w'.backend.visibleRows h) else none) ∧
      ∀ op, w'.Isolated op → ∀ h ∈ w'.backend.caches, h ∈ (w'.step op).2.backend.caches →
        (∀ e r, op = .commit e → w'.outstanding = some r → h ∉ r.requestCaches) →
        (w'.step op).2.backend.visibleRows h = w'.backend.visibleRows h := by
  intro w' t
  have hstep : ∀ (v : KVStore ρ κ) (u : PrivateLists κ) op, Refines w.backend.numLayers v u →
      v.Isolated op →
      Refines w.backend.numLayers (v.step op).2
        (u.step w.backend.numLayers op (v.step op).1) :=
    fun v u op h hok => refines_moves h hok (moves_step h.inv (h.commitsLive op))
  have h : Refines w.backend.numLayers w' t := Run.simulation hstep (refines_ofConfig hw) hops
  exact ⟨h.rows_eq, fun op hok x hx hx' hnot => h.visibleRows_step hok hx hx' hnot⟩

/-- Three rows, a fork of the first two and one append to both, which copies the
shared page twice. -/
theorem refines_after_shared_append : ∃ w : KVStore ℕ ℕ, ofConfig threePages 0 0 = .ok w ∧
    let ops := appendThree ++ [.commit none, .fork 0 1 (some 2), .reserveBatch [0, 1] [1, 1],
      .stageLayer 0 ⟨[2, 1, 1, 1], .float16, fun i _ => 10 + i⟩
        ⟨[2, 1, 1, 1], .float16, fun i _ => 20 + i⟩, .commit none]
    (Run.follow step (PrivateLists.step 1) w PrivateLists.empty ops).rows 1 =
        some ((Run.exec step w ops).backend.visibleRows 1) ∧
      (Run.exec step w ops).backend.visibleRows 1 = [[(0, 0)], [(1, 1)], [(11, 21)]] := by
  refine ⟨_, rfl, ?_, by decide⟩
  have hw : ofConfig threePages 0 0 = .ok (_ : KVStore ℕ ℕ) := rfl
  exact (paged_refines_privateLists hw (by decide)).1 1

end KVStore
end MlxRuntime
