import MlxRuntime.Cache.Store

/-!
# Pages without references return to the free list

A page whose last reference goes while a reservation pins it is not put on the free
list by `release`; `commit` looks for such pages before it drops its own pins, and
`abort` does not look for them.  So a run loses a page exactly when a reservation
ends with a pinned page that no table holds any more.  `KeepsPinned` excludes that,
and under it no page is lost.

## Main definitions

* `NoLeak` — the free list is the set of unreferenced pages, and what follows.
* `KVStore.KeepsPinned` — the guard.
* `KVStore.Covered` — the invariant: an unreferenced page is free or pinned by the
  open reservation.
-/

namespace MlxRuntime

variable {ρ κ : Type}

namespace PagedKVCacheBackend

variable {s : PagedKVCacheBackend ρ κ}

/-- `release` of each handle in turn. -/
def releaseAll (s : PagedKVCacheBackend ρ κ) (handles : List Handle) :
    PagedKVCacheBackend ρ κ :=
  handles.foldl (fun s h => (s.release (some h)).2) s

/-- No page is lost: the free list is what has no reference, `metrics` counts it, a
fresh request can reserve all of it, and releasing every handle fills it. -/
structure NoLeak (s : PagedKVCacheBackend ρ κ) : Prop where
  free_eq : s.freePages = (List.range s.numPages).filter fun p => s.refCounts p = 0
  metrics_free : s.metrics.freePages = s.freePages.length
  reservable : ∀ requestId n, 0 < n → pagesFor s.pageSize n ≤ s.metrics.freePages →
    ∃ r s', (s.create requestId).2.reserveBatch [(s.create requestId).1] [n] = (.ok r, s')
  releaseAll_full : ∀ handles : List Handle, (∀ h ∈ s.caches, h ∈ handles) →
    (s.releaseAll handles).freePages = List.range s.numPages

/-- Every unreferenced page is free. -/
def FreeCovers (s : PagedKVCacheBackend ρ κ) : Prop :=
  ∀ p < s.numPages, s.refCounts p = 0 → p ∈ s.freePages

theorem free_eq_of_freeCovers (hs : s.Wf) (hfree : s.FreeCovers) :
    s.freePages = (List.range s.numPages).filter fun p => s.refCounts p = 0 := by
  refine eq_of_pairwise_lt hs.free_sorted (List.pairwise_lt_range.filter _) fun p => ?_
  simp only [List.mem_filter, List.mem_range, decide_eq_true_eq]
  exact ⟨fun hp => ⟨hs.free_lt p hp, hs.free_ref p hp⟩, fun hp => hfree p hp.1 hp.2⟩

/-- `metrics` counts the pages without references. -/
theorem metrics_freePages (hs : s.Wf) :
    s.metrics.freePages = (List.range s.numPages).countP fun p => s.refCounts p = 0 := by
  have hsplit := List.length_eq_countP_add_countP (fun p => decide (0 < s.refCounts p))
    (l := List.range s.numPages)
  have hcompl : (List.range s.numPages).countP (fun p => ¬ decide (0 < s.refCounts p)) =
      (List.range s.numPages).countP fun p => s.refCounts p = 0 := by
    refine List.countP_congr fun p _ => ?_
    have := hs.ref_nonneg p
    simp only [decide_eq_true_eq]
    omega
  rw [List.length_range, hcompl] at hsplit
  simp only [metrics]
  omega

/-- A request with no rows can reserve as many pages as are available. -/
theorem exists_reserveBatch_of_empty {h : Handle} (hempty : (s.cacheOf h).blockTable = [])
    {n : ℕ} (hn : 0 < n)
    (hfit : pagesFor s.pageSize ((s.cacheOf h).size + n) ≤ s.availablePages.length) :
    ∃ r s', s.reserveBatch [h] [n] = (.ok r, s') := by
  have htail : s.replaceTail (s.cacheOf h) s.availablePages =
      some ⟨[], [], [], s.availablePages⟩ := by simp [replaceTail, hempty]
  obtain ⟨change, hchange⟩ : ∃ change,
      s.candidateTable (s.cacheOf h) n s.availablePages = some change := by
    rw [candidateTable, htail, Option.bind_some]
    exact ⟨_, extendTable_eq_some.mpr ⟨by simpa using hfit, rfl⟩⟩
  have hne : n ≠ 0 := Nat.ne_of_gt hn
  simp [reserveBatch, candidateTables, hchange, hne.symm]

theorem releaseAll_cons (s : PagedKVCacheBackend ρ κ) (h : Handle) (handles : List Handle) :
    s.releaseAll (h :: handles) = (s.release (some h)).2.releaseAll handles := rfl

/-- A release with nothing pinned puts every page it leaves unreferenced on the free
list. -/
theorem freeCovers_released (hs : s.Wf) (hpins : ∀ p, s.pinCounts p = 0)
    (hfree : s.FreeCovers) {h : Handle} (hh : h ∈ s.caches) : (s.released h).FreeCovers := by
  intro p hp hzero
  rw [mem_freePages_released hs hh]
  by_cases hmem : p ∈ (s.cacheOf h).blockTable
  · have hcount := List.count_eq_one_of_mem (hs.table_nodup h hh) hmem
    simp only [released, hcount] at hzero
    exact .inr ⟨hmem, by omega, hpins p⟩
  · simp only [released, List.count_eq_zero_of_not_mem hmem] at hzero
    exact .inl (hfree p hp (by omega))

/-- Releasing every live handle leaves every page free. -/
theorem releaseAll_freePages {handles : List Handle} (hs : s.Wf)
    (hpins : ∀ p, s.pinCounts p = 0) (hfree : s.FreeCovers)
    (hall : ∀ h ∈ s.caches, h ∈ handles) :
    (s.releaseAll handles).freePages = List.range s.numPages := by
  induction handles generalizing s with
  | nil =>
      have hempty : s.caches = ∅ := Finset.eq_empty_of_forall_notMem (by simpa using hall)
      rw [show s.releaseAll [] = s from rfl, free_eq_of_freeCovers hs hfree,
        List.filter_eq_self]
      intro p _
      simp [hs.ref_eq, tableCount, hempty]
  | cons h handles ih =>
      rw [releaseAll_cons]
      by_cases hh : h ∈ s.caches
      · rw [release_of_mem hs hh]
        refine ih (wf_released hs hh) hpins (freeCovers_released hs hpins hfree hh) ?_
        intro x hx
        obtain ⟨hne, hx⟩ := Finset.mem_erase.mp hx
        exact (List.mem_cons.mp (hall x hx)).resolve_left hne
      · rw [release_of_notMem hh]
        refine ih hs hpins hfree fun x hx => ?_
        exact (List.mem_cons.mp (hall x hx)).resolve_left (ne_of_mem_of_not_mem hx hh)

/-- What covering the unreferenced pages gives while nothing is reserved or pinned. -/
theorem noLeak_of_freeCovers (hs : s.Wf) (hreserved : s.reservedPages = ∅)
    (hpins : ∀ p, s.pinCounts p = 0) (hfree : s.FreeCovers) : s.NoLeak where
  free_eq := free_eq_of_freeCovers hs hfree
  metrics_free := by
    rw [metrics_freePages hs, free_eq_of_freeCovers hs hfree, List.countP_eq_length_filter]
  reservable := by
    intro requestId n hn hfit
    have hcache : (s.addCache requestId [] 0).cacheOf s.nextHandle =
        { handle := s.nextHandle, requestId := requestId, blockTable := [], length := 0 } :=
      Function.update_self _ _ _
    have havailable : (s.addCache requestId [] 0).availablePages = s.freePages := by
      simp [availablePages, addCache, hreserved]
    rw [create_eq]
    refine exists_reserveBatch_of_empty (by rw [hcache]) hn ?_
    rw [hcache, havailable, free_eq_of_freeCovers hs hfree, ← List.countP_eq_length_filter,
      ← metrics_freePages hs]
    rw [PagedRequestCache.size, Nat.zero_add]
    exact hfit
  releaseAll_full := fun _ hall => releaseAll_freePages hs hpins hfree hall

end PagedKVCacheBackend

namespace KVStore

variable {w : KVStore ρ κ}

/-- The guard: when a reservation ends, each page it pins is still in a block table,
or is free already.  A commit meets the page-table guard as well. -/
def KeepsPinned (w : KVStore ρ κ) : KVOp ρ κ → Prop
  | .commit none => ∀ r ∈ w.outstanding, w.backend.AllStaged r →
      w.backend.Committable r ∧ ∀ p ∈ r.pinnedPages,
        w.backend.HeldAfter r p ∨ (p ∈ w.backend.freePages ∧ p ∉ r.reservedPages)
  | .abort => ∀ r ∈ w.outstanding, ∀ p ∈ r.pinnedPages,
      (∃ h ∈ w.backend.caches, p ∈ (w.backend.cacheOf h).blockTable) ∨ p ∈ w.backend.freePages
  | _ => True

instance (w : KVStore ρ κ) : DecidablePred w.KeepsPinned
  | .commit none | .abort => inferInstanceAs (Decidable (∀ r ∈ w.outstanding, _))
  | .commit (some _) | .create _ | .get _ _ | .fork _ _ _ | .release _ | .reset _
  | .reserveBatch _ _ | .stageLayer _ _ _ => inferInstanceAs (Decidable True)

theorem KeepsPinned.commitsLive {op : KVOp ρ κ} (h : w.KeepsPinned op) : w.CommitsLive op := by
  cases op with
  | commit evalError =>
      cases evalError with
      | none => exact fun r hr hstaged => (h r hr hstaged).1
      | some e => trivial
  | _ => trivial

/-- An unreferenced page is free or pinned by the open reservation. -/
def Covered (w : KVStore ρ κ) : Prop :=
  ∀ p < w.backend.numPages, w.backend.refCounts p = 0 →
    p ∈ w.backend.freePages ∨ p ∈ w.pinnedNow

/-- A step that only adds references and keeps the free list and the pins. -/
theorem Covered.of_addCache (hw : w.Inv) (hc : w.Covered) (requestId : ρ) (table : List Page)
    (length : ℕ) :
    Covered { w with backend := w.backend.addCache requestId table length } := by
  intro p hp hzero
  have := hw.wf.ref_nonneg p
  have hsum : w.backend.refCounts p + (table.count p : ℤ) = 0 := hzero
  exact hc p hp (by omega)

/-- A released page whose last reference goes is free unless it is pinned. -/
theorem Covered.of_released (hw : w.Inv) (hc : w.Covered) {h : Handle}
    (hh : h ∈ w.backend.caches) : Covered { w with backend := w.backend.released h } := by
  intro p hp hzero
  rw [PagedKVCacheBackend.mem_freePages_released hw.wf hh]
  by_cases hmem : p ∈ (w.backend.cacheOf h).blockTable
  · by_cases hpin : p ∈ w.pinnedNow
    · exact .inr hpin
    · have hcount := List.count_eq_one_of_mem (hw.wf.table_nodup h hh) hmem
      have hpins := hw.pins_eq p
      simp only [hpin, if_false] at hpins
      simp only [PagedKVCacheBackend.released, hcount] at hzero
      exact .inl (.inr ⟨hmem, by omega, hpins⟩)
  · simp only [PagedKVCacheBackend.released, List.count_eq_zero_of_not_mem hmem] at hzero
    exact (hc p hp (by omega)).imp_left .inl

/-- Every page a commit leaves unreferenced is on the free list. -/
theorem freeCovers_committed (hw : w.Inv) {r : PagedBatchReservation κ}
    (hopen : w.outstanding = some r) (hc : w.backend.Committable r)
    (hheld : ∀ p ∈ r.pinnedPages,
      w.backend.HeldAfter r p ∨ (p ∈ w.backend.freePages ∧ p ∉ r.reservedPages)) :
    (w.backend.committed r).FreeCovers := by
  intro p hp (hzero : w.backend.candidateRefCounts r p = 0)
  have ho := hw.opened r hopen
  have hout := (ho.candidateRefCounts_eq_zero_iff hw.wf hc p).mp hzero
  rw [PagedKVCacheBackend.mem_freePages_committed hw.wf]
  by_cases hpin : p ∈ r.pinnedPages
  · exact .inl ((hheld p hpin).resolve_left hout)
  · have hpins := hw.pins_eq p
    rw [pinnedNow_of_some hopen, if_neg hpin] at hpins
    refine .inr ⟨hp, hzero, hpins, fun hres => hout ?_⟩
    -- A reserved page goes into the new table of a live cache.
    obtain ⟨change, hchange, hmem, hne⟩ := ho.reserved_used p hres
    exact .inr ⟨change, hchange, (hc change hchange).resolve_right hne, hmem⟩

/-- **The step lemma.** Every move that meets the guard keeps the unreferenced pages
covered. -/
theorem covered_moves (hw : w.Inv) (hc : w.Covered) {op : KVOp ρ κ} {reply : KVReply κ}
    {w' : KVStore ρ κ} (hok : w.KeepsPinned op) (h : Moves w op reply w') : w'.Covered := by
  cases h with
  | quiet _ n => exact hc
  | created requestId => exact hc.of_addCache hw _ _ _
  | forked requestId hlive hn => exact hc.of_addCache hw _ _ _
  | released hlive => exact hc.of_released hw hlive
  | reset hclosed resetCounters =>
      exact fun p hp _ => .inl (List.mem_range.mpr hp)
  | @reserved caches appendLengths changes r hclosed hcreated h =>
      intro p hp hzero
      have := hc p hp hzero
      rw [pinnedNow_of_none hclosed] at this
      exact .inl (this.resolve_right List.not_mem_nil)
  | @staged layer keys values r hopen h =>
      intro p hp hzero
      have := hc p hp hzero
      rw [pinnedNow_of_some hopen] at this
      refine this.imp_right fun hmem => ?_
      have hopen' : outstanding ⟨w.backend.copiedFor r layer,
          some (PagedKVCacheBackend.stagedWith r layer
            (w.backend.stagedPools r layer keys values))⟩ = some _ :=
        outstanding_eq_some.mpr ⟨rfl, h.not_finished⟩
      rwa [pinnedNow_of_some hopen']
  | committed hopen hstaged hcommit =>
      exact fun p hp hzero =>
        .inl (freeCovers_committed hw hopen hcommit (hok _ hopen hstaged).2 p hp hzero)
  | @aborted r hopen =>
      intro p hp hzero
      refine .inl ((hc p hp hzero).elim id fun hpin => ?_)
      rw [pinnedNow_of_some hopen] at hpin
      rcases hok r hopen p hpin with ⟨h, hh, hmem⟩ | hfree
      · exact absurd hmem (hw.wf.notMem_table hzero hh)
      · exact hfree

/-- The page-table invariant with the unreferenced pages covered. -/
def LeakInv (w : KVStore ρ κ) : Prop := w.Inv ∧ w.Covered

theorem leakInv_exec [DecidableEq ρ] {ops : List (KVOp ρ κ)} (hw : w.LeakInv)
    (hops : Run.Each step KeepsPinned w ops) : (Run.exec step w ops).LeakInv := by
  have hstep : ∀ (w : KVStore ρ κ) op, w.LeakInv → KeepsPinned w op → (step w op).2.LeakInv := by
    rintro w op ⟨hw, hc⟩ hok
    have hmoves := moves_step hw hok.commitsLive
    exact ⟨inv_moves hw hmoves, covered_moves hw hc hok hmoves⟩
  exact Run.exec_invariant hstep hw hops

theorem leakInv_ofConfig {config : PagedKVConfig} {zero : κ} {noRequest : ρ}
    (h : ofConfig config zero noRequest = .ok w) : w.LeakInv := by
  refine ⟨inv_ofConfig h, fun p hp _ => .inl ?_⟩
  rw [ofConfig] at h
  cases hpost : PagedKVCacheBackend.postInit config zero noRequest with
  | error e => simp [hpost, Except.map] at h
  | ok s =>
      obtain rfl : KVStore.mk s none = w := by simpa [hpost, Except.map] using h
      obtain ⟨-, -, -, -, hfree⟩ := PagedKVCacheBackend.wf_postInit hpost
      rw [hfree]
      exact List.mem_range.mpr hp

end KVStore
end MlxRuntime
