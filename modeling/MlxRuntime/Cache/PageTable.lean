import MlxRuntime.Cache.Reserve
import Mathlib.Algebra.Order.BigOperators.Group.Finset
import Mathlib.Tactic.Linarith

/-!
# The page-table invariant

`Wf` ties the five pieces of bookkeeping of a store together: reference counts are
table occurrences, tables have exactly the pages their lengths need, the free list
is strictly increasing and unreferenced, reserved pages are free and pins are
nonnegative.  `Outstanding s r` says `r` is a reservation `s` has made and not yet
finished.  Neither bounds how many reservations are open: a store may hold pages
for a reservation nobody will finish.

Each method is described once: by the exact state it leaves (`addCache`,
`released`, `reservedFor`, `aborted`, `committed`), by an equation for when it
leaves that state, and by the preservation of `Wf` and of `Outstanding`.

## Main definitions

* `Wf`, `Candidate`, `Outstanding` — the invariants.
* `wf_addCache`, `wf_released`, `wf_reservedFor`, `wf_aborted`, `wf_committed` —
  every successful method keeps `Wf`.
* `outstanding_reservedFor`, `Outstanding.frame` — where reservations come from and
  what keeps them.
-/

namespace MlxRuntime.PagedKVCacheBackend

variable {ρ κ : Type} {s : PagedKVCacheBackend ρ κ} {r : PagedBatchReservation κ}

/-- The bookkeeping of a store agrees with its live block tables. -/
structure Wf (s : PagedKVCacheBackend ρ κ) : Prop where
  pageSize_pos : 0 < s.pageSize
  fresh : ∀ h ∈ s.caches, h < s.nextHandle
  ref_eq : ∀ p, s.refCounts p = tableCount s.caches s.cacheOf p
  table_length : ∀ h ∈ s.caches,
    (s.cacheOf h).blockTable.length = pagesFor s.pageSize (s.cacheOf h).length
  table_nodup : ∀ h ∈ s.caches, (s.cacheOf h).blockTable.Nodup
  table_lt : ∀ h, ∀ p ∈ (s.cacheOf h).blockTable, p < s.numPages
  free_sorted : s.freePages.Pairwise (· < ·)
  free_ref : ∀ p ∈ s.freePages, s.refCounts p = 0
  free_lt : ∀ p ∈ s.freePages, p < s.numPages
  reserved_free : ∀ p ∈ s.reservedPages, p ∈ s.freePages
  pin_nonneg : ∀ p, 0 ≤ s.pinCounts p

/-- A table a commit may install for a request that appends `n` rows: as long as
the new length needs, without repetitions, from old and reserved pages only. -/
structure Candidate (s : PagedKVCacheBackend ρ κ) (h : Handle) (n : ℕ)
    (table reserved : List Page) : Prop where
  length_eq : table.length = pagesFor s.pageSize ((s.cacheOf h).length + n)
  nodup : table.Nodup
  mem : ∀ p ∈ table, p ∈ (s.cacheOf h).blockTable ∨ p ∈ reserved

/-- `r` was reserved on `s` and is still open.  The table of a cache released since
is dead, so candidates are described for live caches only. -/
structure Outstanding (s : PagedKVCacheBackend ρ κ) (r : PagedBatchReservation κ) : Prop where
  not_finished : r.finished = false
  caches_ne_nil : r.requestCaches ≠ []
  nodup : r.requestCaches.Nodup
  appends_length : r.appendLengths.length = r.requestCaches.length
  tables_length : r.candidateTables.length = r.requestCaches.length
  appends_pos : 0 ∉ r.appendLengths
  created : ∀ h ∈ r.requestCaches, h < s.nextHandle
  reserved_sub : ∀ p ∈ r.reservedPages, p ∈ s.reservedPages
  reserved_nodup : r.reservedPages.Nodup
  reserved_used : ∀ p ∈ r.reservedPages, ∃ change ∈ r.changes,
    p ∈ change.2 ∧ change.2 ≠ (s.cacheOf change.1.1).blockTable
  pinned_nodup : r.pinnedPages.Nodup
  pinned_pos : ∀ p ∈ r.pinnedPages, 1 ≤ s.pinCounts p
  busy : (∃ p, p ∈ r.reservedPages) ∨ ∃ p ∈ r.pinnedPages, p < s.numPages
  candidate : ∀ x ∈ r.changes, x.1.1 ∈ s.caches →
    s.Candidate x.1.1 x.1.2 x.2 r.reservedPages

/-- The errors of the counting loops. -/
def BecameNegative (e : PyError) : Prop :=
  e = .valueError "paged KV page reference count became negative" ∨
    e = .valueError "paged KV page pin count became negative"

instance : DecidablePred BecameNegative := fun _ => inferInstanceAs (Decidable (_ ∨ _))

/-! ## Counting table occurrences -/

theorem tableCount_nonneg (caches : Finset Handle) (heap : Handle → PagedRequestCache ρ)
    (p : Page) : 0 ≤ tableCount caches heap p :=
  Finset.sum_nonneg fun _ _ => Int.natCast_nonneg _

theorem tableCount_eq_zero_iff {caches : Finset Handle}
    {heap : Handle → PagedRequestCache ρ} {p : Page} :
    tableCount caches heap p = 0 ↔ ∀ h ∈ caches, p ∉ (heap h).blockTable := by
  rw [tableCount, Finset.sum_eq_zero_iff_of_nonneg fun _ _ => Int.natCast_nonneg _]
  simp [List.count_eq_zero]

theorem count_le_tableCount {caches : Finset Handle} {heap : Handle → PagedRequestCache ρ}
    {h : Handle} (hh : h ∈ caches) (p : Page) :
    ((heap h).blockTable.count p : ℤ) ≤ tableCount caches heap p :=
  Finset.single_le_sum (f := fun h => ((heap h).blockTable.count p : ℤ))
    (fun _ _ => Int.natCast_nonneg _) hh

theorem tableCount_insert {caches : Finset Handle} (heap : Handle → PagedRequestCache ρ)
    {h : Handle} (hh : h ∉ caches) (cache : PagedRequestCache ρ) (p : Page) :
    tableCount (insert h caches) (Function.update heap h cache) p =
      tableCount caches heap p + (cache.blockTable.count p : ℤ) := by
  rw [tableCount, Finset.sum_insert hh, Function.update_self, tableCount, add_comm]
  congr 1
  refine Finset.sum_congr rfl fun h' hh' => ?_
  rw [Function.update_of_ne (ne_of_mem_of_not_mem hh' hh)]

theorem tableCount_erase {caches : Finset Handle} (heap : Handle → PagedRequestCache ρ)
    {h : Handle} (hh : h ∈ caches) (p : Page) :
    tableCount (caches.erase h) heap p =
      tableCount caches heap p - ((heap h).blockTable.count p : ℤ) := by
  rw [tableCount, tableCount, ← Finset.add_sum_erase _ _ hh]
  ring

namespace Wf

theorem ref_nonneg (hs : s.Wf) (p : Page) : 0 ≤ s.refCounts p := by
  rw [hs.ref_eq]; exact tableCount_nonneg _ _ _

/-- An unreferenced page is in no live table. -/
theorem notMem_table (hs : s.Wf) {p : Page} (hp : s.refCounts p = 0) {h : Handle}
    (hh : h ∈ s.caches) : p ∉ (s.cacheOf h).blockTable := by
  rw [hs.ref_eq] at hp
  exact tableCount_eq_zero_iff.mp hp h hh

/-- A page of a live table is referenced. -/
theorem ref_pos (hs : s.Wf) {p : Page} {h : Handle} (hh : h ∈ s.caches)
    (hp : p ∈ (s.cacheOf h).blockTable) : 1 ≤ s.refCounts p := by
  have := hs.ref_nonneg p
  by_contra hlt
  exact hs.notMem_table (by omega) hh hp

theorem free_nodup (hs : s.Wf) : s.freePages.Nodup := hs.free_sorted.imp fun h => ne_of_lt h

/-- A reserved page is in no live table. -/
theorem notMem_table_of_reserved (hs : s.Wf) {p : Page} (hp : p ∈ s.reservedPages)
    {h : Handle} (hh : h ∈ s.caches) : p ∉ (s.cacheOf h).blockTable :=
  hs.notMem_table (hs.free_ref p (hs.reserved_free p hp)) hh

end Wf

/-- What keeps a reservation open: handles are not reused, its pages stay reserved
and pinned, and the caches created so far keep their tables. -/
theorem Outstanding.frame {s' : PagedKVCacheBackend ρ κ} (h : s.Outstanding r)
    (hsize : s'.pageSize = s.pageSize) (hpages : s'.numPages = s.numPages)
    (hnext : s.nextHandle ≤ s'.nextHandle)
    (hreserved : ∀ p ∈ s.reservedPages, p ∈ s'.reservedPages)
    (hpins : ∀ p, s.pinCounts p ≤ s'.pinCounts p)
    (hlive : ∀ x < s.nextHandle, x ∈ s'.caches → x ∈ s.caches)
    (hcache : ∀ x < s.nextHandle, s'.cacheOf x = s.cacheOf x) :
    s'.Outstanding r := by
  have hold : ∀ change ∈ r.changes, change.1.1 < s.nextHandle := fun change hchange =>
    h.created _ (List.of_mem_zip (List.of_mem_zip hchange).1).1
  refine ⟨h.not_finished, h.caches_ne_nil, h.nodup, h.appends_length, h.tables_length,
    h.appends_pos, fun x hx => lt_of_lt_of_le (h.created x hx) hnext,
    fun p hp => hreserved p (h.reserved_sub p hp), h.reserved_nodup, ?_,
    h.pinned_nodup, fun p hp => le_trans (h.pinned_pos p hp) (hpins p), by rw [hpages]; exact h.busy,
    ?_⟩
  · intro p hp
    obtain ⟨change, hchange, hmem, hne⟩ := h.reserved_used p hp
    exact ⟨change, hchange, hmem, by rwa [hcache _ (hold change hchange)]⟩
  · intro change hchange hlive'
    have heq := hcache _ (hold change hchange)
    obtain ⟨hlen, hnodup, hmem⟩ := h.candidate change hchange (hlive _ (hold change hchange) hlive')
    exact ⟨by rw [hsize, heq]; exact hlen, hnodup, by rw [heq]; exact hmem⟩

/-! ## Adding a cache: `create` and `fork` -/

/-- A store with one more cache over the given pages. -/
def addCache (s : PagedKVCacheBackend ρ κ) (requestId : ρ) (table : List Page) (length : ℕ) :
    PagedKVCacheBackend ρ κ :=
  { s with
    caches := insert s.nextHandle s.caches
    cacheOf := Function.update s.cacheOf s.nextHandle
      { handle := s.nextHandle, requestId := requestId, blockTable := table, length := length }
    refCounts := fun page => s.refCounts page + (table.count page : ℤ)
    nextHandle := s.nextHandle + 1 }

theorem create_eq (s : PagedKVCacheBackend ρ κ) (requestId : ρ) :
    s.create requestId = (s.nextHandle, s.addCache requestId [] 0) := by
  simp [create, addCache]

/-- The length a fork asks for. -/
def forkLength (s : PagedKVCacheBackend ρ κ) (handle : Handle) (length : Option ℤ) : ℕ :=
  (length.getD (s.cacheOf handle).size).toNat

/-- A fork either raises and changes nothing, or adds a cache over the pages of the
first rows of its source. -/
theorem fork_cases (s : PagedKVCacheBackend ρ κ) (handle : Handle) (requestId : ρ)
    (length : Option ℤ) :
    (∃ e, ¬ BecameNegative e ∧ s.fork handle requestId length = (.error e, s)) ∨
    (handle ∈ s.caches ∧ s.forkLength handle length ≤ (s.cacheOf handle).length ∧
      s.fork handle requestId length = (.ok s.nextHandle,
        s.addCache requestId
          ((s.cacheOf handle).blockTable.take
            (pagesFor s.pageSize (s.forkLength handle length)))
          (s.forkLength handle length))) := by
  by_cases hlive : handle ∈ s.caches
  · by_cases hrange : length.getD (s.cacheOf handle).size < 0 ∨
        ((s.cacheOf handle).size : ℤ) < length.getD (s.cacheOf handle).size
    · exact .inl ⟨.valueError "fork length is outside source cache", by decide,
        by simp [fork, hlive, hrange]⟩
    · refine .inr ⟨hlive, ?_, ?_⟩
      · simp only [not_or, not_lt, PagedRequestCache.size] at hrange
        simp only [forkLength, PagedRequestCache.size]
        omega
      · simp [fork, hlive, hrange, create, addCache, forkLength]
  · exact .inl ⟨.keyError, by decide, by simp [fork, hlive]⟩

theorem wf_addCache (hs : s.Wf) (requestId : ρ) {table : List Page} {length : ℕ}
    (hlen : table.length = pagesFor s.pageSize length) (hnodup : table.Nodup)
    (hused : ∀ p ∈ table, 1 ≤ s.refCounts p) (hlt : ∀ p ∈ table, p < s.numPages) :
    (s.addCache requestId table length).Wf := by
  have hfresh : s.nextHandle ∉ s.caches := fun h => lt_irrefl _ (hs.fresh _ h)
  have hold : ∀ h ∈ s.caches, (s.addCache requestId table length).cacheOf h = s.cacheOf h :=
    fun h hh => Function.update_of_ne (ne_of_mem_of_not_mem hh hfresh) _ _
  have hnew : (s.addCache requestId table length).cacheOf s.nextHandle =
      { handle := s.nextHandle, requestId := requestId, blockTable := table, length := length } :=
    Function.update_self _ _ _
  refine { hs with
    fresh := ?_, ref_eq := ?_, table_length := ?_, table_nodup := ?_, table_lt := ?_,
    free_ref := ?_ }
  · intro h hh
    rcases Finset.mem_insert.mp hh with rfl | hh
    · exact Nat.lt_succ_self _
    · exact Nat.lt_succ_of_lt (hs.fresh h hh)
  · intro p
    have hcount := tableCount_insert s.cacheOf hfresh
      { handle := s.nextHandle, requestId := requestId, blockTable := table, length := length } p
    rw [← hs.ref_eq] at hcount
    exact hcount.symm
  · intro h hh
    rcases Finset.mem_insert.mp hh with rfl | hh
    · rw [hnew]; exact hlen
    · rw [hold h hh]; exact hs.table_length h hh
  · intro h hh
    rcases Finset.mem_insert.mp hh with rfl | hh
    · rw [hnew]; exact hnodup
    · rw [hold h hh]; exact hs.table_nodup h hh
  · intro h
    by_cases hh : h = s.nextHandle
    · rw [hh, hnew]; exact hlt
    · rw [show (s.addCache requestId table length).cacheOf h = s.cacheOf h from
        Function.update_of_ne hh _ _]
      exact hs.table_lt h
  · intro p hp
    have hzero := hs.free_ref p hp
    have hnot : p ∉ table := fun hmem => by have := hused p hmem; omega
    simp [addCache, hzero, List.count_eq_zero_of_not_mem hnot]

theorem wf_create (hs : s.Wf) (requestId : ρ) : (s.addCache requestId [] 0).Wf :=
  wf_addCache hs requestId (by simp [hs.pageSize_pos]) List.nodup_nil (by simp) (by simp)

theorem wf_fork (hs : s.Wf) {handle : Handle} (requestId : ρ) {n : ℕ}
    (hlive : handle ∈ s.caches) (hn : n ≤ (s.cacheOf handle).length) :
    (s.addCache requestId
      ((s.cacheOf handle).blockTable.take (pagesFor s.pageSize n)) n).Wf := by
  refine wf_addCache hs requestId ?_ ((List.take_sublist _ _).nodup (hs.table_nodup _ hlive))
    (fun p hp => hs.ref_pos hlive (List.mem_of_mem_take hp))
    (fun p hp => hs.table_lt _ p (List.mem_of_mem_take hp))
  rw [List.length_take, hs.table_length _ hlive]
  exact min_eq_left (pagesFor_mono hn)

theorem outstanding_addCache (h : s.Outstanding r) (requestId : ρ) (table : List Page)
    (length : ℕ) : (s.addCache requestId table length).Outstanding r := by
  refine h.frame rfl rfl (Nat.le_succ _) (fun _ hp => hp) (fun _ => le_rfl) ?_ ?_
  · intro x hx hmem
    exact (Finset.mem_insert.mp hmem).resolve_left (ne_of_lt hx)
  · intro x hx
    exact Function.update_of_ne (ne_of_lt hx) _ _

/-! ## `release` -/

/-- A store without the handle and its references. -/
def released (s : PagedKVCacheBackend ρ κ) (h : Handle) : PagedKVCacheBackend ρ κ :=
  { s with
    caches := s.caches.erase h
    refCounts := fun page => s.refCounts page - ((s.cacheOf h).blockTable.count page : ℤ)
    freePages := sortPages
      (releasePages s.pinCounts (s.cacheOf h).blockTable s.refCounts s.freePages).2.2 }

theorem release_none (s : PagedKVCacheBackend ρ κ) : s.release none = (.ok (), s) := rfl

theorem release_of_notMem {h : Handle} (hh : h ∉ s.caches) :
    s.release (some h) = (.ok (), s) := by simp [release, hh]

/-- Releasing a live handle of a well-formed store never raises. -/
theorem release_of_mem (hs : s.Wf) {h : Handle} (hh : h ∈ s.caches) :
    s.release (some h) = (.ok (), s.released h) := by
  obtain ⟨free', heq, -, -⟩ := releasePages_spec s.pinCounts (hs.table_nodup h hh)
    (fun p hp => hs.ref_pos hh hp) hs.free_nodup
  simp [release, released, hh, heq]

theorem mem_freePages_released (hs : s.Wf) {h : Handle} (hh : h ∈ s.caches) (p : Page) :
    p ∈ (s.released h).freePages ↔ p ∈ s.freePages ∨
      (p ∈ (s.cacheOf h).blockTable ∧ s.refCounts p = 1 ∧ s.pinCounts p = 0) := by
  obtain ⟨free', heq, -, hmem⟩ := releasePages_spec s.pinCounts (hs.table_nodup h hh)
    (fun p hp => hs.ref_pos hh hp) hs.free_nodup
  simp [released, heq, hmem]

theorem wf_released (hs : s.Wf) {h : Handle} (hh : h ∈ s.caches) : (s.released h).Wf := by
  have hcount : ∀ p, (s.released h).refCounts p =
      tableCount (s.released h).caches (s.released h).cacheOf p := by
    intro p
    exact (congrArg (· - ((s.cacheOf h).blockTable.count p : ℤ)) (hs.ref_eq p)).trans
      (tableCount_erase s.cacheOf hh p).symm
  refine {
    pageSize_pos := hs.pageSize_pos
    fresh := fun x hx => hs.fresh x (Finset.mem_of_mem_erase hx)
    ref_eq := hcount
    table_length := fun x hx => hs.table_length x (Finset.mem_of_mem_erase hx)
    table_nodup := fun x hx => hs.table_nodup x (Finset.mem_of_mem_erase hx)
    table_lt := hs.table_lt
    free_sorted := ?_
    free_ref := ?_
    free_lt := ?_
    reserved_free := fun p hp =>
      (mem_freePages_released hs hh p).mpr (.inl (hs.reserved_free p hp))
    pin_nonneg := hs.pin_nonneg }
  · obtain ⟨free', heq, hnodup, -⟩ := releasePages_spec s.pinCounts (hs.table_nodup h hh)
      (fun p hp => hs.ref_pos hh hp) hs.free_nodup
    simp only [released, heq]
    exact pairwise_sortPages hnodup
  · intro p hp
    rcases (mem_freePages_released hs hh p).mp hp with hp | ⟨hmem, hone, -⟩
    · have hzero := hs.free_ref p hp
      simp [released, hzero, List.count_eq_zero_of_not_mem (hs.notMem_table hzero hh)]
    · simp [released, hone, List.count_eq_one_of_mem (hs.table_nodup h hh) hmem]
  · intro p hp
    rcases (mem_freePages_released hs hh p).mp hp with hp | ⟨hmem, -⟩
    · exact hs.free_lt p hp
    · exact hs.table_lt h p hmem

theorem outstanding_released (h : s.Outstanding r) (handle : Handle) :
    (s.released handle).Outstanding r :=
  h.frame rfl rfl le_rfl (fun _ hp => hp) (fun _ => le_rfl)
    (fun _ _ hx => Finset.mem_of_mem_erase hx) fun _ _ => rfl

end MlxRuntime.PagedKVCacheBackend
