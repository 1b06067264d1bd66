import MlxRuntime.Cache.Reservation
import MlxRuntime.Cache.Slots
import Mathlib.Data.List.Flatten

/-!
# The slots of a reservation are its own

What makes staging safe.  A reservation writes a request's new rows into pages taken
from the free list, or into the last page of the request when no other table shares
it; a shared last page is copied first.  So the slots it writes are distinct, no live
cache sees them, and each old row stays where the candidate table looks for it.

## Main definitions

* `Writable s r` — those facts, as long as `r` is open and its caches are live.
* `writable_reservedFor`, `Writable.frame` — a reservation starts with them, and the
  calls that show no more rows keep them.
-/

namespace MlxRuntime.PagedKVCacheBackend

variable {ρ κ : Type} {s : PagedKVCacheBackend ρ κ} {r : PagedBatchReservation κ}

/-- The slot of a row of a cache. -/
def slotIn (s : PagedKVCacheBackend ρ κ) (h : Handle) (pos : ℕ) : ℕ :=
  slotOf s.pageSize (s.cacheOf h).blockTable pos

/-- The reservation `r` may write its slots. -/
structure Writable (s : PagedKVCacheBackend ρ κ) (r : PagedBatchReservation κ) : Prop where
  live : ∀ h ∈ r.requestCaches, h ∈ s.caches
  slots_eq : r.slotArray = r.changes.flatMap fun change =>
    requestSlots s.pageSize change.2 (s.cacheOf change.1.1).length change.1.2
  slots_nodup : r.slotArray.Nodup
  slots_private : ∀ h ∈ s.caches, ∀ pos < (s.cacheOf h).length, s.slotIn h pos ∉ r.slotArray
  copies_nodup : (r.copyPages.map Prod.snd).Nodup
  copies_reserved : ∀ copy ∈ r.copyPages, copy.1 ∉ r.reservedPages ∧ copy.2 ∈ r.reservedPages
  kept_slot : ∀ change ∈ r.changes, ∀ pos < (s.cacheOf change.1.1).length,
    slotOf s.pageSize change.2 pos ∉ r.slotArray
  kept_page : ∀ change ∈ r.changes, ∀ pos < (s.cacheOf change.1.1).length,
    change.2.getD (pos / s.pageSize) 0 =
        (s.cacheOf change.1.1).blockTable.getD (pos / s.pageSize) 0 ∨
      ((s.cacheOf change.1.1).blockTable.getD (pos / s.pageSize) 0,
        change.2.getD (pos / s.pageSize) 0) ∈ r.copyPages

/-- `s'` leaves the caches of `r` alone and shows no row at a slot where `s` showed
none. -/
structure ShowsNoMore (s s' : PagedKVCacheBackend ρ κ) (r : PagedBatchReservation κ) :
    Prop where
  pageSize_eq : s'.pageSize = s.pageSize
  live : ∀ x ∈ r.requestCaches, x ∈ s'.caches
  cache_eq : ∀ x ∈ r.requestCaches, s'.cacheOf x = s.cacheOf x
  slots : ∀ x ∈ s'.caches, ∀ pos < (s'.cacheOf x).length, ∃ y ∈ s.caches,
    ∃ pos' < (s.cacheOf y).length, s'.slotIn x pos = s.slotIn y pos'

theorem mem_requestCaches {change : (Handle × ℕ) × List Page} (h : change ∈ r.changes) :
    change.1.1 ∈ r.requestCaches :=
  (List.of_mem_zip (List.of_mem_zip h).1).1

theorem Writable.frame {s' : PagedKVCacheBackend ρ κ} (h : s.Writable r)
    (hshow : s.ShowsNoMore s' r) : s'.Writable r := by
  refine ⟨hshow.live, ?_, h.slots_nodup, ?_, h.copies_nodup, h.copies_reserved, ?_, ?_⟩
  · rw [h.slots_eq]
    refine List.flatMap_congr fun change hchange => ?_
    rw [hshow.pageSize_eq, hshow.cache_eq _ (mem_requestCaches hchange)]
  · intro x hx pos hpos
    obtain ⟨y, hy, pos', hpos', heq⟩ := hshow.slots x hx pos hpos
    rw [heq]
    exact h.slots_private y hy pos' hpos'
  · intro change hchange
    rw [hshow.pageSize_eq, hshow.cache_eq _ (mem_requestCaches hchange)]
    exact h.kept_slot change hchange
  · intro change hchange
    rw [hshow.pageSize_eq, hshow.cache_eq _ (mem_requestCaches hchange)]
    exact h.kept_page change hchange

/-- A call that keeps every cache shows the same rows. -/
theorem Writable.showsNoMore_of_same (h : s.Writable r) {s' : PagedKVCacheBackend ρ κ}
    (hsize : s'.pageSize = s.pageSize) (hcaches : s'.caches = s.caches)
    (hcache : s'.cacheOf = s.cacheOf) : s.ShowsNoMore s' r where
  pageSize_eq := hsize
  live := by rw [hcaches]; exact h.live
  cache_eq := fun x _ => by rw [hcache]
  slots := fun x hx pos hpos => by
    rw [hcaches] at hx
    rw [hcache] at hpos
    exact ⟨x, hx, pos, hpos, by rw [slotIn, slotIn, hsize, hcache]⟩

/-- A new cache shows rows of a live one. -/
theorem Writable.showsNoMore_addCache (h : s.Writable r) (hs : s.Wf) (requestId : ρ)
    {table : List Page} {length : ℕ}
    (hslots : ∀ pos < length, ∃ y ∈ s.caches, ∃ pos' < (s.cacheOf y).length,
      slotOf s.pageSize table pos = s.slotIn y pos') :
    s.ShowsNoMore (s.addCache requestId table length) r := by
  have hold : ∀ x ∈ s.caches, (s.addCache requestId table length).cacheOf x = s.cacheOf x :=
    fun x hx => Function.update_of_ne (ne_of_lt (hs.fresh x hx)) _ _
  have hnew : (s.addCache requestId table length).cacheOf s.nextHandle =
      { handle := s.nextHandle, requestId := requestId, blockTable := table, length := length } :=
    Function.update_self _ _ _
  refine ⟨rfl, fun x hx => Finset.mem_insert_of_mem (h.live x hx),
    fun x hx => hold x (h.live x hx), fun x hx pos hpos => ?_⟩
  rcases Finset.mem_insert.mp hx with rfl | hx
  · rw [hnew] at hpos
    rw [slotIn, hnew]
    exact hslots pos hpos
  · rw [hold x hx] at hpos
    exact ⟨x, hx, pos, hpos, by rw [slotIn, slotIn, hold x hx]; rfl⟩

theorem Writable.showsNoMore_released (h : s.Writable r) {handle : Handle}
    (hnot : handle ∉ r.requestCaches) : s.ShowsNoMore (s.released handle) r where
  pageSize_eq := rfl
  live := fun x hx => Finset.mem_erase.mpr ⟨ne_of_mem_of_not_mem hx hnot, h.live x hx⟩
  cache_eq := fun _ _ => rfl
  slots := fun x hx pos hpos => ⟨x, Finset.mem_of_mem_erase hx, pos, hpos, rfl⟩

/-! ## Written pages -/

/-- A page with one reference is in one live table only. -/
theorem Wf.eq_of_ref_eq_one (hs : s.Wf) {p : Page} (hone : s.refCounts p = 1) {h h' : Handle}
    (hh : h ∈ s.caches) (hh' : h' ∈ s.caches) (hp : p ∈ (s.cacheOf h).blockTable)
    (hp' : p ∈ (s.cacheOf h').blockTable) : h = h' := by
  by_contra hne
  have hcount := List.count_eq_one_of_mem (hs.table_nodup h hh) hp
  have hcount' := List.count_eq_one_of_mem (hs.table_nodup h' hh') hp'
  have hother : h' ∈ s.caches.erase h := Finset.mem_erase.mpr ⟨fun heq => hne heq.symm, hh'⟩
  have hrest : ((s.cacheOf h').blockTable.count p : ℤ) ≤ tableCount _ s.cacheOf p :=
    count_le_tableCount hother p
  rw [tableCount_erase s.cacheOf hh, ← hs.ref_eq, hone, hcount, hcount'] at hrest
  simp at hrest

/-- The pages before the one a position at or past the length lies in are full. -/
theorem pagesFor_le_div_succ {pageSize : ℕ} (hps : 0 < pageSize) {length pos : ℕ}
    (hle : length ≤ pos) : pagesFor pageSize length ≤ pos / pageSize + 1 := by
  by_contra hlt
  have hstart := (lt_pagesFor hps _ _).mp (not_le.mp hlt)
  have := Nat.lt_div_mul_add hps (a := pos)
  rw [Nat.add_mul, Nat.one_mul] at hstart
  omega

/-- A page that covers both a position at or past the length and an old row is
partially filled. -/
theorem mod_ne_zero_of_div_lt {pageSize : ℕ} (hps : 0 < pageSize) {length pos : ℕ}
    (hle : length ≤ pos) (hlt : pos / pageSize < pagesFor pageSize length) :
    length % pageSize ≠ 0 := by
  intro hzero
  obtain ⟨k, rfl⟩ := Nat.dvd_of_mod_eq_zero hzero
  rw [Nat.mul_comm pageSize k] at hlt hle
  rw [pagesFor_mul hps] at hlt
  exact absurd ((Nat.le_div_iff_mul_le hps).mpr hle) (not_le.mpr hlt)

theorem getD_mem {table : List Page} {i : ℕ} (hi : i < table.length) :
    table.getD i 0 ∈ table := by
  rw [List.getD_eq_getElem _ _ hi]
  exact List.getElem_mem hi

/-- The page a request writes a new row into is taken for it, or it is the request's
own last page and no other table has it. -/
theorem Extends.written (hs : s.Wf) {h : Handle} (hh : h ∈ s.caches) {n : ℕ}
    {available : List Page} {change : TableChange}
    (hext : s.Extends (s.cacheOf h) n available change) {pos : ℕ}
    (hle : (s.cacheOf h).length ≤ pos) (hlt : pos < (s.cacheOf h).length + n) :
    change.table.getD (pos / s.pageSize) 0 ∈ change.reserved ∨
      (change.table.getD (pos / s.pageSize) 0 =
          (s.cacheOf h).blockTable.getD (pos / s.pageSize) 0 ∧
        pos / s.pageSize < (s.cacheOf h).blockTable.length ∧
        s.refCounts (change.table.getD (pos / s.pageSize) 0) = 1) := by
  have hlen := hs.table_length h hh
  have hidx : pos / s.pageSize < change.table.length := by
    rw [hext.length_eq]
    exact lt_of_lt_of_le (div_lt_pagesFor hs.pageSize_pos hlt) (le_max_right _ _)
  have hfull := pagesFor_le_div_succ hs.pageSize_pos hle
  have hpartial := mod_ne_zero_of_div_lt hs.pageSize_pos hle
  rw [← hlen] at hfull hpartial
  generalize pos / s.pageSize = i at hidx hfull hpartial ⊢
  rcases hext.shape with ⟨heq, -, hnocopy⟩ | ⟨last, replacement, rest, -, -, heq, -⟩
  · by_cases hold : i < (s.cacheOf h).blockTable.length
    · have hsame : change.table.getD i 0 = (s.cacheOf h).blockTable.getD i 0 := by
        rw [heq, List.getD_append _ _ _ _ hold]
      have hgetLast : (s.cacheOf h).blockTable.getLast? =
          some ((s.cacheOf h).blockTable.getD i 0) := by
        rw [List.getLast?_eq_getElem?, List.getD_eq_getElem _ _ hold,
          show (s.cacheOf h).blockTable.length - 1 = i by omega, List.getElem?_eq_getElem hold]
      have hunshared : s.refCounts ((s.cacheOf h).blockTable.getD i 0) ≤ 1 :=
        not_lt.mp fun hshared => hnocopy _ ⟨hgetLast, hpartial hold, hshared⟩
      refine .inr ⟨hsame, hold, ?_⟩
      rw [hsame]
      exact le_antisymm hunshared (hs.ref_pos hh (getD_mem hold))
    · left
      rw [heq, List.length_append] at hidx
      rw [heq, List.getD_append_right _ _ _ _ (not_lt.mp hold)]
      exact getD_mem (by omega)
  · left
    have hdrop : (s.cacheOf h).blockTable.dropLast.length =
        (s.cacheOf h).blockTable.length - 1 := List.length_dropLast
    rw [heq, List.length_append] at hidx
    rw [heq, List.getD_append_right _ _ _ _ (by omega)]
    exact getD_mem (by omega)

/-- Where the old rows of a request are under its candidate table: on their old
page, or on the copy of it. -/
theorem Extends.kept (hs : s.Wf) {h : Handle} (hh : h ∈ s.caches) {n : ℕ}
    {available : List Page} {change : TableChange}
    (hext : s.Extends (s.cacheOf h) n available change) {pos : ℕ}
    (hlt : pos < (s.cacheOf h).length) :
    change.table.getD (pos / s.pageSize) 0 =
        (s.cacheOf h).blockTable.getD (pos / s.pageSize) 0 ∨
      ((s.cacheOf h).blockTable.getD (pos / s.pageSize) 0,
        change.table.getD (pos / s.pageSize) 0) ∈ change.copyPages := by
  have hold : pos / s.pageSize < (s.cacheOf h).blockTable.length := by
    rw [hs.table_length h hh]
    exact div_lt_pagesFor hs.pageSize_pos hlt
  rcases hext.shape with ⟨heq, -, -⟩ | ⟨last, replacement, rest, hcopy, hcons, heq, hcopies⟩
  · left
    rw [heq, List.getD_append _ _ _ _ hold]
  · have hsplit := List.dropLast_append_getLast? last hcopy.1
    by_cases hidx : pos / s.pageSize < (s.cacheOf h).blockTable.dropLast.length
    · left
      rw [heq, List.getD_append _ _ _ _ hidx]
      conv_rhs => rw [← hsplit]
      rw [List.getD_append _ _ _ _ hidx]
    · right
      rw [List.length_dropLast] at hidx
      have hlast : pos / s.pageSize = (s.cacheOf h).blockTable.dropLast.length := by
        rw [List.length_dropLast]
        omega
      rw [hcopies, heq, hcons, hlast]
      conv => enter [2, 1, 1]; rw [← hsplit]
      simp

/-! ## A new reservation -/

section Reserves

variable {caches : List Handle} {appendLengths : List ℕ} {changes : List TableChange}

/-- The pages of a candidate table are the request's own. -/
theorem Extends.mem_table {cache : PagedRequestCache ρ} {n : ℕ} {available : List Page}
    {change : TableChange} (hext : s.Extends cache n available change) {p : Page}
    (hp : p ∈ change.table) : p ∈ cache.blockTable ∨ p ∈ change.reserved := by
  rcases hext.shape with ⟨heq, -, -⟩ | ⟨last, replacement, rest, -, -, heq, -⟩ <;>
    rw [heq, List.mem_append] at hp
  · exact hp
  · exact hp.imp_left List.mem_of_mem_dropLast

/-- The copies of one request go into its reserved pages, each page once. -/
theorem Extends.copyPages_sublist {cache : PagedRequestCache ρ} {n : ℕ} {available : List Page}
    {change : TableChange} (hext : s.Extends cache n available change) :
    (change.copyPages.map Prod.snd).Sublist change.reserved := by
  rcases hext.shape with ⟨-, hcopies, -⟩ | ⟨last, replacement, rest, -, hcons, -, hcopies⟩
  · simp [hcopies]
  · simp [hcopies, hcons]

/-- The source of a copy is shared. -/
theorem Extends.copy_source {cache : PagedRequestCache ρ} {n : ℕ} {available : List Page}
    {change : TableChange} (hext : s.Extends cache n available change) {copy : Page × Page}
    (hcopy : copy ∈ change.copyPages) : 1 < s.refCounts copy.1 := by
  rcases hext.shape with ⟨-, hcopies, -⟩ | ⟨last, replacement, rest, hneeds, -, -, hcopies⟩
  · simp [hcopies] at hcopy
  · obtain rfl : copy = (last, replacement) := by simpa [hcopies] using hcopy
    exact hneeds.2.2

namespace Reserves

/-- The requests of a batch with what was done to their tables. -/
theorem changes_eq (h : s.Reserves caches appendLengths changes r) :
    r.changes = ((caches.zip appendLengths).zip changes).map fun z => (z.1, z.2.table) := by
  rw [h.eq_new]
  simp only [PagedBatchReservation.changes, newReservation, List.zip_map_right]
  rfl

theorem extends_of_mem (h : s.Reserves caches appendLengths changes r)
    {z : (Handle × ℕ) × TableChange} (hz : z ∈ (caches.zip appendLengths).zip changes) :
    ∃ available, s.Extends (s.cacheOf z.1.1) z.1.2 available z.2 := by
  obtain ⟨rest, hchain⟩ := h.chain
  exact hchain.extends_of_mem hz

theorem refCounts_reserved (h : s.Reserves caches appendLengths changes r) (hs : s.Wf)
    {z : (Handle × ℕ) × TableChange} (hz : z ∈ (caches.zip appendLengths).zip changes)
    {p : Page} (hp : p ∈ z.2.reserved) : s.refCounts p = 0 := by
  have hmem : p ∈ r.reservedPages := by
    rw [h.eq_new]
    exact List.mem_flatMap.mpr ⟨z.2, (List.of_mem_zip hz).2, hp⟩
  exact hs.free_ref p (mem_availablePages.mp (h.available_of_reserved hmem)).1

/-- Different requests of a batch have different handles and take different pages. -/
theorem pairwise (h : s.Reserves caches appendLengths changes r) (hs : s.Wf) :
    ((caches.zip appendLengths).zip changes).Pairwise fun z z' =>
      z.1.1 ≠ z'.1.1 ∧ z.2.reserved.Disjoint z'.2.reserved := by
  obtain ⟨rest, hchain⟩ := h.chain
  have hlen := hchain.length_eq
  have hhandles : (((caches.zip appendLengths).zip changes).map fun z => z.1.1) = caches :=
    calc (((caches.zip appendLengths).zip changes).map fun z => z.1.1)
        = (((caches.zip appendLengths).zip changes).map Prod.fst).map Prod.fst := by
          rw [List.map_map]; rfl
      _ = caches := by rw [List.map_fst_zip hlen.symm.le, List.map_fst_zip h.length_eq.le]
  have hchanges : (((caches.zip appendLengths).zip changes).map Prod.snd) = changes :=
    List.map_snd_zip hlen.le
  have hnodup := h.reserved_nodup hs
  rw [h.eq_new] at hnodup
  have hdisj := (List.nodup_flatMap.mp hnodup).2
  rw [← hchanges, List.pairwise_map] at hdisj
  have hne := h.nodup
  rw [← hhandles, List.Nodup, List.pairwise_map] at hne
  exact hne.and hdisj

/-- A page that one request writes is in the candidate table of no other. -/
theorem eq_of_written (h : s.Reserves caches appendLengths changes r) (hs : s.Wf)
    (hlive : ∀ x ∈ caches, x ∈ s.caches) {z z' : (Handle × ℕ) × TableChange}
    (hz : z ∈ (caches.zip appendLengths).zip changes)
    (hz' : z' ∈ (caches.zip appendLengths).zip changes) {pos : ℕ}
    (hle : (s.cacheOf z'.1.1).length ≤ pos) (hlt : pos < (s.cacheOf z'.1.1).length + z'.1.2)
    (hmem : z'.2.table.getD (pos / s.pageSize) 0 ∈ z.2.table) : z = z' := by
  have hcache : ∀ x ∈ (caches.zip appendLengths).zip changes, x.1.1 ∈ s.caches := fun x hx =>
    hlive _ (List.of_mem_zip (List.of_mem_zip hx).1).1
  by_contra hne
  have : Std.Symm fun x y : (Handle × ℕ) × TableChange =>
      x.1.1 ≠ y.1.1 ∧ x.2.reserved.Disjoint y.2.reserved :=
    ⟨fun x y hxy => ⟨hxy.1.symm, hxy.2.symm⟩⟩
  obtain ⟨hhandle, hdisj⟩ := (h.pairwise hs).forall hz hz' hne
  obtain ⟨available, hext⟩ := h.extends_of_mem hz
  obtain ⟨available', hext'⟩ := h.extends_of_mem hz'
  rcases hext'.written hs (hcache z' hz') hle hlt with hres' | ⟨hsame, hidx, hone⟩
  · have hzero := h.refCounts_reserved hs hz' hres'
    rcases hext.mem_table hmem with hold | hres
    · exact hs.notMem_table hzero (hcache z hz) hold
    · exact hdisj hres hres'
  · rcases hext.mem_table hmem with hold | hres
    · exact hhandle (hs.eq_of_ref_eq_one hone (hcache z hz) (hcache z' hz') hold
        (hsame ▸ getD_mem hidx))
    · have := h.refCounts_reserved hs hz hres
      omega

/-- No request writes a slot a live cache sees. -/
theorem slot_private (h : s.Reserves caches appendLengths changes r) (hs : s.Wf)
    (hlive : ∀ x ∈ caches, x ∈ s.caches) {z : (Handle × ℕ) × TableChange}
    (hz : z ∈ (caches.zip appendLengths).zip changes) {pos : ℕ}
    (hle : (s.cacheOf z.1.1).length ≤ pos) (hlt : pos < (s.cacheOf z.1.1).length + z.1.2)
    {x : Handle} (hx : x ∈ s.caches) {pos' : ℕ} (hpos' : pos' < (s.cacheOf x).length) :
    s.slotIn x pos' ≠ slotOf s.pageSize z.2.table pos := by
  intro heq
  have hz' : z.1.1 ∈ s.caches := hlive _ (List.of_mem_zip (List.of_mem_zip hz).1).1
  obtain ⟨available, hext⟩ := h.extends_of_mem hz
  obtain ⟨hpage, hoff⟩ := (slotOf_eq_iff hs.pageSize_pos).mp heq
  have hidx : pos' / s.pageSize < (s.cacheOf x).blockTable.length := by
    rw [hs.table_length x hx]
    exact div_lt_pagesFor hs.pageSize_pos hpos'
  rcases hext.written hs hz' hle hlt with hres | ⟨hsame, hidx', hone⟩
  · exact hs.notMem_table (h.refCounts_reserved hs hz hres) hx (hpage ▸ getD_mem hidx)
  · obtain rfl : z.1.1 = x := hs.eq_of_ref_eq_one hone hz' hx (hsame ▸ getD_mem hidx')
      (hpage ▸ getD_mem hidx)
    -- The same slot of one table: then the old row lies past the old rows.
    have hslot : slotOf s.pageSize (s.cacheOf z.1.1).blockTable pos' =
        slotOf s.pageSize (s.cacheOf z.1.1).blockTable pos :=
      (slotOf_eq_iff hs.pageSize_pos).mpr ⟨hpage.trans hsame, hoff⟩
    have := slotOf_inj hs.pageSize_pos (hs.table_nodup _ hx) hidx hidx' hslot
    omega

end Reserves

theorem mem_requestSlots {pageSize : ℕ} {table : List Page} {size append slot : ℕ} :
    slot ∈ requestSlots pageSize table size append ↔
      ∃ pos, size ≤ pos ∧ pos < size + append ∧ slotOf pageSize table pos = slot := by
  simp only [requestSlots, List.mem_map, List.mem_range]
  constructor
  · rintro ⟨i, hi, rfl⟩
    exact ⟨size + i, by omega, by omega, rfl⟩
  · rintro ⟨pos, hle, hlt, rfl⟩
    exact ⟨pos - size, by omega, by rw [Nat.add_sub_cancel' hle]⟩

/-- The request behind each change. -/
theorem Reserves.exists_request (h : s.Reserves caches appendLengths changes r)
    {change : TableChange} (hchange : change ∈ changes) :
    ∃ z ∈ (caches.zip appendLengths).zip changes, z.2 = change := by
  obtain ⟨rest, hchain⟩ := h.chain
  rw [← List.map_snd_zip hchain.length_eq.le] at hchange
  simpa using hchange

theorem Reserves.copyPages_sublist (h : s.Reserves caches appendLengths changes r) :
    (r.copyPages.map Prod.snd).Sublist r.reservedPages := by
  rw [h.eq_new]
  simp only [newReservation, List.map_flatMap]
  refine List.Sublist.flatMap_right _ fun change hchange => ?_
  obtain ⟨z, hz, rfl⟩ := h.exists_request hchange
  obtain ⟨available, hext⟩ := h.extends_of_mem hz
  exact hext.copyPages_sublist

/-- The slots of a batch, request by request. -/
theorem Reserves.slotArray_eq (h : s.Reserves caches appendLengths changes r) :
    r.slotArray = ((caches.zip appendLengths).zip changes).flatMap fun z =>
      requestSlots s.pageSize z.2.table (s.cacheOf z.1.1).length z.1.2 := by
  rw [h.eq_new]
  simp only [newReservation, slots, List.zip_map_right, List.flatMap_map]
  rfl

/-- The pages of a request's positions after the append are in its candidate table. -/
theorem Extends.div_lt (hs : s.Wf) {cache : PagedRequestCache ρ} {n : ℕ}
    {available : List Page} {change : TableChange} (hext : s.Extends cache n available change)
    {pos : ℕ} (hlt : pos < cache.length + n) : pos / s.pageSize < change.table.length := by
  rw [hext.length_eq]
  exact lt_of_lt_of_le (div_lt_pagesFor hs.pageSize_pos hlt) (le_max_right _ _)

theorem Reserves.table_nodup (h : s.Reserves caches appendLengths changes r) (hs : s.Wf)
    (hlive : ∀ x ∈ caches, x ∈ s.caches) {z : (Handle × ℕ) × TableChange}
    (hz : z ∈ (caches.zip appendLengths).zip changes) : z.2.table.Nodup := by
  have hmem : (z.1, z.2.table) ∈ r.changes := by
    rw [h.changes_eq]
    exact List.mem_map.mpr ⟨z, hz, rfl⟩
  exact (h.candidate hs hmem (hlive _ (List.of_mem_zip (List.of_mem_zip hz).1).1)).nodup

theorem Reserves.slots_nodup (h : s.Reserves caches appendLengths changes r) (hs : s.Wf)
    (hlive : ∀ x ∈ caches, x ∈ s.caches) : r.slotArray.Nodup := by
  rw [h.slotArray_eq, List.nodup_flatMap]
  constructor
  · intro z hz
    obtain ⟨available, hext⟩ := h.extends_of_mem hz
    refine List.Nodup.map_on (fun i hi j hj heq => ?_) List.nodup_range
    have := slotOf_inj hs.pageSize_pos (h.table_nodup hs hlive hz)
      (hext.div_lt hs (Nat.add_lt_add_left (List.mem_range.mp hi) _))
      (hext.div_lt hs (Nat.add_lt_add_left (List.mem_range.mp hj) _)) heq
    omega
  · refine (h.pairwise hs).imp_of_mem fun {z z'} hz hz' hne slot hslot hslot' => ?_
    obtain ⟨pos, hle, hlt, rfl⟩ := mem_requestSlots.mp hslot
    obtain ⟨pos', hle', hlt', heq⟩ := mem_requestSlots.mp hslot'
    obtain ⟨available, hext⟩ := h.extends_of_mem hz
    have hpage := ((slotOf_eq_iff hs.pageSize_pos).mp heq).1
    obtain rfl := h.eq_of_written hs hlive hz hz' hle' hlt'
      (hpage ▸ getD_mem (hext.div_lt hs hlt))
    exact hne.1 rfl

/-- **A reservation of live caches may write its slots.** -/
theorem writable_reservedFor (h : s.Reserves caches appendLengths changes r) (hs : s.Wf)
    (hlive : ∀ x ∈ caches, x ∈ s.caches) : (s.reservedFor r).Writable r where
  live := by
    rw [h.eq_new]
    exact hlive
  slots_eq := by
    rw [h.slotArray_eq, h.changes_eq, List.flatMap_map]
    rfl
  slots_nodup := h.slots_nodup hs hlive
  slots_private := by
    intro x hx pos' hpos' hmem
    rw [h.slotArray_eq, List.mem_flatMap] at hmem
    obtain ⟨z, hz, hmem⟩ := hmem
    obtain ⟨pos, hle, hlt, heq⟩ := mem_requestSlots.mp hmem
    exact h.slot_private hs hlive hz hle hlt hx hpos' heq.symm
  copies_nodup := by
    exact h.copyPages_sublist.nodup (h.reserved_nodup hs)
  copies_reserved := by
    intro copy hcopy
    refine ⟨fun hsource => ?_, h.copyPages_sublist.subset (List.mem_map_of_mem hcopy)⟩
    rw [h.eq_new] at hcopy
    obtain ⟨change, hchange, hcopy⟩ := List.mem_flatMap.mp hcopy
    obtain ⟨z, hz, rfl⟩ := h.exists_request hchange
    obtain ⟨available, hext⟩ := h.extends_of_mem hz
    have hshared := hext.copy_source hcopy
    have hfree := (mem_availablePages.mp (h.available_of_reserved hsource)).1
    have hzero := hs.free_ref _ hfree
    omega
  kept_slot := by
    intro change hchange pos hpos hmem
    rw [h.changes_eq] at hchange
    obtain ⟨z, hz, rfl⟩ := List.mem_map.mp hchange
    rw [h.slotArray_eq, List.mem_flatMap] at hmem
    obtain ⟨z', hz', hmem⟩ := hmem
    obtain ⟨pos', hle, hlt, heq⟩ := mem_requestSlots.mp hmem
    obtain ⟨available, hext⟩ := h.extends_of_mem hz
    have hidx : pos / s.pageSize < z.2.table.length :=
      hext.div_lt hs (lt_of_lt_of_le hpos (Nat.le_add_right _ _))
    have hpage := ((slotOf_eq_iff hs.pageSize_pos).mp heq).1
    obtain rfl := h.eq_of_written hs hlive hz hz' hle hlt (hpage ▸ getD_mem hidx)
    have := slotOf_inj hs.pageSize_pos (h.table_nodup hs hlive hz) (hext.div_lt hs hlt) hidx heq
    exact absurd hpos (by simpa [this, reservedFor] using hle)
  kept_page := by
    intro change hchange pos hpos
    rw [h.changes_eq] at hchange
    obtain ⟨z, hz, rfl⟩ := List.mem_map.mp hchange
    obtain ⟨available, hext⟩ := h.extends_of_mem hz
    have hh := hlive _ (List.of_mem_zip (List.of_mem_zip hz).1).1
    refine (hext.kept hs hh hpos).imp_right fun hcopy => ?_
    rw [h.eq_new]
    exact List.mem_flatMap.mpr ⟨z.2, (List.of_mem_zip hz).2, hcopy⟩

end Reserves

end MlxRuntime.PagedKVCacheBackend
