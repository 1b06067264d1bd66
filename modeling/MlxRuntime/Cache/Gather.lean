import MlxRuntime.Cache.Rows

/-!
# The dense rows of a batch

The attention kernel does not read the pages.  `_dense_kv_rows` gathers the pages of each
request's candidate table, cuts them to the request's new length and pads them to the
longest one, so that the rows of a batch form one array.

## Main definitions

* `gatherRows`, `denseRows` — the gathered rows of a request and of a batch.
* `layerRows` — the rows a handle reads in one layer.
* `gatherRows_stagedPool` — a request's gathered rows are its old rows, then its new ones.
-/

namespace MlxRuntime

variable {ρ κ : Type}

/-! ## Gathering pages -/

/-- `cache[page_ids].reshape(-1, …)[:total_length]`. -/
def gatherRows (pageSize : ℕ) (pool : PageArray κ) (pageIds : List Page) (total : ℕ) : List κ :=
  (pageIds.flatMap fun page => (List.range pageSize).map (pool page)).take total

/-- The rows of some pages, one after another, are those at the slots of their positions. -/
theorem flatMap_pages {pageSize : ℕ} (hps : 0 < pageSize) (pool : PageArray κ)
    (table : List Page) :
    (table.flatMap fun page => (List.range pageSize).map (pool page)) =
      (List.range (table.length * pageSize)).map fun pos =>
        pool (table.getD (pos / pageSize) 0) (pos % pageSize) := by
  induction table with
  | nil => simp
  | cons page table ih =>
      have hlength : (page :: table).length * pageSize = pageSize + table.length * pageSize := by
        rw [List.length_cons]
        ring
      rw [List.flatMap_cons, ih, hlength, List.range_add, List.map_append, List.map_map]
      congr 1
      · apply List.map_congr_left
        intro pos hpos
        have hlt := List.mem_range.mp hpos
        rw [Nat.div_eq_of_lt hlt, Nat.mod_eq_of_lt hlt, List.getD_cons_zero]
      · apply List.map_congr_left
        intro pos _
        rw [Function.comp_apply, Nat.add_div_left _ hps, Nat.add_mod_left, List.getD_cons_succ]

/-- A table long enough gives the rows at the slots of the positions. -/
theorem gatherRows_eq {pageSize : ℕ} (hps : 0 < pageSize) (pool : PageArray κ)
    {table : List Page} {total : ℕ} (htotal : total ≤ table.length * pageSize) :
    gatherRows pageSize pool table total =
      (List.range total).map fun pos => flatten pageSize pool (slotOf pageSize table pos) := by
  rw [gatherRows, flatMap_pages hps, ← List.map_take, List.take_range, min_eq_left htotal]
  apply List.map_congr_left
  intro pos _
  rw [flatten_slotOf hps]

/-- `max(xs, default=0)` is a bound. -/
theorem le_foldr_max {xs : List ℕ} {x : ℕ} (h : x ∈ xs) : x ≤ xs.foldr max 0 := by
  induction xs with
  | nil => cases h
  | cons y xs ih =>
      rw [List.foldr_cons]
      rcases List.mem_cons.mp h with rfl | hmem
      · exact le_max_left _ _
      · exact (ih hmem).trans (le_max_right _ _)

namespace PagedKVCacheBackend

/-- `_total_lengths`. -/
def totalLengths (s : PagedKVCacheBackend ρ κ) (r : PagedBatchReservation κ) : List ℕ :=
  (r.requestCaches.zip r.appendLengths).map fun x => (s.cacheOf x.1).size + x.2

/-- `_max_total_length`. -/
def maxTotalLength (s : PagedKVCacheBackend ρ κ) (r : PagedBatchReservation κ) : ℕ :=
  (s.totalLengths r).foldr max 0

/-- `cache_lengths`. -/
def cacheLengths (s : PagedKVCacheBackend ρ κ) (r : PagedBatchReservation κ) : List ℕ :=
  r.requestCaches.map fun cache => (s.cacheOf cache).size

/-- `_dense_kv_rows`, for the keys or for the values: `mx.pad` fills with `zero`. -/
def denseRows (s : PagedKVCacheBackend ρ κ) (r : PagedBatchReservation κ) (zero : κ)
    (pool : PageArray κ) : List (List κ) :=
  ((s.totalLengths r).zip r.candidateTables).map fun (total, pageIds) =>
    gatherRows s.pageSize pool pageIds total ++
      List.replicate (s.maxTotalLength r - total) zero

/-- The keys and the values a handle reads in one layer. -/
def layerRows (s : PagedKVCacheBackend ρ κ) (h : Handle) (layer : ℕ) : List (κ × κ) :=
  (List.range (s.cacheOf h).length).map fun pos =>
    (flatten s.pageSize (s.keyPages layer) (s.slotIn h pos),
      flatten s.pageSize (s.valuePages layer) (s.slotIn h pos))

variable {s : PagedKVCacheBackend ρ κ} {r : PagedBatchReservation κ}

@[simp] theorem length_layerRows (s : PagedKVCacheBackend ρ κ) (h : Handle) (layer : ℕ) :
    (s.layerRows h layer).length = (s.cacheOf h).length := by simp [layerRows]

/-- The rows of a layer are that layer's part of the rows a handle reads. -/
theorem layerRows_eq_visibleRows (s : PagedKVCacheBackend ρ κ) (h : Handle) {layer : ℕ}
    (hlayer : layer < s.numLayers) :
    (s.layerRows h layer).map some = (s.visibleRows h).map fun row => row[layer]? := by
  rw [layerRows, visibleRows, List.map_map, List.map_map]
  apply List.map_congr_left
  intro pos _
  simp [rowAt, hlayer]

/-- The gathered rows of each request, with the padding. -/
theorem denseRows_eq (s : PagedKVCacheBackend ρ κ) (r : PagedBatchReservation κ) (zero : κ)
    (pool : PageArray κ) :
    s.denseRows r zero pool = r.changes.map fun change =>
      gatherRows s.pageSize pool change.2 ((s.cacheOf change.1.1).length + change.1.2) ++
        List.replicate (s.maxTotalLength r - ((s.cacheOf change.1.1).length + change.1.2)) zero := by
  rw [denseRows, totalLengths, PagedBatchReservation.changes, List.zip_map_left, List.map_map]
  rfl

/-- No request is longer than the longest. -/
theorem le_maxTotalLength {change : (Handle × ℕ) × List Page} (h : change ∈ r.changes) :
    (s.cacheOf change.1.1).length + change.1.2 ≤ s.maxTotalLength r := by
  have hmem : (s.cacheOf change.1.1).length + change.1.2 ∈ s.totalLengths r :=
    List.mem_map.mpr ⟨change.1, (List.of_mem_zip h).1, rfl⟩
  exact le_foldr_max hmem

/-- Staging keeps what a reservation may write. -/
theorem StagedFrom.writable {r' : PagedBatchReservation κ} {s' : PagedKVCacheBackend ρ κ}
    (h : StagedFrom s r r' s') (hw : s.Writable r) : s'.Writable r' := by
  rw [h.store, h.reservation]
  exact { hw with }

/-- **What a request gathers** from a staged pool: its old rows, then its new ones. -/
theorem gatherRows_stagedPool (hs : s.Wf) (ho : s.Outstanding r) (hw : s.Writable r)
    (pool : PageArray κ) (tensor : KVTensor κ) {x : ((Handle × ℕ) × List Page) × ℕ}
    (hx : x ∈ r.changes.zipIdx) :
    gatherRows s.pageSize (s.stagedPool r tensor (copyInto r.copyPages pool)) x.1.2
        ((s.cacheOf x.1.1.1).length + x.1.1.2) =
      ((List.range (s.cacheOf x.1.1.1).length).map fun pos =>
        flatten s.pageSize pool (s.slotIn x.1.1.1 pos)) ++
        (List.range x.1.1.2).map (tensor.row x.2) := by
  have hchange : x.1 ∈ r.changes := List.fst_mem_of_mem_zipIdx hx
  have hlive : x.1.1.1 ∈ s.caches := hw.live _ (mem_requestCaches hchange)
  have hholds := holdsRows_stagedPool hs ho hw pool tensor
  rw [gatherRows_eq hs.pageSize_pos, List.range_add, List.map_append, List.map_map]
  · congr 1
    · apply List.map_congr_left
      intro pos hpos
      have hlt := List.mem_range.mp hpos
      rw [hholds.kept x.1 hchange pos hlt, flatten_copyInto hs ho hw pool hlive hlt]
    · apply List.map_congr_left
      intro i hi
      exact hholds.added x hx i (List.mem_range.mp hi)
  · rw [(ho.candidate x.1 hchange hlive).length_eq]
    exact le_pagesFor_mul hs.pageSize_pos _

end PagedKVCacheBackend
end MlxRuntime
