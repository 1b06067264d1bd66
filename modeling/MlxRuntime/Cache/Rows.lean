import MlxRuntime.Cache.Writable

/-!
# The rows of a request

What a live handle reads through its block table, and what each method does to it: a
fork reads a prefix of its source's rows, staging changes no row anyone reads, and a
commit leaves each request its old rows followed by the staged ones.

## Main definitions

* `visibleRows` — the rows a handle reads.
* `HoldsRows` — what a staged pool says about the old and the new rows.
* `holdsRows_stagedPool` — staging a layer stores what it should.
-/

namespace MlxRuntime

variable {ρ κ : Type}

/-- One position of a request: its key and value in each layer. -/
abbrev Row (κ : Type) := List (κ × κ)

/-- The rows of the request at `index` of a batch, from the key and value tensors
staged for each layer. -/
def stagedRows (staged : ℕ → Option (KVTensor κ × KVTensor κ)) (layers index append : ℕ) :
    List (Row κ) :=
  (List.range append).map fun i =>
    ((List.range layers).filterMap staged).map fun tensors =>
      (tensors.1.row index i, tensors.2.row index i)

namespace PagedKVCacheBackend

/-- The row at a slot of the pools. -/
def rowAt (s : PagedKVCacheBackend ρ κ) (slot : ℕ) : Row κ :=
  (List.range s.numLayers).map fun layer =>
    (flatten s.pageSize (s.keyPages layer) slot, flatten s.pageSize (s.valuePages layer) slot)

/-- The rows a handle reads through its block table. -/
def visibleRows (s : PagedKVCacheBackend ρ κ) (h : Handle) : List (Row κ) :=
  (List.range (s.cacheOf h).length).map fun pos => s.rowAt (s.slotIn h pos)

variable {s : PagedKVCacheBackend ρ κ} {r : PagedBatchReservation κ}

theorem visibleRows_congr {s' : PagedKVCacheBackend ρ κ} {h h' : Handle}
    (hlen : (s'.cacheOf h').length = (s.cacheOf h).length)
    (hrow : ∀ pos < (s.cacheOf h).length, s'.rowAt (s'.slotIn h' pos) = s.rowAt (s.slotIn h pos)) :
    s'.visibleRows h' = s.visibleRows h := by
  rw [visibleRows, visibleRows, hlen]
  exact List.map_congr_left fun pos hpos => hrow pos (List.mem_range.mp hpos)

theorem length_visibleRows (s : PagedKVCacheBackend ρ κ) (h : Handle) :
    (s.visibleRows h).length = (s.cacheOf h).length := by simp [visibleRows]

theorem visibleRows_addCache_of_lt (requestId : ρ) (table : List Page) (length : ℕ) {h : Handle}
    (hh : h < s.nextHandle) :
    (s.addCache requestId table length).visibleRows h = s.visibleRows h := by
  have hcache : (s.addCache requestId table length).cacheOf h = s.cacheOf h :=
    Function.update_of_ne (ne_of_lt hh) _ _
  refine visibleRows_congr (by rw [hcache]) fun pos _ => ?_
  rw [slotIn, hcache]
  rfl

theorem visibleRows_create (s : PagedKVCacheBackend ρ κ) (requestId : ρ) :
    (s.addCache requestId [] 0).visibleRows s.nextHandle = [] := by
  simp [visibleRows, addCache]

theorem slotOf_take (hps : 0 < s.pageSize) (table : List Page) {n pos : ℕ} (hpos : pos < n) :
    slotOf s.pageSize (table.take (pagesFor s.pageSize n)) pos = slotOf s.pageSize table pos := by
  have hidx := div_lt_pagesFor hps hpos
  rw [slotOf, slotOf, List.getD_eq_getElem?_getD, List.getD_eq_getElem?_getD,
    List.getElem?_take_of_lt hidx]

/-- A fork reads the first rows of its source. -/
theorem visibleRows_fork (hs : s.Wf) (requestId : ρ) {handle : Handle} {n : ℕ}
    (hn : n ≤ (s.cacheOf handle).length) :
    (s.addCache requestId ((s.cacheOf handle).blockTable.take (pagesFor s.pageSize n))
      n).visibleRows s.nextHandle = (s.visibleRows handle).take n := by
  rw [visibleRows, visibleRows, ← List.map_take, List.take_range, min_eq_left hn]
  have hlen : ((s.addCache requestId ((s.cacheOf handle).blockTable.take
      (pagesFor s.pageSize n)) n).cacheOf s.nextHandle).length = n := by simp [addCache]
  rw [hlen]
  refine List.map_congr_left fun pos hpos => ?_
  have hslot : (s.addCache requestId ((s.cacheOf handle).blockTable.take
      (pagesFor s.pageSize n)) n).slotIn s.nextHandle pos = s.slotIn handle pos := by
    simp only [slotIn, addCache, Function.update_self]
    exact slotOf_take hs.pageSize_pos _ (List.mem_range.mp hpos)
  rw [hslot]
  rfl

/-- A staged pool agrees with the store's own where live caches look, and holds the
old and the new rows of each request where its candidate table looks. -/
structure HoldsRows (s : PagedKVCacheBackend ρ κ) (r : PagedBatchReservation κ)
    (pool staged : PageArray κ) (tensor : KVTensor κ) : Prop where
  agree : ∀ h ∈ s.caches, ∀ pos < (s.cacheOf h).length,
    flatten s.pageSize staged (s.slotIn h pos) = flatten s.pageSize pool (s.slotIn h pos)
  kept : ∀ change ∈ r.changes, ∀ pos < (s.cacheOf change.1.1).length,
    flatten s.pageSize staged (slotOf s.pageSize change.2 pos) =
      flatten s.pageSize pool (s.slotIn change.1.1 pos)
  added : ∀ x ∈ r.changes.zipIdx, ∀ i < x.1.1.2,
    flatten s.pageSize staged
      (slotOf s.pageSize x.1.2 ((s.cacheOf x.1.1.1).length + i)) = tensor.row x.2 i

theorem HoldsRows.frame {s' : PagedKVCacheBackend ρ κ} {pool staged : PageArray κ}
    {tensor : KVTensor κ} (h : s.HoldsRows r pool staged tensor)
    (hshow : s.ShowsNoMore s' r) : s'.HoldsRows r pool staged tensor := by
  refine ⟨?_, ?_, ?_⟩
  · intro x hx pos hpos
    obtain ⟨y, hy, pos', hpos', heq⟩ := hshow.slots x hx pos hpos
    rw [heq, hshow.pageSize_eq]
    exact h.agree y hy pos' hpos'
  · intro change hchange
    have hcache := hshow.cache_eq _ (mem_requestCaches hchange)
    simp only [slotIn, hshow.pageSize_eq, hcache]
    exact h.kept change hchange
  · intro x hx
    have hchange : x.1 ∈ r.changes := List.fst_mem_of_mem_zipIdx hx
    rw [hshow.pageSize_eq, hshow.cache_eq _ (mem_requestCaches hchange)]
    exact h.added x hx

/-- The page copies are invisible to live caches. -/
theorem flatten_copyInto (hs : s.Wf) (ho : s.Outstanding r) (hw : s.Writable r)
    (pool : PageArray κ) {h : Handle} (hh : h ∈ s.caches) {pos : ℕ}
    (hpos : pos < (s.cacheOf h).length) :
    flatten s.pageSize (copyInto r.copyPages pool) (s.slotIn h pos) =
      flatten s.pageSize pool (s.slotIn h pos) := by
  have hidx : pos / s.pageSize < (s.cacheOf h).blockTable.length := by
    rw [hs.table_length h hh]
    exact div_lt_pagesFor hs.pageSize_pos hpos
  rw [slotIn, flatten_slotOf hs.pageSize_pos, flatten_slotOf hs.pageSize_pos,
    copyInto_of_notMem]
  intro hmem
  obtain ⟨copy, hcopy, heq⟩ := List.mem_map.mp hmem
  have hres := ho.reserved_sub _ (hw.copies_reserved copy hcopy).2
  exact hs.notMem_table_of_reserved hres hh (heq ▸ getD_mem hidx)

theorem Outstanding.changes_appends (ho : s.Outstanding r) :
    (r.changes.map fun change => change.1.2) = r.appendLengths := by
  have hlen : (r.requestCaches.zip r.appendLengths).length ≤ r.candidateTables.length := by
    simp [ho.appends_length, ho.tables_length]
  calc (r.changes.map fun change => change.1.2)
      = (r.changes.map Prod.fst).map Prod.snd := by rw [List.map_map]; rfl
    _ = (r.requestCaches.zip r.appendLengths).map Prod.snd := by
        rw [PagedBatchReservation.changes, List.map_fst_zip hlen]
    _ = r.appendLengths := List.map_snd_zip (by rw [ho.appends_length])

/-- The writes of a staged layer, request by request. -/
theorem writes_eq (ho : s.Outstanding r) (hw : s.Writable r) (tensor : KVTensor κ) :
    r.slotArray.zip (packRows tensor r.appendLengths) =
      r.changes.zipIdx.flatMap fun x => (List.range x.1.1.2).map fun i =>
        (slotOf s.pageSize x.1.2 ((s.cacheOf x.1.1.1).length + i), tensor.row x.2 i) := by
  rw [hw.slots_eq, packRows, ← ho.changes_appends]
  refine (zip_packRows r.changes _ _ (fun _ _ => length_requestSlots _ _ _) tensor.row 0).trans ?_
  refine List.flatMap_congr fun x _ => ?_
  rw [requestSlots, List.zip_map']

/-- The pool a layer stages, slot by slot. -/
theorem flatten_stagedPool (s : PagedKVCacheBackend ρ κ) (r : PagedBatchReservation κ)
    (tensor : KVTensor κ) (pool : PageArray κ) :
    flatten s.pageSize (s.stagedPool r tensor pool) =
      scatter (flatten s.pageSize pool) (r.slotArray.zip (packRows tensor r.appendLengths)) :=
  flatten_unflatten _

/-- A slot outside the reservation keeps what the pool has. -/
theorem flatten_stagedPool_of_notMem {slot : ℕ} (hslot : slot ∉ r.slotArray)
    (tensor : KVTensor κ) (pool : PageArray κ) :
    flatten s.pageSize (s.stagedPool r tensor pool) slot = flatten s.pageSize pool slot := by
  rw [flatten_stagedPool]
  refine scatter_of_notMem fun hmem => hslot ?_
  obtain ⟨write, hwrite, rfl⟩ := List.mem_map.mp hmem
  exact (List.of_mem_zip hwrite).1

/-- **What staging a layer stores.** -/
theorem holdsRows_stagedPool (hs : s.Wf) (ho : s.Outstanding r) (hw : s.Writable r)
    (pool : PageArray κ) (tensor : KVTensor κ) :
    s.HoldsRows r (copyInto r.copyPages pool)
      (s.stagedPool r tensor (copyInto r.copyPages pool)) tensor := by
  refine ⟨?_, ?_, ?_⟩
  · intro h hh pos hpos
    exact flatten_stagedPool_of_notMem (hw.slots_private h hh pos hpos) _ _
  · intro change hchange pos hpos
    have hsource : ∀ copy ∈ r.copyPages, copy.1 ∉ r.copyPages.map Prod.snd := by
      intro copy hcopy hmem
      obtain ⟨other, hother, heq⟩ := List.mem_map.mp hmem
      exact (hw.copies_reserved copy hcopy).1 (heq ▸ (hw.copies_reserved other hother).2)
    rw [flatten_stagedPool_of_notMem (hw.kept_slot change hchange pos hpos), slotIn,
      flatten_slotOf hs.pageSize_pos, flatten_slotOf hs.pageSize_pos]
    rcases hw.kept_page change hchange pos hpos with hsame | hcopy
    · rw [hsame]
    · rw [copyInto_of_mem hw.copies_nodup hsource hcopy, copyInto_of_notMem (hsource _ hcopy)]
  · intro x hx i hi
    rw [flatten_stagedPool]
    have hlen : r.slotArray.length = (packRows tensor r.appendLengths).length := by
      rw [length_packRows, ← ho.changes_appends, hw.slots_eq]
      simp [List.length_flatMap, length_requestSlots]
    have hnodup : ((r.slotArray.zip (packRows tensor r.appendLengths)).map Prod.fst).Nodup := by
      rw [List.map_fst_zip hlen.le]
      exact hw.slots_nodup
    refine scatter_of_mem hnodup ?_
    rw [writes_eq ho hw]
    exact List.mem_flatMap.mpr ⟨x, hx, List.mem_map.mpr ⟨i, List.mem_range.mpr hi, rfl⟩⟩

@[simp] theorem copiedFor_keyPages_self (s : PagedKVCacheBackend ρ κ)
    (r : PagedBatchReservation κ) (layer : ℕ) :
    (s.copiedFor r layer).keyPages layer = copyInto r.copyPages (s.keyPages layer) :=
  Function.update_self _ _ _

@[simp] theorem copiedFor_valuePages_self (s : PagedKVCacheBackend ρ κ)
    (r : PagedBatchReservation κ) (layer : ℕ) :
    (s.copiedFor r layer).valuePages layer = copyInto r.copyPages (s.valuePages layer) :=
  Function.update_self _ _ _

theorem copiedFor_keyPages_of_ne {layer l : ℕ} (h : l ≠ layer) :
    (s.copiedFor r layer).keyPages l = s.keyPages l := Function.update_of_ne h _ _

theorem copiedFor_valuePages_of_ne {layer l : ℕ} (h : l ≠ layer) :
    (s.copiedFor r layer).valuePages l = s.valuePages l := Function.update_of_ne h _ _

/-- Staging a layer changes no row a live cache reads. -/
theorem visibleRows_copiedFor (hs : s.Wf) (ho : s.Outstanding r) (hw : s.Writable r)
    (layer : ℕ) {h : Handle} (hh : h ∈ s.caches) :
    (s.copiedFor r layer).visibleRows h = s.visibleRows h := by
  refine visibleRows_congr rfl fun pos hpos => List.map_congr_left fun l _ => ?_
  change (flatten s.pageSize _ (s.slotIn h pos), flatten s.pageSize _ (s.slotIn h pos)) = _
  by_cases hl : l = layer
  · subst hl
    rw [copiedFor_keyPages_self, copiedFor_valuePages_self,
      flatten_copyInto hs ho hw _ hh hpos, flatten_copyInto hs ho hw _ hh hpos]
  · rw [copiedFor_keyPages_of_ne hl, copiedFor_valuePages_of_ne hl]

/-! ## Commits -/

/-- The tensors staged for each layer of a reservation, and what its staged pools say
about them. -/
structure HoldsStaged (s : PagedKVCacheBackend ρ κ) (r : PagedBatchReservation κ)
    (staged : ℕ → Option (KVTensor κ × KVTensor κ)) : Prop where
  unstaged : ∀ layer, staged layer = none → r.stagedKeys layer = none
  holds : ∀ layer tensors, staged layer = some tensors → ∃ keyPool valuePool,
    r.stagedKeys layer = some keyPool ∧ r.stagedValues layer = some valuePool ∧
      s.HoldsRows r (s.keyPages layer) keyPool tensors.1 ∧
      s.HoldsRows r (s.valuePages layer) valuePool tensors.2

theorem HoldsStaged.frame {s' : PagedKVCacheBackend ρ κ}
    {staged : ℕ → Option (KVTensor κ × KVTensor κ)} (h : s.HoldsStaged r staged)
    (hshow : s.ShowsNoMore s' r) (hkeys : s'.keyPages = s.keyPages)
    (hvalues : s'.valuePages = s.valuePages) : s'.HoldsStaged r staged := by
  refine ⟨h.unstaged, fun layer tensors hlayer => ?_⟩
  obtain ⟨keyPool, valuePool, hk, hv, hkey, hvalue⟩ := h.holds layer tensors hlayer
  rw [hkeys, hvalues]
  exact ⟨keyPool, valuePool, hk, hv, hkey.frame hshow, hvalue.frame hshow⟩

/-- Staging one more layer. -/
theorem HoldsStaged.stagedWith {staged : ℕ → Option (KVTensor κ × KVTensor κ)}
    (h : s.HoldsStaged r staged) (hs : s.Wf) (ho : s.Outstanding r) (hw : s.Writable r)
    (layer : ℕ) (keys values : KVTensor κ) :
    (s.copiedFor r layer).HoldsStaged
      (stagedWith r layer (s.stagedPools r layer keys values))
      (Function.update staged layer (some (keys, values))) := by
  have hshow : s.ShowsNoMore (s.copiedFor r layer) r := hw.showsNoMore_of_same rfl rfl rfl
  -- The rows are described by the changes of the reservation, which staging keeps.
  have hrows : ∀ {pool staged' : PageArray κ} {tensor : KVTensor κ},
      s.HoldsRows r pool staged' tensor → (s.copiedFor r layer).HoldsRows
        (PagedKVCacheBackend.stagedWith r layer (s.stagedPools r layer keys values))
        pool staged' tensor := by
    intro pool staged' tensor hold
    obtain ⟨hagree, hkept, hadded⟩ := hold.frame hshow
    exact ⟨hagree, hkept, hadded⟩
  refine ⟨fun l hl => ?_, fun l tensors hl => ?_⟩
  · by_cases heq : l = layer
    · subst heq; simp at hl
    · rw [Function.update_of_ne heq] at hl
      exact (Function.update_of_ne heq _ _).trans (h.unstaged l hl)
  · by_cases heq : l = layer
    · subst heq
      obtain rfl : (keys, values) = tensors := by simpa using hl
      refine ⟨_, _, Function.update_self _ _ _, Function.update_self _ _ _, ?_, ?_⟩
      · rw [copiedFor_keyPages_self]
        exact hrows (holdsRows_stagedPool hs ho hw _ keys)
      · rw [copiedFor_valuePages_self]
        exact hrows (holdsRows_stagedPool hs ho hw _ values)
    · rw [Function.update_of_ne heq] at hl
      obtain ⟨keyPool, valuePool, hk, hv, hkey, hvalue⟩ := h.holds l tensors hl
      refine ⟨keyPool, valuePool, (Function.update_of_ne heq _ _).trans hk,
        (Function.update_of_ne heq _ _).trans hv, ?_, ?_⟩
      · rw [copiedFor_keyPages_of_ne heq]
        exact hrows hkey
      · rw [copiedFor_valuePages_of_ne heq]
        exact hrows hvalue

/-- With every layer staged, a slot of the installed pools holds the row that each
staged pool holds there. -/
theorem rowAt_committed {staged : ℕ → Option (KVTensor κ × KVTensor κ)}
    (h : s.HoldsStaged r staged) (hall : s.AllStaged r) (slot : ℕ) :
    ∃ f : ℕ → κ × κ, (s.committed r).rowAt slot = (List.range s.numLayers).map f ∧
      ∀ layer < s.numLayers, ∃ tensors keyPool valuePool, staged layer = some tensors ∧
        s.HoldsRows r (s.keyPages layer) keyPool tensors.1 ∧
        s.HoldsRows r (s.valuePages layer) valuePool tensors.2 ∧
        f layer = (flatten s.pageSize keyPool slot, flatten s.pageSize valuePool slot) := by
  refine ⟨fun layer => (flatten s.pageSize ((r.stagedKeys layer).getD (s.keyPages layer)) slot,
    flatten s.pageSize ((r.stagedValues layer).getD (s.valuePages layer)) slot), rfl, ?_⟩
  intro layer hlayer
  cases hstaged : staged layer with
  | none =>
      have := (hall layer hlayer).1
      simp [h.unstaged layer hstaged] at this
  | some tensors =>
      obtain ⟨keyPool, valuePool, hk, hv, hkey, hvalue⟩ := h.holds layer tensors hstaged
      exact ⟨tensors, keyPool, valuePool, rfl, hkey, hvalue, by simp [hk, hv]⟩

/-- A cache outside the reservation reads the same rows after the commit. -/
theorem visibleRows_committed_of_notMem {staged : ℕ → Option (KVTensor κ × KVTensor κ)}
    (h : s.HoldsStaged r staged) (hall : s.AllStaged r) (ho : s.Outstanding r) {x : Handle}
    (hx : x ∈ s.caches) (hnot : x ∉ r.requestCaches) :
    (s.committed r).visibleRows x = s.visibleRows x := by
  have hcache : (s.committed r).cacheOf x = s.cacheOf x :=
    installTables_of_notMem _ (by rwa [ho.shaped.changes_handles])
  refine visibleRows_congr (by rw [hcache]) fun pos hpos => ?_
  have hslot : (s.committed r).slotIn x pos = s.slotIn x pos := by
    rw [slotIn, hcache]
    rfl
  obtain ⟨f, hf, hlayers⟩ := rowAt_committed h hall (s.slotIn x pos)
  rw [hslot, hf, rowAt]
  refine List.map_congr_left fun layer hlayer => ?_
  obtain ⟨tensors, keyPool, valuePool, -, hkey, hvalue, heq⟩ :=
    hlayers layer (List.mem_range.mp hlayer)
  rw [heq, hkey.agree x hx pos hpos, hvalue.agree x hx pos hpos]

/-- A request of the reservation reads its old rows, then the staged ones. -/
theorem visibleRows_committed_of_mem {staged : ℕ → Option (KVTensor κ × KVTensor κ)}
    (h : s.HoldsStaged r staged) (hall : s.AllStaged r) (ho : s.Outstanding r)
    {x : ((Handle × ℕ) × List Page) × ℕ} (hx : x ∈ r.changes.zipIdx) :
    (s.committed r).visibleRows x.1.1.1 =
      s.visibleRows x.1.1.1 ++ stagedRows staged s.numLayers x.2 x.1.1.2 := by
  have hchange : x.1 ∈ r.changes := List.fst_mem_of_mem_zipIdx hx
  have hnodup : (r.changes.map fun change => change.1.1).Nodup := by
    rw [ho.shaped.changes_handles]; exact ho.nodup
  have hcache : (s.committed r).cacheOf x.1.1.1 = { s.cacheOf x.1.1.1 with
      blockTable := x.1.2, length := (s.cacheOf x.1.1.1).length + x.1.1.2 } :=
    installTables_of_mem _ hnodup hchange
  have hslot : ∀ pos, (s.committed r).slotIn x.1.1.1 pos = slotOf s.pageSize x.1.2 pos := by
    intro pos
    rw [slotIn, hcache]
    rfl
  rw [visibleRows, hcache, List.range_add, List.map_append, visibleRows, stagedRows,
    List.map_map]
  congr 1
  · refine List.map_congr_left fun pos hpos => ?_
    have hpos := List.mem_range.mp hpos
    obtain ⟨f, hf, hlayers⟩ := rowAt_committed h hall (slotOf s.pageSize x.1.2 pos)
    rw [hslot, hf, rowAt]
    refine List.map_congr_left fun layer hlayer => ?_
    obtain ⟨tensors, keyPool, valuePool, -, hkey, hvalue, heq⟩ :=
      hlayers layer (List.mem_range.mp hlayer)
    rw [heq, hkey.kept x.1 hchange pos hpos, hvalue.kept x.1 hchange pos hpos]
  · refine List.map_congr_left fun i hi => ?_
    have hi := List.mem_range.mp hi
    obtain ⟨f, hf, hlayers⟩ := rowAt_committed h hall
      (slotOf s.pageSize x.1.2 ((s.cacheOf x.1.1.1).length + i))
    rw [Function.comp_apply, hslot, hf, List.map_filterMap, ← List.filterMap_eq_map]
    refine List.filterMap_congr fun layer hlayer => ?_
    obtain ⟨tensors, keyPool, valuePool, hstaged, hkey, hvalue, heq⟩ :=
      hlayers layer (List.mem_range.mp hlayer)
    rw [Function.comp_apply, heq, hkey.added x hx i hi, hvalue.added x hx i hi, hstaged]
    rfl

end PagedKVCacheBackend
end MlxRuntime
