import MlxRuntime.Python
import Mathlib.Algebra.BigOperators.Group.Finset.Basic
import Mathlib.Data.Int.Cast.Basic
import Mathlib.Data.List.Sort

/-!
# The paged KV store

`PagedKVCacheBackend` keeps the K/V rows of every request in one pool of
fixed-size pages per layer.  A request cache is a block table: position `i` of the
request lives in page `table[i / page_size]` at offset `i % page_size`.  Tables may
share pages after a fork, so the store counts references; an append is reserved
first (`reserve_batch`), staged layer by layer and then committed or aborted as a
whole.

The bookkeeping is redundant, as in the source: the free list, the reference
counts, the pin counts, the reserved set and the block tables are five separate
pieces of state, updated by each method in the source's order.

Request caches are objects shared by the store's dictionary and by reservations.
`cacheOf` is the heap of those objects, keyed by the handle each was created with,
and `caches` is the key set of `_caches`: a released object leaves `caches` but a
reservation that names it still reads and writes it.  Handles are the `uuid4`
names; the model draws them from a counter, so they never repeat.

## Main definitions

* `PagedKVCacheBackend`, `PagedRequestCache`, `PagedBatchReservation` — the state.
* `postInit`, `create`, `get`, `fork`, `release`, `reserveBatch`, `preflight`,
  `metrics`, `reset` — the store's methods.
* `stageLayer`, `commit`, `abort` — the reservation's methods.
-/

namespace MlxRuntime

abbrev Page := ℕ
abbrev Handle := ℕ

/-- Element types of the tensors that reach the store. -/
inductive Dtype
  | float16
  | bfloat16
  | float32
  deriving DecidableEq, Repr

/-- Pages needed for `length` rows: `math.ceil(length / page_size)`.  The float
division of the source is exact below `2 ^ 53` for its page sizes 8, 16 and 32. -/
def pagesFor (pageSize length : ℕ) : ℕ := (length + pageSize - 1) / pageSize

/-- A K or V tensor of one layer: its shape, its element type and, for each batch
row and position, the heads-by-dim vector there. -/
structure KVTensor (κ : Type) where
  shape : List ℕ
  dtype : Dtype
  row : ℕ → ℕ → κ

/-- One layer's pool: the vector at each page and offset. -/
abbrev PageArray (κ : Type) := Page → ℕ → κ

/-- Logical request-to-page mapping. -/
structure PagedRequestCache (ρ : Type) where
  handle : Handle
  requestId : ρ
  blockTable : List Page := []
  length : ℕ := 0
  deriving DecidableEq

/-- `size()`. -/
def PagedRequestCache.size {ρ : Type} (cache : PagedRequestCache ρ) : ℕ := cache.length

/-- An all-request, all-layer append: the tables the requests will have, the pages
set aside for them, the pages to copy before writing, the pages pinned meanwhile
and what the layers have staged so far. -/
structure PagedBatchReservation (κ : Type) where
  requestCaches : List Handle
  appendLengths : List ℕ
  candidateTables : List (List Page)
  reservedPages : List Page
  copyPages : List (Page × Page)
  pinnedPages : List Page
  stagedKeys : ℕ → Option (PageArray κ)
  stagedValues : ℕ → Option (PageArray κ)
  finished : Bool
  slotArray : List ℕ

/-- The requests of a reservation with their append lengths and candidate tables:
`zip(request_caches, append_lengths, candidate_tables)`. -/
def PagedBatchReservation.changes {κ : Type} (r : PagedBatchReservation κ) :
    List ((Handle × ℕ) × List Page) :=
  (r.requestCaches.zip r.appendLengths).zip r.candidateTables

/-- The store.  `refCounts` and `pinCounts` are the two count lists, indexed by
page and signed, because the source checks them for going negative. -/
structure PagedKVCacheBackend (ρ κ : Type) where
  numLayers : ℕ
  numKvHeads : ℕ
  headDim : ℕ
  pageSize : ℕ
  dtype : Dtype
  bytesPerPage : ℕ
  numPages : ℕ
  keyPages : ℕ → PageArray κ
  valuePages : ℕ → PageArray κ
  freePages : List Page
  refCounts : Page → ℤ
  pinCounts : Page → ℤ
  caches : Finset Handle
  cacheOf : Handle → PagedRequestCache ρ
  reservedPages : Finset Page
  allocationFailures : ℕ
  nextHandle : Handle

/-- What `metrics()` reports. -/
structure PagedMetrics where
  totalPages : ℕ
  usedPages : ℕ
  freePages : ℕ
  pinnedPages : ℕ
  internalFragmentationTokens : ℕ
  activeKvBytes : ℕ
  allocationFailures : ℕ
  pageSize : ℕ
  deriving DecidableEq

/-- The constructor's arguments. -/
structure PagedKVConfig where
  numLayers : ℕ
  numKvHeads : ℕ
  headDim : ℕ
  pageSize : ℕ
  budgetBytes : ℕ
  dtype : Dtype

/-! ## Arrays -/

variable {ρ κ : Type}

/-- `reshape` of a pool to one row axis. -/
def flatten (pageSize : ℕ) (cache : PageArray κ) : ℕ → κ :=
  fun slot => cache (slot / pageSize) (slot % pageSize)

/-- `reshape` back to pages. -/
def unflatten (pageSize : ℕ) (flat : ℕ → κ) : PageArray κ :=
  fun page offset => flat (page * pageSize + offset)

/-- `flat[slots] = rows`. -/
def scatter (flat : ℕ → κ) (writes : List (ℕ × κ)) : ℕ → κ :=
  writes.foldl (fun f write => Function.update f write.1 write.2) flat

/-- `cache[new] = cache[old]` for each pair in turn. -/
def copyInto (copies : List (Page × Page)) (cache : PageArray κ) : PageArray κ :=
  copies.foldl (fun c pair => Function.update c pair.2 (c pair.1)) cache

/-- The flat row index of a request position under a block table. -/
def slotOf (pageSize : ℕ) (table : List Page) (position : ℕ) : ℕ :=
  table.getD (position / pageSize) 0 * pageSize + position % pageSize

/-- The slots of the positions `size, …, size + append - 1`. -/
def requestSlots (pageSize : ℕ) (table : List Page) (size append : ℕ) : List ℕ :=
  (List.range append).map fun i => slotOf pageSize table (size + i)

/-- The first `append_length` rows of each batch row, one request after another. -/
def packRows (tensor : KVTensor κ) (appendLengths : List ℕ) : List κ :=
  (appendLengths.zipIdx).flatMap fun (append, index) =>
    (List.range append).map fun position => tensor.row index position

/-! ## Counts and the free list -/

/-- `counts[page] -= 1` for each page in turn; raises at the first count that
becomes negative, with the earlier decrements made. -/
def decrementEach (message : String) :
    List Page → (Page → ℤ) → Except PyError Unit × (Page → ℤ)
  | [], counts => (.ok (), counts)
  | page :: pages, counts =>
      let counts' := Function.update counts page (counts page - 1)
      if counts' page < 0 then (.error (.valueError message), counts')
      else decrementEach message pages counts'

/-- The loop of `release`: drop one reference of each page; a page whose last
reference went and that no reservation pins returns to the free list. -/
def releasePages (pins : Page → ℤ) :
    List Page → (Page → ℤ) → List Page → Except PyError Unit × (Page → ℤ) × List Page
  | [], refs, free => (.ok (), refs, free)
  | page :: pages, refs, free =>
      let refs' := Function.update refs page (refs page - 1)
      if refs' page < 0 then
        (.error (.valueError "paged KV page reference count became negative"), refs', free)
      else
        let free' :=
          if refs' page = 0 ∧ pins page = 0 ∧ page ∉ free then free ++ [page] else free
        releasePages pins pages refs' free'

/-- `list.sort()`. -/
def sortPages (pages : List Page) : List Page := pages.insertionSort (· ≤ ·)

/-- `tuple(sorted(set(pages)))`. -/
def sortedSet (pages : List Page) : List Page := sortPages pages.dedup

namespace PagedKVCacheBackend

/-! ## Construction and lookup -/

/-- `__post_init__`.  `zero` fills the fresh pools, `noRequest` the heap cells no
cache has been created in yet. -/
def postInit (config : PagedKVConfig) (zero : κ) (noRequest : ρ) :
    Except PyError (PagedKVCacheBackend ρ κ) :=
  if config.pageSize ∉ [8, 16, 32] then
    .error (.valueError "native KV page size must be one of 8, 16, or 32")
  else if config.numLayers = 0 ∨ config.numKvHeads = 0 ∨ config.headDim = 0 then
    .error (.valueError "native KV geometry must be positive")
  else if config.dtype ∉ [Dtype.float16, Dtype.bfloat16] then
    .error (.valueError "native paged KV supports float16 or bfloat16")
  else
    let dtypeBytes := 2
    let bytesPerPage := 2 * config.numLayers * config.pageSize * config.numKvHeads *
      config.headDim * dtypeBytes
    let numPages := config.budgetBytes / bytesPerPage
    if numPages = 0 then
      .error (.valueError "native text cache budget cannot allocate one complete KV page")
    else
      .ok {
        numLayers := config.numLayers
        numKvHeads := config.numKvHeads
        headDim := config.headDim
        pageSize := config.pageSize
        dtype := config.dtype
        bytesPerPage := bytesPerPage
        numPages := numPages
        keyPages := fun _ _ _ => zero
        valuePages := fun _ _ _ => zero
        freePages := List.range numPages
        refCounts := fun _ => 0
        pinCounts := fun _ => 0
        caches := ∅
        cacheOf := fun handle => { handle := handle, requestId := noRequest }
        reservedPages := ∅
        allocationFailures := 0
        nextHandle := 0 }

/-- `create`: a fresh handle with an empty table. -/
def create (s : PagedKVCacheBackend ρ κ) (requestId : ρ) :
    Handle × PagedKVCacheBackend ρ κ :=
  (s.nextHandle,
    { s with
      caches := insert s.nextHandle s.caches
      cacheOf := Function.update s.cacheOf s.nextHandle
        { handle := s.nextHandle, requestId := requestId }
      nextHandle := s.nextHandle + 1 })

/-- `get`: the live cache object of a handle, checked against its owner.  The
object is answered by its handle, its place in the heap. -/
def get [DecidableEq ρ] (s : PagedKVCacheBackend ρ κ) (handle : Option Handle)
    (requestId : ρ) : Except PyError Handle :=
  match handle with
  | none => .error (.valueError "invalid cache handle")
  | some h =>
      if h ∉ s.caches then .error (.valueError "invalid cache handle")
      else if (s.cacheOf h).requestId ≠ requestId then
        .error (.valueError "cache handle belongs to different request")
      else .ok h

/-- `length`: zero for a handle that is not live. -/
def length (s : PagedKVCacheBackend ρ κ) (handle : Option Handle) : ℕ :=
  match handle with
  | none => 0
  | some h => if h ∈ s.caches then (s.cacheOf h).size else 0

/-! ## Reserving an append -/

/-- A candidate table in the making: the table, the pages taken for it, the copies
its first write needs and the pages still available. -/
structure TableChange where
  table : List Page
  reserved : List Page
  copyPages : List (Page × Page)
  available : List Page
  deriving DecidableEq

/-- Copy-on-write of a partially filled last page that another table shares.
`none` is the `IndexError` of `available.pop(0)`. -/
def replaceTail (s : PagedKVCacheBackend ρ κ) (cache : PagedRequestCache ρ)
    (available : List Page) : Option TableChange :=
  match cache.blockTable.getLast? with
  | none => some ⟨cache.blockTable, [], [], available⟩
  | some last =>
      if cache.size % s.pageSize ≠ 0 ∧ 1 < s.refCounts last then
        match available with
        | [] => none
        | replacement :: rest =>
            some ⟨cache.blockTable.dropLast ++ [replacement], [replacement],
              [(last, replacement)], rest⟩
      else some ⟨cache.blockTable, [], [], available⟩

/-- Take `n` more pages, each from the head of `available`. -/
def extendTable : ℕ → TableChange → Option TableChange
  | 0, change => some change
  | n + 1, change =>
      match change.available with
      | [] => none
      | page :: rest =>
          extendTable n
            { change with
              table := change.table ++ [page]
              reserved := change.reserved ++ [page]
              available := rest }

/-- The candidate table of one request that appends `appendLength` rows. -/
def candidateTable (s : PagedKVCacheBackend ρ κ) (cache : PagedRequestCache ρ)
    (appendLength : ℕ) (available : List Page) : Option TableChange :=
  (replaceTail s cache available).bind fun change =>
    extendTable (pagesFor s.pageSize (cache.size + appendLength) - change.table.length) change

/-- The candidate tables, reserved pages and copies of a whole batch. -/
def candidateTables (s : PagedKVCacheBackend ρ κ) :
    List (Handle × ℕ) → List Page →
      Option (List (List Page) × List Page × List (Page × Page))
  | [], _ => some ([], [], [])
  | (handle, appendLength) :: rest, available =>
      (candidateTable s (s.cacheOf handle) appendLength available).bind fun change =>
        (candidateTables s rest change.available).map fun (tables, reserved, copies) =>
          (change.table :: tables, change.reserved ++ reserved, change.copyPages ++ copies)

/-- The pages a reservation may take: free and not reserved by another. -/
def availablePages (s : PagedKVCacheBackend ρ κ) : List Page :=
  s.freePages.filter fun page => page ∉ s.reservedPages

/-- The pages of the batch's current tables, each once, in order. -/
def pinnedBy (s : PagedKVCacheBackend ρ κ) (caches : List Handle) : List Page :=
  sortedSet (caches.flatMap fun handle => (s.cacheOf handle).blockTable)

/-- `PagedBatchReservation.__post_init__`: the slots of every appended row. -/
def slots (s : PagedKVCacheBackend ρ κ) (caches : List Handle) (appendLengths : List ℕ)
    (tables : List (List Page)) : List ℕ :=
  ((caches.zip appendLengths).zip tables).flatMap fun ((handle, append), table) =>
    requestSlots s.pageSize table (s.cacheOf handle).size append

/-- `reserve_batch`. -/
def reserveBatch (s : PagedKVCacheBackend ρ κ) (caches : List Handle)
    (appendLengths : List ℕ) :
    Except PyError (PagedBatchReservation κ) × PagedKVCacheBackend ρ κ :=
  if caches.length ≠ appendLengths.length ∨ caches = [] then
    (.error (.valueError "paged cache reservation requires matching requests"), s)
  else if ¬ caches.Nodup then
    (.error (.valueError "paged cache reservation contains duplicate handles"), s)
  else if 0 ∈ appendLengths then
    (.error (.valueError "paged cache append lengths must be positive"), s)
  else
    match candidateTables s (caches.zip appendLengths) s.availablePages with
    | none =>
        (.error (.valueError "native paged KV capacity exhausted before model execution"),
          { s with allocationFailures := s.allocationFailures + 1 })
    | some (tables, reserved, copies) =>
        let pinned := s.pinnedBy caches
        (.ok {
            requestCaches := caches
            appendLengths := appendLengths
            candidateTables := tables
            reservedPages := reserved
            copyPages := copies
            pinnedPages := pinned
            stagedKeys := fun _ => none
            stagedValues := fun _ => none
            finished := false
            slotArray := s.slots caches appendLengths tables },
          { s with
            pinCounts := fun page =>
              if page ∈ pinned then s.pinCounts page + 1 else s.pinCounts page
            reservedPages := s.reservedPages ∪ reserved.toFinset })

/-- Pages `preflight` charges one request: the missing ones, and one for a
copy-on-write of its last page. -/
def preflightCost (s : PagedKVCacheBackend ρ κ) (cache : PagedRequestCache ρ)
    (appendLength : ℕ) : ℕ :=
  let required := pagesFor s.pageSize (cache.size + appendLength)
  let cost := required - cache.blockTable.length
  match cache.blockTable.getLast? with
  | none => cost
  | some last =>
      if cache.size % s.pageSize ≠ 0 ∧ 1 < s.refCounts last then cost + 1 else cost

/-- The loop of `preflight` over what is still available. -/
def preflightFrom (s : PagedKVCacheBackend ρ κ) :
    List (Handle × ℕ) → ℕ → List (Option String) × ℕ
  | [], _ => ([], 0)
  | (handle, appendLength) :: rest, available =>
      let cost := s.preflightCost (s.cacheOf handle) appendLength
      if available < cost then
        let (results, failures) := preflightFrom s rest available
        (some "native paged KV capacity exhausted before model execution" :: results,
          failures + 1)
      else
        let (results, failures) := preflightFrom s rest (available - cost)
        (none :: results, failures)

/-- `preflight`: which requests of a batch would not fit. -/
def preflight (s : PagedKVCacheBackend ρ κ) (caches : List Handle)
    (appendLengths : List ℕ) :
    Except PyError (List (Option String)) × PagedKVCacheBackend ρ κ :=
  if caches.length ≠ appendLengths.length then
    (.error (.valueError "paged preflight requires matching requests"), s)
  else
    let (results, failures) :=
      s.preflightFrom (caches.zip appendLengths) s.availablePages.length
    (.ok results, { s with allocationFailures := s.allocationFailures + failures })

/-! ## Sharing and dropping tables -/

/-- `fork`: a new handle over the pages of the first `length` rows. -/
def fork (s : PagedKVCacheBackend ρ κ) (handle : Handle) (requestId : ρ)
    (length : Option ℤ) : Except PyError Handle × PagedKVCacheBackend ρ κ :=
  if handle ∉ s.caches then (.error .keyError, s)
  else
    let source := s.cacheOf handle
    let forkLength : ℤ := length.getD source.size
    if forkLength < 0 ∨ (source.size : ℤ) < forkLength then
      (.error (.valueError "fork length is outside source cache"), s)
    else
      let pages := source.blockTable.take (pagesFor s.pageSize forkLength.toNat)
      let (newHandle, s') := s.create requestId
      (.ok newHandle,
        { s' with
          cacheOf := Function.update s'.cacheOf newHandle
            { s'.cacheOf newHandle with blockTable := pages, length := forkLength.toNat }
          refCounts := fun page => s'.refCounts page + (pages.count page : ℤ) })

/-- `release`: forget a handle and drop its references. -/
def release (s : PagedKVCacheBackend ρ κ) (handle : Option Handle) :
    Except PyError Unit × PagedKVCacheBackend ρ κ :=
  match handle with
  | none => (.ok (), s)
  | some h =>
      if h ∉ s.caches then (.ok (), s)
      else
        match releasePages s.pinCounts (s.cacheOf h).blockTable s.refCounts s.freePages with
        | (.error e, refs, free) =>
            (.error e,
              { s with caches := s.caches.erase h, refCounts := refs, freePages := free })
        | (.ok (), refs, free) =>
            (.ok (),
              { s with
                caches := s.caches.erase h, refCounts := refs, freePages := sortPages free })

/-- `metrics`. -/
def metrics (s : PagedKVCacheBackend ρ κ) : PagedMetrics :=
  let usedPages := (List.range s.numPages).countP fun page => 0 < s.refCounts page
  { totalPages := s.numPages
    usedPages := usedPages
    freePages := s.numPages - usedPages
    pinnedPages := (List.range s.numPages).countP fun page => 0 < s.pinCounts page
    internalFragmentationTokens := ∑ handle ∈ s.caches,
      (pagesFor s.pageSize (s.cacheOf handle).size * s.pageSize - (s.cacheOf handle).size)
    activeKvBytes := usedPages * s.bytesPerPage
    allocationFailures := s.allocationFailures
    pageSize := s.pageSize }

/-- `reset`: refused while anything is reserved or pinned. -/
def reset (s : PagedKVCacheBackend ρ κ) (resetCounters : Bool) :
    Except PyError Unit × PagedKVCacheBackend ρ κ :=
  if s.reservedPages ≠ ∅ ∨ (List.range s.numPages).any (fun page => s.pinCounts page ≠ 0) then
    (.error (.runtimeError "cannot reset KV cache while pages are reserved or pinned"), s)
  else
    (.ok (),
      { s with
        caches := ∅
        freePages := List.range s.numPages
        refCounts := fun _ => 0
        allocationFailures := if resetCounters then 0 else s.allocationFailures })

/-! ## Staging, committing and aborting a reservation -/

/-- `validate_kv_shape`. -/
def validateKvShape (s : PagedKVCacheBackend ρ κ) (keys values : KVTensor κ)
    (appendLengths : List ℕ) : Except PyError Unit :=
  match keys.shape with
  | [batch, kvHeads, sequence, headDim] =>
      if keys.shape ≠ values.shape then
        .error (.valueError "paged K/V tensors must have identical rank-4 shapes")
      else if batch ≠ appendLengths.length then
        .error (.valueError "paged K/V batch does not match reservation")
      else if kvHeads ≠ s.numKvHeads ∨ headDim ≠ s.headDim then
        .error (.valueError "paged K/V head geometry is unsupported")
      else if sequence < appendLengths.foldr max 0 then
        .error (.valueError "paged K/V sequence is shorter than scheduled append")
      else if keys.dtype ≠ s.dtype ∨ values.dtype ≠ s.dtype then
        .error (.valueError "paged K/V dtype does not match configured cache dtype")
      else .ok ()
  | _ => .error (.valueError "paged K/V tensors must have identical rank-4 shapes")

/-- A pool after one layer of a reservation: the packed rows at their slots. -/
def stagedPool (s : PagedKVCacheBackend ρ κ) (r : PagedBatchReservation κ)
    (tensor : KVTensor κ) (pool : PageArray κ) : PageArray κ :=
  unflatten s.pageSize
    (scatter (flatten s.pageSize pool) (r.slotArray.zip (packRows tensor r.appendLengths)))

/-- `stage_layer`.  The page copies go into the store's own arrays, in place; the
new rows go into fresh arrays that only `commit` installs. -/
def stageLayer (s : PagedKVCacheBackend ρ κ) (r : PagedBatchReservation κ) (layer : ℕ)
    (keys values : KVTensor κ) :
    Except PyError (PageArray κ × PageArray κ) × PagedBatchReservation κ ×
      PagedKVCacheBackend ρ κ :=
  if r.finished then (.error (.valueError "cache reservation already finished"), r, s)
  else if s.numLayers ≤ layer then (.error .indexError, r, s)
  else if (r.stagedKeys layer).isSome then
    (.error (.valueError s!"layer {layer} staged more than once"), r, s)
  else
    match s.validateKvShape keys values r.appendLengths with
    | .error e => (.error e, r, s)
    | .ok () =>
        let keyCache := copyInto r.copyPages (s.keyPages layer)
        let valueCache := copyInto r.copyPages (s.valuePages layer)
        let stagedKey := s.stagedPool r keys keyCache
        let stagedValue := s.stagedPool r values valueCache
        (.ok (stagedKey, stagedValue),
          { r with
            stagedKeys := Function.update r.stagedKeys layer (some stagedKey)
            stagedValues := Function.update r.stagedValues layer (some stagedValue) },
          { s with
            keyPages := Function.update s.keyPages layer keyCache
            valuePages := Function.update s.valuePages layer valueCache })

/-- `_finish_reservation`: give the reserved pages back and drop the pins. -/
def finishReservation (s : PagedKVCacheBackend ρ κ) (r : PagedBatchReservation κ) :
    Except PyError Unit × PagedKVCacheBackend ρ κ :=
  let (result, pins) :=
    decrementEach "paged KV page pin count became negative" r.pinnedPages s.pinCounts
  (result,
    { s with reservedPages := s.reservedPages \ r.reservedPages.toFinset, pinCounts := pins })

/-- The reference counts after a commit: minus the old tables, plus the new. -/
def candidateRefCounts (s : PagedKVCacheBackend ρ κ) (r : PagedBatchReservation κ) :
    Page → ℤ := fun page =>
  s.refCounts page
    - ((r.requestCaches.flatMap fun handle => (s.cacheOf handle).blockTable).count page : ℤ)
    + (r.candidateTables.flatten.count page : ℤ)

/-- Install the candidate tables and advance the lengths. -/
def installTables (cacheOf : Handle → PagedRequestCache ρ)
    (changes : List ((Handle × ℕ) × List Page)) : Handle → PagedRequestCache ρ :=
  changes.foldl
    (fun heap change =>
      Function.update heap change.1.1
        { heap change.1.1 with
          blockTable := change.2, length := (heap change.1.1).length + change.1.2 })
    cacheOf

/-- The scan of `_commit_reservation`: append every page without references and
pins that is neither listed nor just reserved. -/
def collectFreed (s : PagedKVCacheBackend ρ κ) (r : PagedBatchReservation κ)
    (refs : Page → ℤ) (free : List Page) : List Page :=
  (List.range s.numPages).foldl
    (fun free page =>
      if refs page = 0 ∧ s.pinCounts page = 0 ∧ page ∉ free ∧ page ∉ r.reservedPages then
        free ++ [page]
      else free)
    free

/-- `_commit_reservation`. -/
def commitReservation (s : PagedKVCacheBackend ρ κ) (r : PagedBatchReservation κ) :
    Except PyError (List ℕ) × PagedKVCacheBackend ρ κ :=
  let refs := s.candidateRefCounts r
  if (List.range s.numPages).any (fun page => refs page < 0) then
    (.error (.valueError "paged KV page reference count became negative"), s)
  else
    let s' : PagedKVCacheBackend ρ κ :=
      { s with
        refCounts := refs
        keyPages := fun layer => (r.stagedKeys layer).getD (s.keyPages layer)
        valuePages := fun layer => (r.stagedValues layer).getD (s.valuePages layer)
        cacheOf := installTables s.cacheOf r.changes
        freePages := s.collectFreed r refs (s.freePages.diff r.reservedPages) }
    match s'.finishReservation r with
    | (.error e, s'') => (.error e, s'')
    | (.ok (), s'') =>
        (.ok (r.requestCaches.map fun handle => (s''.cacheOf handle).size),
          { s'' with freePages := sortPages s''.freePages })

/-- `commit`.  `evalError` is what `mx.eval` of the staged arrays raises, if it
does. -/
def commit (s : PagedKVCacheBackend ρ κ) (r : PagedBatchReservation κ)
    (evalError : Option PyError) :
    Except PyError (List ℕ) × PagedBatchReservation κ × PagedKVCacheBackend ρ κ :=
  if r.finished then (.error (.valueError "cache reservation already finished"), r, s)
  else if (List.range s.numLayers).any fun layer =>
      (r.stagedKeys layer).isNone || (r.stagedValues layer).isNone then
    (.error (.valueError "paged cache commit missing one or more layers"), r, s)
  else
    match evalError with
    | some e => (.error e, r, s)
    | none =>
        match s.commitReservation r with
        | (.error e, s') => (.error e, r, s')
        | (.ok lengths, s') => (.ok lengths, { r with finished := true }, s')

/-- `abort`. -/
def abort (s : PagedKVCacheBackend ρ κ) (r : PagedBatchReservation κ) :
    Except PyError Unit × PagedBatchReservation κ × PagedKVCacheBackend ρ κ :=
  if r.finished then (.ok (), r, s)
  else
    match s.finishReservation r with
    | (.error e, s') => (.error e, r, s')
    | (.ok (), s') => (.ok (), { r with finished := true }, s')

end PagedKVCacheBackend
end MlxRuntime
