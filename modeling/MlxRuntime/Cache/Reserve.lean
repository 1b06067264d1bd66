import MlxRuntime.Lib.Place
import MlxRuntime.Cache.Paged
import Mathlib.Algebra.BigOperators.Ring.Finset
import Mathlib.Tactic.Ring

/-!
# What the loops of the paged store compute

Each loop of `Cache.Paged` gets one specification here, and the later modules cite
it instead of unfolding the loop: page arithmetic, the count-down loops of
`release` and `_finish_reservation`, the scan for freed pages, the installation of
the candidate tables, and the construction of those tables.

The central fact is `candidateTables_spec`: a batch takes an initial segment of the
available pages, cut into consecutive pieces, one for each request.
-/

namespace MlxRuntime

variable {ρ κ : Type}

/-! ## Page arithmetic -/

theorem lt_pagesFor {pageSize : ℕ} (hps : 0 < pageSize) (i n : ℕ) :
    i < pagesFor pageSize n ↔ i * pageSize < n := by
  rw [pagesFor, Nat.lt_iff_add_one_le, Nat.le_div_iff_mul_le hps, Nat.add_mul]
  omega

theorem pagesFor_mono {pageSize : ℕ} {m n : ℕ} (h : m ≤ n) :
    pagesFor pageSize m ≤ pagesFor pageSize n :=
  Nat.div_le_div_right (by omega)

@[simp] theorem pagesFor_zero {pageSize : ℕ} (hps : 0 < pageSize) : pagesFor pageSize 0 = 0 := by
  rw [pagesFor, Nat.div_eq_of_lt]
  omega

theorem pagesFor_mul {pageSize : ℕ} (hps : 0 < pageSize) (k : ℕ) :
    pagesFor pageSize (k * pageSize) = k := by
  apply le_antisymm
  · by_contra h
    have := (lt_pagesFor hps k (k * pageSize)).mp (by omega)
    omega
  · by_contra h
    have hlt : pagesFor pageSize (k * pageSize) < k := by omega
    have hnot := mt (lt_pagesFor hps (pagesFor pageSize (k * pageSize)) (k * pageSize)).mpr
      (lt_irrefl _)
    exact hnot (Nat.mul_lt_mul_of_pos_right hlt hps)

theorem le_pagesFor_mul {pageSize : ℕ} (hps : 0 < pageSize) (n : ℕ) :
    n ≤ pagesFor pageSize n * pageSize := by
  by_contra h
  exact lt_irrefl _ ((lt_pagesFor hps _ n).mpr (by omega))

/-- A position below the length lives in a page the length needs. -/
theorem div_lt_pagesFor {pageSize : ℕ} (hps : 0 < pageSize) {i n : ℕ} (h : i < n) :
    i / pageSize < pagesFor pageSize n :=
  (lt_pagesFor hps _ _).mpr (lt_of_le_of_lt (Nat.div_mul_le_self i pageSize) h)

/-! ## Sorting -/

@[simp] theorem mem_sortPages {pages : List Page} {p : Page} :
    p ∈ sortPages pages ↔ p ∈ pages :=
  (List.perm_insertionSort (· ≤ ·) pages).mem_iff

@[simp] theorem nodup_sortPages {pages : List Page} : (sortPages pages).Nodup ↔ pages.Nodup :=
  (List.perm_insertionSort (· ≤ ·) pages).nodup_iff

/-- Sorting a list without duplicates gives a strictly increasing one. -/
theorem pairwise_sortPages {pages : List Page} (h : pages.Nodup) :
    (sortPages pages).Pairwise (· < ·) := by
  have hle : (sortPages pages).Pairwise (· ≤ ·) := List.pairwise_insertionSort _ _
  have hne : (sortPages pages).Pairwise (· ≠ ·) := nodup_sortPages.mpr h
  exact (hle.and hne).imp fun hp => lt_of_le_of_ne hp.1 hp.2

@[simp] theorem mem_sortedSet {pages : List Page} {p : Page} :
    p ∈ sortedSet pages ↔ p ∈ pages := by simp [sortedSet]

@[simp] theorem nodup_sortedSet (pages : List Page) : (sortedSet pages).Nodup := by
  simp [sortedSet, List.nodup_dedup]

/-- Two strictly increasing lists with the same members are equal. -/
theorem eq_of_pairwise_lt {l l' : List Page} (h : l.Pairwise (· < ·))
    (h' : l'.Pairwise (· < ·)) (hmem : ∀ p, p ∈ l ↔ p ∈ l') : l = l' := by
  have hperm : l.Perm l' :=
    (List.perm_ext_iff_of_nodup (h.imp fun hlt => ne_of_lt hlt)
      (h'.imp fun hlt => ne_of_lt hlt)).mpr hmem
  exact hperm.eq_of_pairwise (fun a b _ _ hab hba => absurd hab (lt_asymm hba)) h h'

/-! ## The counting loops -/

theorem decrementEach_spec (message : String) {pages : List Page} {counts : Page → ℤ}
    (hnodup : pages.Nodup) (hpos : ∀ p ∈ pages, 1 ≤ counts p) :
    decrementEach message pages counts =
      (.ok (), fun p => if p ∈ pages then counts p - 1 else counts p) := by
  induction pages generalizing counts with
  | nil => simp [decrementEach]
  | cons page pages ih =>
      have hpage : 1 ≤ counts page := hpos page (by simp)
      have hnot : page ∉ pages := (List.nodup_cons.mp hnodup).1
      have hrest : ∀ p ∈ pages, 1 ≤ Function.update counts page (counts page - 1) p := by
        intro p hp
        have hne : p ≠ page := fun h => hnot (h ▸ hp)
        simpa [Function.update_of_ne hne] using hpos p (by simp [hp])
      have hnonneg : ¬ Function.update counts page (counts page - 1) page < 0 := by
        simp; omega
      rw [decrementEach]
      simp only [hnonneg, if_false, ih (List.nodup_cons.mp hnodup).2 hrest]
      congr 1
      funext p
      by_cases hp : p = page
      · subst hp; simp [hnot]
      · simp [hp]

/-- Appending a page unless it is listed already: membership. -/
private theorem mem_addPage {free : List Page} {page p : Page} {c q : Prop} [Decidable c]
    (hc : c ↔ page ∉ free ∧ q) :
    (p ∈ if c then free ++ [page] else free) ↔ p ∈ free ∨ (p = page ∧ q) := by
  by_cases h : c
  · have := (hc.mp h).2
    simp [h, this]
  · by_cases hp : p = page
    · subst hp
      have : q → p ∈ free := fun hq => by_contra fun hnot => h (hc.mpr ⟨hnot, hq⟩)
      simpa [h] using this
    · simp [h, hp]

private theorem nodup_addPage {free : List Page} (page : Page) {c : Prop} [Decidable c]
    (hfree : free.Nodup) (hc : c → page ∉ free) :
    (if c then free ++ [page] else free).Nodup := by
  split
  case isTrue h => exact hfree.append (by simp) (by simpa using hc h)
  case isFalse => exact hfree

/-- `release` on a table whose pages are all referenced: every count drops by one,
and the pages left without references and pins join the free list. -/
theorem releasePages_spec (pins : Page → ℤ) {pages : List Page} {refs : Page → ℤ}
    {free : List Page} (hnodup : pages.Nodup) (hpos : ∀ p ∈ pages, 1 ≤ refs p)
    (hfree : free.Nodup) :
    ∃ free', releasePages pins pages refs free =
        (.ok (), (fun p => refs p - (pages.count p : ℤ)), free') ∧
      free'.Nodup ∧
      ∀ p, p ∈ free' ↔ p ∈ free ∨ (p ∈ pages ∧ refs p = 1 ∧ pins p = 0) := by
  induction pages generalizing refs free with
  | nil => exact ⟨free, by simp [releasePages], hfree, by simp⟩
  | cons page pages ih =>
      obtain ⟨hnot, hnodup'⟩ := List.nodup_cons.mp hnodup
      have hpage : 1 ≤ refs page := hpos page (by simp)
      set refs' := Function.update refs page (refs page - 1) with hrefs'
      have hsame : ∀ p ∈ pages, refs' p = refs p := by
        intro p hp
        have hne : p ≠ page := by rintro rfl; exact hnot hp
        exact Function.update_of_ne hne _ _
      have hnonneg : ¬ refs' page < 0 := by simp [hrefs']; omega
      set free₁ := if refs' page = 0 ∧ pins page = 0 ∧ page ∉ free then free ++ [page] else free
        with hfree₁
      have hfree₁_nodup : free₁.Nodup := nodup_addPage page hfree fun h => h.2.2
      have hmem₁ : ∀ p, p ∈ free₁ ↔ p ∈ free ∨ (p = page ∧ refs page = 1 ∧ pins page = 0) := by
        intro p
        have hzero : refs' page = 0 ↔ refs page = 1 := by simp [hrefs']; omega
        exact mem_addPage (by rw [hzero]; tauto)
      have hpos' : ∀ p ∈ pages, 1 ≤ refs' p :=
        fun p hp => by rw [hsame p hp]; exact hpos p (by simp [hp])
      obtain ⟨free', heq, hnd, hmem⟩ := ih hnodup' hpos' hfree₁_nodup
      refine ⟨free', ?_, hnd, ?_⟩
      · rw [releasePages]
        simp only [← hrefs', hnonneg, if_false, ← hfree₁]
        rw [heq]
        congr 2
        funext p
        by_cases hp : p = page
        · subst hp; simp [hrefs', List.count_eq_zero_of_not_mem hnot]
        · simp [hrefs', hp, List.count_cons_of_ne (Ne.symm hp)]
      · intro p
        rw [hmem p, hmem₁ p]
        by_cases hp : p ∈ pages
        · have : p ≠ page := by rintro rfl; exact hnot hp
          simp [hp, hsame p hp, this]
        · by_cases hpage : p = page
          · subst hpage; simp [hp]
          · simp [hp, hpage]

/-- The scan of `_commit_reservation` adds exactly the pages without references
and pins that are neither listed nor just reserved. -/
theorem collectFreed_spec (s : PagedKVCacheBackend ρ κ) (r : PagedBatchReservation κ)
    (refs : Page → ℤ) {free : List Page} (hfree : free.Nodup) :
    (s.collectFreed r refs free).Nodup ∧
      ∀ p, p ∈ s.collectFreed r refs free ↔
        p ∈ free ∨ (p < s.numPages ∧ refs p = 0 ∧ s.pinCounts p = 0 ∧ p ∉ r.reservedPages) := by
  suffices h : ∀ (pages free : List Page), free.Nodup →
      let result := pages.foldl
        (fun free page =>
          if refs page = 0 ∧ s.pinCounts page = 0 ∧ page ∉ free ∧ page ∉ r.reservedPages then
            free ++ [page]
          else free) free
      result.Nodup ∧ ∀ p, p ∈ result ↔
        p ∈ free ∨ (p ∈ pages ∧ refs p = 0 ∧ s.pinCounts p = 0 ∧ p ∉ r.reservedPages) by
    simpa [PagedKVCacheBackend.collectFreed] using h (List.range s.numPages) free hfree
  intro pages
  induction pages with
  | nil => intro free hfree; simp [hfree]
  | cons page pages ih =>
      intro free hfree
      simp only [List.foldl_cons]
      obtain ⟨h₁, h₂⟩ := ih _ (nodup_addPage page hfree
        (c := refs page = 0 ∧ s.pinCounts page = 0 ∧ page ∉ free ∧ page ∉ r.reservedPages)
        fun h => h.2.2.1)
      refine ⟨h₁, fun p => ?_⟩
      rw [h₂ p, mem_addPage (q := refs page = 0 ∧ s.pinCounts page = 0 ∧ page ∉ r.reservedPages)
        (by tauto)]
      by_cases hp : p = page
      · subst hp; simp; tauto
      · simp [hp]

/-! ## Installing the candidate tables -/

namespace PagedKVCacheBackend

/-- The table count of one page over a set of live caches. -/
def tableCount (caches : Finset Handle) (heap : Handle → PagedRequestCache ρ) (p : Page) : ℤ :=
  ∑ h ∈ caches, ((heap h).blockTable.count p : ℤ)

/-- A cache after its change. -/
def installed (change : (Handle × ℕ) × List Page) (cache : PagedRequestCache ρ) :
    PagedRequestCache ρ :=
  { cache with blockTable := change.2, length := cache.length + change.1.2 }

theorem installTables_of_notMem {changes : List ((Handle × ℕ) × List Page)}
    (heap : Handle → PagedRequestCache ρ) {h : Handle}
    (hnot : h ∉ changes.map fun change => change.1.1) :
    installTables heap changes h = heap h :=
  foldl_update_of_notMem installed heap hnot

theorem installTables_of_mem {changes : List ((Handle × ℕ) × List Page)}
    (heap : Handle → PagedRequestCache ρ) (hnodup : (changes.map fun change => change.1.1).Nodup)
    {change : (Handle × ℕ) × List Page} (hmem : change ∈ changes) :
    installTables heap changes change.1.1 =
      { heap change.1.1 with
        blockTable := change.2, length := (heap change.1.1).length + change.1.2 } :=
  foldl_update_of_mem installed heap hnodup hmem

/-- Ownership and handles are not touched by a commit. -/
theorem installTables_requestId (heap : Handle → PagedRequestCache ρ)
    (changes : List ((Handle × ℕ) × List Page)) (h : Handle) :
    (installTables heap changes h).requestId = (heap h).requestId := by
  induction changes generalizing heap with
  | nil => rfl
  | cons change changes ih =>
      rw [installTables, List.foldl_cons, ← installTables, ih]
      by_cases heq : h = change.1.1
      · subst heq; simp
      · simp [heq]

/-- One change moves each live count by the new table minus the old one.  A dead
cache is not counted, so its table must stay as it is. -/
theorem tableCount_update (caches : Finset Handle) (heap : Handle → PagedRequestCache ρ)
    (h : Handle) (cache : PagedRequestCache ρ)
    (hkeep : h ∈ caches ∨ cache.blockTable = (heap h).blockTable) (p : Page) :
    tableCount caches (Function.update heap h cache) p =
      tableCount caches heap p - ((heap h).blockTable.count p : ℤ)
        + (cache.blockTable.count p : ℤ) := by
  by_cases hmem : h ∈ caches
  · rw [tableCount, tableCount, ← Finset.add_sum_erase _ _ hmem,
      ← Finset.add_sum_erase caches (fun h => ((heap h).blockTable.count p : ℤ)) hmem]
    have hrest : ∑ x ∈ caches.erase h,
          ((Function.update heap h cache x).blockTable.count p : ℤ) =
        ∑ x ∈ caches.erase h, ((heap x).blockTable.count p : ℤ) := by
      refine Finset.sum_congr rfl fun x hx => ?_
      rw [Function.update_of_ne (Finset.ne_of_mem_erase hx)]
    rw [hrest, Function.update_self]
    ring
  · rw [hkeep.resolve_left hmem, sub_add_cancel, tableCount, tableCount]
    refine Finset.sum_congr rfl fun x hx => ?_
    rw [Function.update_of_ne (ne_of_mem_of_not_mem hx hmem)]

/-- Installing tables moves each live count by the new tables minus the old ones. -/
theorem tableCount_installTables (caches : Finset Handle)
    {changes : List ((Handle × ℕ) × List Page)} (heap : Handle → PagedRequestCache ρ)
    (hnodup : (changes.map fun change => change.1.1).Nodup)
    (hkeep : ∀ change ∈ changes,
      change.1.1 ∈ caches ∨ change.2 = (heap change.1.1).blockTable) (p : Page) :
    tableCount caches (installTables heap changes) p =
      tableCount caches heap p
        - ((changes.flatMap fun change => (heap change.1.1).blockTable).count p : ℤ)
        + ((changes.flatMap fun change => change.2).count p : ℤ) := by
  induction changes generalizing heap with
  | nil => simp [installTables]
  | cons change changes ih =>
      simp only [List.map_cons, List.nodup_cons] at hnodup
      set heap' := Function.update heap change.1.1
        { heap change.1.1 with
          blockTable := change.2, length := (heap change.1.1).length + change.1.2 } with hheap'
      have hstep : tableCount caches heap' p = tableCount caches heap p
          - ((heap change.1.1).blockTable.count p : ℤ) + (change.2.count p : ℤ) :=
        tableCount_update caches heap _ _ (hkeep change (by simp)) p
      have hother : ∀ other ∈ changes, heap' other.1.1 = heap other.1.1 := by
        intro other hmem
        refine Function.update_of_ne (fun heq => hnodup.1 ?_) _ _
        exact heq ▸ List.mem_map_of_mem hmem
      have htail : (changes.flatMap fun change => (heap' change.1.1).blockTable) =
          changes.flatMap fun change => (heap change.1.1).blockTable :=
        List.flatMap_congr fun other hmem => by rw [hother other hmem]
      have hkeep' : ∀ other ∈ changes,
          other.1.1 ∈ caches ∨ other.2 = (heap' other.1.1).blockTable := by
        intro other hmem
        rw [hother other hmem]
        exact hkeep other (by simp [hmem])
      rw [installTables, List.foldl_cons, ← installTables, ih heap' hnodup.2 hkeep', hstep, htail]
      simp only [List.flatMap_cons, List.count_append, Nat.cast_add]
      ring

/-! ## Candidate tables -/

theorem extendTable_eq_some {n : ℕ} {change change' : TableChange} :
    extendTable n change = some change' ↔
      n ≤ change.available.length ∧
        change' = ⟨change.table ++ change.available.take n,
          change.reserved ++ change.available.take n, change.copyPages,
          change.available.drop n⟩ := by
  induction n generalizing change with
  | zero => simp [extendTable, eq_comm]
  | succ n ih =>
      rw [extendTable]
      split
      case h_1 h => simp [h]
      case h_2 page rest h =>
        rw [ih, h]
        simp

/-- Whether the last page of a cache has to be copied before it is written. -/
def NeedsCopy (s : PagedKVCacheBackend ρ κ) (cache : PagedRequestCache ρ) (last : Page) :
    Prop :=
  cache.blockTable.getLast? = some last ∧ cache.size % s.pageSize ≠ 0 ∧ 1 < s.refCounts last

/-- What `candidateTable` makes of a cache and the available pages: the old table,
without its last page if that has to be copied, followed by the taken pages. -/
structure Extends (s : PagedKVCacheBackend ρ κ) (cache : PagedRequestCache ρ)
    (appendLength : ℕ) (available : List Page) (change : TableChange) : Prop where
  split : available = change.reserved ++ change.available
  shape : (change.table = cache.blockTable ++ change.reserved ∧ change.copyPages = [] ∧
      ∀ last, ¬ s.NeedsCopy cache last) ∨
    ∃ last replacement rest, s.NeedsCopy cache last ∧
      change.reserved = replacement :: rest ∧
      change.table = cache.blockTable.dropLast ++ change.reserved ∧
      change.copyPages = [(last, replacement)]
  length_eq : change.table.length =
    max cache.blockTable.length (pagesFor s.pageSize (cache.size + appendLength))

theorem candidateTable_spec {s : PagedKVCacheBackend ρ κ} {cache : PagedRequestCache ρ}
    {appendLength : ℕ} {available : List Page} {change : TableChange}
    (h : s.candidateTable cache appendLength available = some change) :
    s.Extends cache appendLength available change := by
  rw [candidateTable, Option.bind_eq_some_iff] at h
  obtain ⟨tail, htail, hext⟩ := h
  obtain ⟨hlen, rfl⟩ := extendTable_eq_some.mp hext
  set n := pagesFor s.pageSize (cache.size + appendLength) - tail.table.length with hn
  rw [replaceTail] at htail
  split at htail
  case h_1 hlast =>
    obtain rfl := Option.some.inj htail
    refine ⟨by simp, .inl ⟨by simp, rfl, ?_⟩, ?_⟩
    · rintro last ⟨h, -⟩; simp [hlast] at h
    · dsimp only at hn hlen
      simp only [List.length_append, List.length_take]
      omega
  case h_2 last hlast =>
    split at htail
    case isTrue hcow =>
      split at htail
      case h_1 => simp at htail
      case h_2 replacement rest =>
        obtain rfl := Option.some.inj htail
        have hne : cache.blockTable ≠ [] := by rintro h; simp [h] at hlast
        have hpos : 0 < cache.blockTable.length := List.length_pos_iff.mpr hne
        refine ⟨by simp, .inr ⟨last, replacement, rest.take n, ⟨hlast, hcow⟩, by simp, by simp,
          rfl⟩, ?_⟩
        simp only [List.length_append, List.length_take, List.length_dropLast,
          List.length_singleton] at hn hlen ⊢
        rw [min_eq_left hlen]
        omega
    case isFalse hcow =>
      obtain rfl := Option.some.inj htail
      refine ⟨by simp, .inl ⟨by simp, rfl, ?_⟩, ?_⟩
      · rintro last' ⟨h, h'⟩
        obtain rfl : last = last' := by simpa [hlast] using h
        exact hcow h'
      · dsimp only at hn hlen
        simp only [List.length_append, List.length_take]
        omega

/-- The batch construction: consecutive pieces of the available pages, one for
each request, in the order of the batch. -/
inductive Chain (s : PagedKVCacheBackend ρ κ) :
    List (Handle × ℕ) → List Page → List TableChange → List Page → Prop
  | nil (available : List Page) : Chain s [] available [] available
  | cons {handle : Handle} {appendLength : ℕ} {requests : List (Handle × ℕ)}
      {available rest : List Page} {change : TableChange} {changes : List TableChange}
      (head : s.Extends (s.cacheOf handle) appendLength available change)
      (tail : Chain s requests change.available changes rest) :
      Chain s ((handle, appendLength) :: requests) available (change :: changes) rest

theorem candidateTables_spec {s : PagedKVCacheBackend ρ κ} {requests : List (Handle × ℕ)}
    {available : List Page} {tables : List (List Page)} {reserved : List Page}
    {copies : List (Page × Page)}
    (h : s.candidateTables requests available = some (tables, reserved, copies)) :
    ∃ changes rest, s.Chain requests available changes rest ∧
      tables = changes.map TableChange.table ∧
      reserved = changes.flatMap TableChange.reserved ∧
      copies = changes.flatMap TableChange.copyPages := by
  induction requests generalizing available tables reserved copies with
  | nil =>
      simp only [candidateTables, Option.some.injEq, Prod.mk.injEq] at h
      obtain ⟨rfl, rfl, rfl⟩ := h
      exact ⟨[], available, .nil available, rfl, rfl, rfl⟩
  | cons request requests ih =>
      obtain ⟨handle, appendLength⟩ := request
      rw [candidateTables, Option.bind_eq_some_iff] at h
      obtain ⟨change, hchange, h⟩ := h
      rw [Option.map_eq_some_iff] at h
      obtain ⟨⟨tables', reserved', copies'⟩, hrest, h⟩ := h
      simp only [Prod.mk.injEq] at h
      obtain ⟨rfl, rfl, rfl⟩ := h
      obtain ⟨changes, rest, hchain, rfl, rfl, rfl⟩ := ih hrest
      exact ⟨change :: changes, rest, .cons (candidateTable_spec hchange) hchain,
        by simp, by simp, by simp⟩

namespace Chain

variable {s : PagedKVCacheBackend ρ κ} {requests : List (Handle × ℕ)}
  {available rest : List Page} {changes : List TableChange}

theorem length_eq (h : s.Chain requests available changes rest) :
    changes.length = requests.length := by
  induction h with
  | nil => rfl
  | cons _ _ ih => simp [ih]

/-- The reserved pages are an initial segment of the available ones. -/
theorem split (h : s.Chain requests available changes rest) :
    available = changes.flatMap TableChange.reserved ++ rest := by
  induction h with
  | nil => simp
  | cons head _ ih => rw [head.split, List.flatMap_cons, List.append_assoc, ← ih]

/-- Every request of the batch with its change. -/
theorem extends_of_mem (h : s.Chain requests available changes rest)
    {x : (Handle × ℕ) × TableChange} (hx : x ∈ requests.zip changes) :
    ∃ available', s.Extends (s.cacheOf x.1.1) x.1.2 available' x.2 := by
  induction h with
  | nil => simp at hx
  | cons head _ ih =>
      rw [List.zip_cons_cons, List.mem_cons] at hx
      rcases hx with rfl | hx
      · exact ⟨_, head⟩
      · exact ih hx

end Chain
end PagedKVCacheBackend
end MlxRuntime
