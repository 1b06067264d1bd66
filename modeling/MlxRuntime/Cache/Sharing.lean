import MlxRuntime.Cache.Refinement
import MlxRuntime.Interfaces

/-!
# What a prefix index does to the store

A prefix index never writes a page.  It forks live caches and releases forks of its
own, so the caches others hold stay as they are.  `Shares` is that, and
`StoredLaws` are the properties of "this cache starts with the rows of these tokens"
an index needs.

## Main definitions

* `forked` — the store after a fork that goes through.
* `Shares held s s'` — `s'` comes from `s` by forks and by releases of caches that
  are not held.
* `StoredLaws`, `storedLaws_length`, `storedLaws_rows` — what forks preserve, for the
  lengths and for the rows themselves.
-/

namespace MlxRuntime.PagedKVCacheBackend

variable {ρ κ : Type} {s s' : PagedKVCacheBackend ρ κ} {held : Finset Handle}

/-- The store after a fork of the first `n` rows of a live cache. -/
def forked (s : PagedKVCacheBackend ρ κ) (source : Handle) (requestId : ρ) (n : ℕ) :
    PagedKVCacheBackend ρ κ :=
  s.addCache requestId ((s.cacheOf source).blockTable.take (pagesFor s.pageSize n)) n

theorem fork_of_mem {source : Handle} (hlive : source ∈ s.caches) {n : ℕ}
    (hn : n ≤ (s.cacheOf source).length) (requestId : ρ) :
    s.fork source requestId (some n) = (.ok s.nextHandle, s.forked source requestId n) := by
  have hsize : n ≤ (s.cacheOf source).size := hn
  simp [fork, hlive, hsize, create, addCache, forked]

/-- `s'` comes from `s` by forks of live caches and by releases of caches that are not
held. -/
inductive Shares (held : Finset Handle) (s : PagedKVCacheBackend ρ κ) :
    PagedKVCacheBackend ρ κ → Prop
  | refl : Shares held s s
  | forked {s' : PagedKVCacheBackend ρ κ} (h : Shares held s s') {source : Handle}
      (hlive : source ∈ s'.caches) (requestId : ρ) {n : ℕ}
      (hn : n ≤ (s'.cacheOf source).length) : Shares held s (s'.forked source requestId n)
  | released {s' : PagedKVCacheBackend ρ κ} (h : Shares held s s') {x : Handle}
      (hlive : x ∈ s'.caches) (hx : x ∉ held) : Shares held s (s'.released x)

namespace Shares

theorem trans {s'' : PagedKVCacheBackend ρ κ} (h : Shares held s s') (h' : Shares held s' s'') :
    Shares held s s'' := by
  induction h' with
  | refl => exact h
  | forked _ hlive requestId hn ih => exact ih.forked hlive requestId hn
  | released _ hlive hx ih => exact ih.released hlive hx

theorem mono {held' : Finset Handle} (hsub : held' ⊆ held) (h : Shares held s s') :
    Shares held' s s' := by
  induction h with
  | refl => exact .refl
  | forked _ hlive requestId hn ih => exact ih.forked hlive requestId hn
  | released _ hlive hx ih => exact ih.released hlive fun hmem => hx (hsub hmem)

theorem wf (h : Shares held s s') (hs : s.Wf) : s'.Wf := by
  induction h with
  | refl => exact hs
  | forked _ hlive requestId hn ih => exact wf_fork ih requestId hlive hn
  | released _ hlive _ ih => exact wf_released ih hlive

theorem outstanding {r : PagedBatchReservation κ} (h : Shares held s s')
    (ho : s.Outstanding r) : s'.Outstanding r := by
  induction h with
  | refl => exact ho
  | forked => exact outstanding_addCache (by assumption) _ _ _
  | released => exact outstanding_released (by assumption) _

theorem nextHandle_le (h : Shares held s s') : s.nextHandle ≤ s'.nextHandle := by
  induction h with
  | refl => exact le_rfl
  | forked _ _ _ _ ih => exact ih.trans (Nat.le_succ _)
  | released _ _ _ ih => exact ih

theorem pageSize_eq (h : Shares held s s') : s'.pageSize = s.pageSize := by
  induction h with
  | refl => rfl
  | forked _ _ _ _ ih => exact ih
  | released _ _ _ ih => exact ih

/-- A held cache is neither dropped nor changed. -/
theorem kept (h : Shares held s s') (hs : s.Wf) {x : Handle} (hx : x ∈ held)
    (hlive : x ∈ s.caches) : x ∈ s'.caches ∧ s'.cacheOf x = s.cacheOf x := by
  induction h with
  | refl => exact ⟨hlive, rfl⟩
  | @forked s' h source _ requestId n _ ih =>
      have hne : x ≠ s'.nextHandle := ne_of_lt ((h.wf hs).fresh x ih.1)
      exact ⟨Finset.mem_insert_of_mem ih.1, (Function.update_of_ne hne _ _).trans ih.2⟩
  | @released s' h y _ hy ih =>
      have hne : x ≠ y := fun heq => hy (heq ▸ hx)
      exact ⟨Finset.mem_erase.mpr ⟨hne, ih.1⟩, ih.2⟩

/-- A held cache reads the same rows. -/
theorem visibleRows_eq (h : Shares held s s') (hs : s.Wf) {x : Handle} (hx : x ∈ held)
    (hlive : x ∈ s.caches) : s'.visibleRows x = s.visibleRows x := by
  induction h with
  | refl => rfl
  | @forked s' h source _ requestId n _ ih =>
      have hlt : x < s'.nextHandle := (h.wf hs).fresh x (h.kept hs hx hlive).1
      exact (visibleRows_addCache_of_lt _ _ _ hlt).trans ih
  | released _ _ _ ih => exact ih

/-- The store keeps refining some private lists, as long as the caches of an open
reservation are held. -/
theorem refines {layers : ℕ} {reservation : Option (PagedBatchReservation κ)}
    {t : PrivateLists κ} (h : Shares held s s')
    (hrefines : KVStore.Refines layers ⟨s, reservation⟩ t)
    (hheld : ∀ r, KVStore.outstanding ⟨s, reservation⟩ = some r →
      ∀ x ∈ r.requestCaches, x ∈ held) :
    ∃ t', KVStore.Refines layers ⟨s', reservation⟩ t' := by
  induction h with
  | refl => exact ⟨t, hrefines⟩
  | @forked s' h source hlive requestId n hn ih =>
      obtain ⟨t', ht'⟩ := ih
      have hlength : s'.forkLength source (some (n : ℤ)) = n := by simp [forkLength]
      have hm : KVStore.Moves ⟨s', reservation⟩ (.fork source requestId (some (n : ℤ))) _ _ :=
        .forked requestId hlive (by rwa [hlength])
      rw [hlength] at hm
      exact ⟨_, KVStore.refines_moves ht' (show KVStore.Isolated _ (.fork _ _ _) from trivial) hm⟩
  | @released s' h x hlive hx ih =>
      obtain ⟨t', ht'⟩ := ih
      have hok : KVStore.Isolated ⟨s', reservation⟩ (.release (some x) : KVOp ρ κ) :=
        fun r hr hmem => hx (hheld r hr x hmem)
      exact ⟨_, KVStore.refines_moves ht' hok (.released hlive)⟩

end Shares

/-! ## What a snapshot holds -/

/-- `Stored s h tokens` says that the live cache `h` starts with what was computed for
`tokens`.  These laws are all a prefix index relies on. -/
structure StoredLaws (Stored : PagedKVCacheBackend ρ κ → Handle → List Token → Prop) :
    Prop where
  live : ∀ {s h tokens}, Stored s h tokens → h ∈ s.caches
  length_le : ∀ {s h tokens}, Stored s h tokens → tokens.length ≤ (s.cacheOf h).length
  addCache : ∀ {s h tokens}, s.Wf → Stored s h tokens → ∀ requestId table length,
    Stored (s.addCache requestId table length) h tokens
  released : ∀ {s h tokens}, Stored s h tokens → ∀ {x}, x ≠ h → Stored (s.released x) h tokens
  forked : ∀ {s h tokens}, s.Wf → Stored s h tokens → ∀ requestId {n}, n ≤ tokens.length →
    Stored (s.forked h requestId n) s.nextHandle (tokens.take n)

/-- The cache is live and at least as long as the tokens. -/
def LongEnough (s : PagedKVCacheBackend ρ κ) (h : Handle) (tokens : List Token) : Prop :=
  h ∈ s.caches ∧ tokens.length ≤ (s.cacheOf h).length

theorem storedLaws_length : StoredLaws (LongEnough (ρ := ρ) (κ := κ)) where
  live := fun h => h.1
  length_le := fun h => h.2
  addCache := by
    intro s h tokens hs hst requestId table length
    have hne : h ≠ s.nextHandle := ne_of_lt (hs.fresh h hst.1)
    refine ⟨Finset.mem_insert_of_mem hst.1, ?_⟩
    simpa [PagedKVCacheBackend.addCache, Function.update_of_ne hne] using hst.2
  released := by
    intro s h tokens hst x hne
    exact ⟨Finset.mem_erase.mpr ⟨hne.symm, hst.1⟩, hst.2⟩
  forked := by
    intro s h tokens hs hst requestId n hn
    refine ⟨Finset.mem_insert_self _ _, ?_⟩
    simp [PagedKVCacheBackend.forked, PagedKVCacheBackend.addCache, hn]

/-- The rows of a token sequence, when the row at a position is a function of the
tokens up to it. -/
def kvRows (kvRow : List Token → Row κ) (tokens : List Token) : List (Row κ) :=
  (List.range tokens.length).map fun pos => kvRow (tokens.take (pos + 1))

@[simp] theorem length_kvRows (kvRow : List Token → Row κ) (tokens : List Token) :
    (kvRows kvRow tokens).length = tokens.length := by simp [kvRows]

theorem kvRows_take (kvRow : List Token → Row κ) (tokens : List Token) (n : ℕ) :
    kvRows kvRow (tokens.take n) = (kvRows kvRow tokens).take n := by
  rw [kvRows, kvRows, ← List.map_take, List.take_range, List.length_take]
  refine List.map_congr_left fun pos hpos => ?_
  have hlt : pos + 1 ≤ n := by
    have := List.mem_range.mp hpos
    omega
  rw [List.take_take, min_eq_left hlt]

/-- The cache is live and its first rows are the rows of the tokens. -/
def HoldsTokens (kvRow : List Token → Row κ) (s : PagedKVCacheBackend ρ κ) (h : Handle)
    (tokens : List Token) : Prop :=
  h ∈ s.caches ∧ (s.visibleRows h).take tokens.length = kvRows kvRow tokens

theorem HoldsTokens.length_le {kvRow : List Token → Row κ} {h : Handle} {tokens : List Token}
    (hst : HoldsTokens kvRow s h tokens) : tokens.length ≤ (s.cacheOf h).length := by
  have hlen := congrArg List.length hst.2
  rw [List.length_take, length_visibleRows, length_kvRows] at hlen
  omega

theorem storedLaws_rows (kvRow : List Token → Row κ) :
    StoredLaws (HoldsTokens (ρ := ρ) kvRow) where
  live := fun h => h.1
  length_le := HoldsTokens.length_le
  addCache := by
    intro s h tokens hs hst requestId table length
    refine ⟨Finset.mem_insert_of_mem hst.1, ?_⟩
    rw [visibleRows_addCache_of_lt _ _ _ (hs.fresh h hst.1)]
    exact hst.2
  released := by
    intro s h tokens hst x hne
    exact ⟨Finset.mem_erase.mpr ⟨hne.symm, hst.1⟩, hst.2⟩
  forked := by
    intro s h tokens hs hst requestId n hn
    refine ⟨Finset.mem_insert_self _ _, ?_⟩
    rw [PagedKVCacheBackend.forked, visibleRows_fork hs requestId (hn.trans hst.length_le), kvRows_take,
      ← hst.2, List.take_take, List.take_take, List.length_take, min_eq_left hn, min_self]

end MlxRuntime.PagedKVCacheBackend
