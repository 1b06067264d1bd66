import MlxRuntime.Prefix.RadixSound

/-!
# The cache coordinator

`NativeCacheCoordinator` puts a prefix index in front of the paged store.  A request
gets a fork of a snapshot when the index grants one and an empty cache otherwise; a
release goes to the index first and to the store after it.

## Main definitions

* `PrefixCache` — the three prefix indexes a runtime can be built with.
* `NativeCacheCoordinator` — the coordinator and its methods.
* `NativeCacheCoordinator.Sound` — the invariant; `acquire_cases`, `publishCommitted_eq`,
  `release_eq` — what the methods do under it.
-/

namespace MlxRuntime

variable {ρ κ η : Type}

open PagedKVCacheBackend (Shares StoredLaws)

/-- A prefix index: `NoPrefixCache`, `BlockHashPrefixCache` or `RadixPrefixCache`. -/
inductive PrefixCache (ρ η : Type)
  | noPrefixCache
  | blockHash (cache : BlockHashPrefixCache ρ η)
  | radix (cache : RadixPrefixCache ρ)

namespace PrefixCache

/-- The index as its constructor leaves it. -/
def postInit : PrefixCache ρ η → Except PyError (PrefixCache ρ η)
  | noPrefixCache => .ok noPrefixCache
  | blockHash c => c.postInit.map blockHash
  | radix c => c.postInit.map radix

/-- The page size, `0` for the adapter without one. -/
def pageSize : PrefixCache ρ η → ℕ
  | noPrefixCache => 0
  | blockHash c => c.pageSize
  | radix c => c.pageSize

variable [DecidableEq η]

def probe (tokens : List Token) : PrefixCache ρ η → PrefixProbe
  | noPrefixCache => {}
  | blockHash c => c.probe tokens
  | radix c => c.probe tokens

def acquire (s : PagedKVCacheBackend ρ κ) (requestId : ρ) (tokens : List Token)
    (probe : PrefixProbe) : PrefixCache ρ η →
      Except PyError (Option CacheAdmission) × PrefixCache ρ η × PagedKVCacheBackend ρ κ
  | noPrefixCache => (.ok none, noPrefixCache, s)
  | blockHash c =>
      let (result, c, s) := c.acquire s requestId tokens probe
      (result, blockHash c, s)
  | radix c =>
      let (result, c, s) := c.acquire s requestId tokens probe
      (result, radix c, s)

def publish (s : PagedKVCacheBackend ρ κ) (handle : Handle) (tokens : List Token)
    (committedLength : ℕ) : PrefixCache ρ η →
      Except PyError CachePublication × PrefixCache ρ η × PagedKVCacheBackend ρ κ
  | noPrefixCache => (.ok {}, noPrefixCache, s)
  | blockHash c =>
      let (result, c, s) := c.publish s handle tokens committedLength
      (result, blockHash c, s)
  | radix c =>
      let (result, c, s) := c.publish s handle tokens committedLength
      (result, radix c, s)

def release (s : PagedKVCacheBackend ρ κ) (handle : Option Handle) : PrefixCache ρ η →
    Except PyError Unit × PrefixCache ρ η × PagedKVCacheBackend ρ κ
  | noPrefixCache => (.ok (), noPrefixCache, s)
  | blockHash c =>
      let (result, c, s) := c.release s handle
      (result, blockHash c, s)
  | radix c =>
      let (result, c, s) := c.release s handle
      (result, radix c, s)

/-! ## The invariant of an index -/

/-- The handles that pin a snapshot. -/
def activeHandles : PrefixCache ρ η → List Handle
  | noPrefixCache => []
  | blockHash c => c.activeHandles.keys
  | radix c => c.activeHandles.keys

/-- The snapshot an active handle pins. -/
def snapshotOf (handle : Handle) : PrefixCache ρ η → Option Handle
  | noPrefixCache => none
  | blockHash c => c.snapshotOf handle
  | radix c => c.snapshotOf handle

/-- The pin counts of the entries. -/
def pins : PrefixCache ρ η → ℕ
  | noPrefixCache => 0
  | blockHash c => (c.entries.values.map BlockEntry.pins).sum
  | radix c => ((List.range c.nextNode).map fun id => (c.nodes id).pins).sum

/-- The invariant of the index, whichever it is. -/
def Indexes (Stored : PagedKVCacheBackend ρ κ → Handle → List Token → Prop)
    (s : PagedKVCacheBackend ρ κ) (held : Finset Handle) : PrefixCache ρ η → Prop
  | noPrefixCache => True
  | blockHash c => c.Indexes Stored s held
  | radix c => c.Indexes Stored s held

variable {c c' : PrefixCache ρ η} {s s' : PagedKVCacheBackend ρ κ} {held : Finset Handle}
  {Stored : PagedKVCacheBackend ρ κ → Handle → List Token → Prop}

theorem indexes_postInit {c₀ : PrefixCache ρ η} (h : c₀.postInit = .ok c)
    (s : PagedKVCacheBackend ρ κ) : c.Indexes Stored s ∅ := by
  cases c₀ with
  | noPrefixCache =>
      obtain rfl := Except.ok.inj h
      trivial
  | blockHash c₀ =>
      cases hpost : c₀.postInit with
      | error e => simp [postInit, hpost, Except.map] at h
      | ok c₁ =>
          obtain rfl : blockHash c₁ = c := by simpa [postInit, hpost, Except.map] using h
          exact BlockHashPrefixCache.indexes_postInit hpost s
  | radix c₀ =>
      cases hpost : c₀.postInit with
      | error e => simp [postInit, hpost, Except.map] at h
      | ok c₁ =>
          obtain rfl : radix c₁ = c := by simpa [postInit, hpost, Except.map] using h
          exact RadixPrefixCache.indexes_postInit hpost s

theorem Indexes.frame (h : c.Indexes Stored s held)
    (hst : ∀ x tokens, x ∉ held → Stored s x tokens → Stored s' x tokens) :
    c.Indexes Stored s' held := by
  cases c with
  | noPrefixCache => trivial
  | blockHash c => exact BlockHashPrefixCache.Indexes.frame h hst
  | radix c => exact RadixPrefixCache.Indexes.frame h hst

theorem Indexes.addCache (hlaws : StoredLaws Stored) (h : c.Indexes Stored s held) (hs : s.Wf)
    (requestId : ρ) (table : List Page) (length : ℕ) :
    c.Indexes Stored (s.addCache requestId table length) (insert s.nextHandle held) := by
  cases c with
  | noPrefixCache => trivial
  | blockHash c => exact BlockHashPrefixCache.Indexes.addCache hlaws h hs _ _ _
  | radix c => exact RadixPrefixCache.Indexes.addCache hlaws h hs _ _ _

/-- Only a live snapshot is pinned. -/
theorem Indexes.snapshotOf_live (hlaws : StoredLaws Stored) (h : c.Indexes Stored s held)
    {x : Handle} (hx : x ∈ c.activeHandles) :
    ∃ snapshot ∈ s.caches, c.snapshotOf x = some snapshot := by
  cases c with
  | noPrefixCache => cases hx
  | blockHash c => exact BlockHashPrefixCache.Indexes.snapshotOf_live hlaws h hx
  | radix c => exact RadixPrefixCache.Indexes.snapshotOf_live hlaws h hx

/-- Only handles given out are active. -/
theorem Indexes.active_held (h : c.Indexes Stored s held) {x : Handle}
    (hx : x ∈ c.activeHandles) : x ∈ held := by
  cases c with
  | noPrefixCache => cases hx
  | blockHash c => exact BlockHashPrefixCache.Indexes.active_held h x hx
  | radix c => exact RadixPrefixCache.Indexes.active_held h x hx

/-- Without active handles nothing is pinned. -/
theorem Indexes.pins_eq_zero (h : c.Indexes Stored s held) (hnone : c.activeHandles = []) :
    c.pins = 0 := by
  cases c with
  | noPrefixCache => rfl
  | blockHash c =>
      have hvalues : c.activeHandles.values = [] := by
        rw [Dict.values, List.map_eq_nil_iff]
        exact List.map_eq_nil_iff.mp hnone
      refine List.sum_eq_zero fun n hn => ?_
      obtain ⟨e, he, rfl⟩ := List.mem_map.mp hn
      obtain ⟨hash, hmem⟩ := Dict.mem_values.mp he
      rw [BlockHashPrefixCache.Indexes.pins_eq h (Dict.get?_eq_some.mpr hmem), hvalues,
        List.count_nil]
  | radix c =>
      have hvalues : c.activeHandles.values = [] := by
        rw [Dict.values, List.map_eq_nil_iff]
        exact List.map_eq_nil_iff.mp hnone
      refine List.sum_eq_zero fun n hn => ?_
      obtain ⟨id, -, rfl⟩ := List.mem_map.mp hn
      rw [RadixPrefixCache.Indexes.pins_eq h, hvalues, List.count_nil]

theorem acquire_cases (hlaws : StoredLaws Stored) (h : c.Indexes Stored s held) (hs : s.Wf)
    (hfresh : s.nextHandle ∉ held) (requestId : ρ) (tokens : List Token) (probe : PrefixProbe) :
    (∃ c', c.acquire s requestId tokens probe = (.ok none, c', s) ∧ c'.Indexes Stored s held) ∨
    ∃ snapshot n pages c', c.acquire s requestId tokens probe =
        (.ok (some ⟨s.nextHandle, n, n, pages⟩), c', s.forked snapshot requestId n) ∧
      Grant Stored s held c.pageSize tokens snapshot n ∧
      c'.Indexes Stored (s.forked snapshot requestId n) (insert s.nextHandle held) ∧
      c'.snapshotOf s.nextHandle = some snapshot := by
  cases c with
  | noPrefixCache => exact .inl ⟨_, rfl, trivial⟩
  | blockHash c =>
      rcases BlockHashPrefixCache.Indexes.acquire_cases hlaws h hs hfresh requestId tokens probe with
        ⟨c', heq, h'⟩ | ⟨snapshot, n, pages, c', heq, hgrant, h', hof⟩
      · exact .inl ⟨blockHash c', by rw [acquire, heq], h'⟩
      · exact .inr ⟨snapshot, n, pages, blockHash c', by rw [acquire, heq], hgrant, h', hof⟩
  | radix c =>
      rcases RadixPrefixCache.Indexes.acquire_cases hlaws h hs hfresh requestId tokens probe with
        ⟨c', heq, h'⟩ | ⟨snapshot, n, pages, c', heq, hgrant, h', hof⟩
      · exact .inl ⟨radix c', by rw [acquire, heq], h'⟩
      · exact .inr ⟨snapshot, n, pages, radix c', by rw [acquire, heq], hgrant, h', hof⟩

theorem publish_eq (hlaws : StoredLaws Stored) (h : c.Indexes Stored s held) (hs : s.Wf)
    (hheld : ∀ x ∈ held, x < s.nextHandle) {handle : Handle} {tokens : List Token} {n : ℕ}
    (hst : Stored s handle (tokens.take n)) :
    ∃ publication c' s', c.publish s handle tokens n = (.ok publication, c', s') ∧
      Shares held s s' ∧ c'.Indexes Stored s' held := by
  cases c with
  | noPrefixCache => exact ⟨_, _, s, rfl, .refl, trivial⟩
  | blockHash c =>
      obtain ⟨publication, c', s', heq, hshares, h'⟩ :=
        BlockHashPrefixCache.Indexes.publish_eq hlaws h hs hheld hst
      exact ⟨publication, blockHash c', s', by rw [publish, heq], hshares, h'⟩
  | radix c =>
      obtain ⟨publication, c', s', heq, hshares, h', -⟩ :=
        RadixPrefixCache.Indexes.publish_eq hlaws h hs hheld hst
      exact ⟨publication, radix c', s', by rw [publish, heq], hshares, h'⟩

theorem release_eq (hlaws : StoredLaws Stored) (h : c.Indexes Stored s held) (hs : s.Wf)
    (handle : Handle) :
    ∃ c' s', c.release s (some handle) = (.ok (), c', s') ∧ Shares held s s' ∧
      c'.Indexes Stored s' held ∧ handle ∉ c'.activeHandles := by
  cases c with
  | noPrefixCache => exact ⟨_, s, rfl, .refl, trivial, List.not_mem_nil⟩
  | blockHash c =>
      obtain ⟨c', s', heq, hshares, h'⟩ :=
        BlockHashPrefixCache.Indexes.release_eq hlaws h hs handle
      exact ⟨blockHash c', s', by rw [release, heq], hshares, h'⟩
  | radix c =>
      obtain ⟨c', s', heq, hshares, h', hnot, -⟩ :=
        RadixPrefixCache.Indexes.release_eq hlaws h hs handle
      exact ⟨radix c', s', by rw [release, heq], hshares, h', hnot⟩

theorem Indexes.unhold (h : c.Indexes Stored s held) {handle : Handle}
    (hnot : handle ∉ c.activeHandles) : c.Indexes Stored s (held.erase handle) := by
  cases c with
  | noPrefixCache => trivial
  | blockHash c => exact BlockHashPrefixCache.Indexes.unhold h hnot
  | radix c => exact RadixPrefixCache.Indexes.unhold h hnot

theorem release_of_notMem (h : c.Indexes Stored s held) {handle : Handle} (hnot : handle ∉ held) :
    ∃ c', c.release s (some handle) = (.ok (), c', s) ∧ c'.Indexes Stored s held := by
  cases c with
  | noPrefixCache => exact ⟨_, rfl, trivial⟩
  | blockHash c =>
      refine ⟨blockHash c, ?_, h⟩
      rw [release, BlockHashPrefixCache.Indexes.release_of_notMem h hnot]
  | radix c =>
      obtain ⟨c', heq, h'⟩ := RadixPrefixCache.Indexes.release_of_notMem h hnot
      exact ⟨radix c', by rw [release, heq], h'⟩

end PrefixCache

/-! ## The coordinator -/

/-- `NativeCacheCoordinator`. -/
structure NativeCacheCoordinator (ρ κ η : Type) where
  backend : PagedKVCacheBackend ρ κ
  prefixCache : PrefixCache ρ η

namespace NativeCacheCoordinator

variable [DecidableEq η]

/-- `probe`. -/
def probe (k : NativeCacheCoordinator ρ κ η) (tokens : List Token) : PrefixProbe :=
  k.prefixCache.probe tokens

/-- `acquire`. -/
def acquire (k : NativeCacheCoordinator ρ κ η) (requestId : ρ) (tokens : List Token)
    (probe : Option PrefixProbe) :
    Except PyError CacheAdmission × NativeCacheCoordinator ρ κ η :=
  let activeProbe := probe.getD (k.probe tokens)
  let create : NativeCacheCoordinator ρ κ η →
      Except PyError CacheAdmission × NativeCacheCoordinator ρ κ η := fun k =>
    let (handle, s) := k.backend.create requestId
    (.ok { cacheHandle := handle, cacheLength := 0 }, { k with backend := s })
  if activeProbe.matchedTokens = 0 then create k
  else
    match k.prefixCache.acquire k.backend requestId tokens activeProbe with
    | (.error e, c, s) => (.error e, ⟨s, c⟩)
    | (.ok (some admission), c, s) => (.ok admission, ⟨s, c⟩)
    | (.ok none, c, s) => create ⟨s, c⟩

/-- `publish_committed`. -/
def publishCommitted (k : NativeCacheCoordinator ρ κ η) (handle : Handle) (tokens : List Token)
    (committedLength : ℕ) : Except PyError CachePublication × NativeCacheCoordinator ρ κ η :=
  let (result, c, s) := k.prefixCache.publish k.backend handle tokens committedLength
  (result, ⟨s, c⟩)

/-- `length`. -/
def length (k : NativeCacheCoordinator ρ κ η) (handle : Option Handle) : ℕ :=
  k.backend.length handle

/-- `release`. -/
def release (k : NativeCacheCoordinator ρ κ η) (handle : Option Handle) :
    Except PyError Unit × NativeCacheCoordinator ρ κ η :=
  match k.prefixCache.release k.backend handle with
  | (.error e, c, s) => (.error e, ⟨s, c⟩)
  | (.ok (), c, s) =>
      let (result, s) := s.release handle
      (result, ⟨s, c⟩)

variable {k : NativeCacheCoordinator ρ κ η} {held : Finset Handle}
  {Stored : PagedKVCacheBackend ρ κ → Handle → List Token → Prop}

/-- The invariant, `held` being the handles given out and not yet released. -/
structure Sound (Stored : PagedKVCacheBackend ρ κ → Handle → List Token → Prop)
    (k : NativeCacheCoordinator ρ κ η) (held : Finset Handle) : Prop where
  wf : k.backend.Wf
  indexes : k.prefixCache.Indexes Stored k.backend held
  live : ∀ x ∈ held, x ∈ k.backend.caches

theorem Sound.fresh (h : k.Sound Stored held) : k.backend.nextHandle ∉ held :=
  fun hmem => lt_irrefl _ (h.wf.fresh _ (h.live _ hmem))

/-- **`acquire`** never raises.  The request gets a new handle: an empty cache, or a fork
of a snapshot the index grants. -/
theorem acquire_cases (hlaws : StoredLaws Stored) (h : k.Sound Stored held) (requestId : ρ)
    (tokens : List Token) (probe : Option PrefixProbe) :
    ∃ admission k', k.acquire requestId tokens probe = (.ok admission, k') ∧
      admission.cacheHandle = k.backend.nextHandle ∧
      k'.Sound Stored (insert k.backend.nextHandle held) ∧
      (admission = { cacheHandle := k.backend.nextHandle, cacheLength := 0 } ∧
          k'.backend = k.backend.addCache requestId [] 0 ∨
        ∃ snapshot n pages, admission = ⟨k.backend.nextHandle, n, n, pages⟩ ∧
          k'.backend = k.backend.forked snapshot requestId n ∧
          Grant Stored k.backend held k.prefixCache.pageSize tokens snapshot n ∧
          k'.prefixCache.snapshotOf k.backend.nextHandle = some snapshot) := by
  have hlive : ∀ {table : List Page} {length : ℕ}, ∀ x ∈ insert k.backend.nextHandle held,
      x ∈ (k.backend.addCache requestId table length).caches := by
    intro table length x hx
    rcases Finset.mem_insert.mp hx with rfl | hx
    · exact Finset.mem_insert_self _ _
    · exact Finset.mem_insert_of_mem (h.live x hx)
  have hcreate : ∀ {c : PrefixCache ρ η}, c.Indexes Stored k.backend held →
      Sound Stored ⟨k.backend.addCache requestId [] 0, c⟩ (insert k.backend.nextHandle held) :=
    fun hc => ⟨PagedKVCacheBackend.wf_create h.wf requestId, hc.addCache hlaws h.wf _ _ _, hlive⟩
  rw [acquire]
  dsimp only
  split
  · rw [PagedKVCacheBackend.create_eq]
    exact ⟨_, _, rfl, rfl, hcreate h.indexes, .inl ⟨rfl, rfl⟩⟩
  generalize probe.getD (k.probe tokens) = probe
  rcases PrefixCache.acquire_cases hlaws h.indexes h.wf h.fresh requestId tokens probe with
    ⟨c', heq, h'⟩ | ⟨snapshot, n, pages, c', heq, hgrant, h', hof⟩ <;> rw [heq]
  · dsimp only
    rw [PagedKVCacheBackend.create_eq]
    exact ⟨_, _, rfl, rfl, hcreate h', .inl ⟨rfl, rfl⟩⟩
  · have hlen := hlaws.length_le hgrant.stored
    rw [List.length_take, min_eq_left hgrant.lt.le] at hlen
    exact ⟨_, _, rfl, rfl,
      ⟨PagedKVCacheBackend.wf_fork h.wf requestId (hlaws.live hgrant.stored) hlen, h', hlive⟩,
      .inr ⟨snapshot, n, pages, rfl, rfl, hgrant, hof⟩⟩

/-- **`publish_committed`** never raises on a cache that holds the tokens. -/
theorem publishCommitted_eq (hlaws : StoredLaws Stored) (h : k.Sound Stored held)
    {handle : Handle} {tokens : List Token} {n : ℕ}
    (hst : Stored k.backend handle (tokens.take n)) :
    ∃ publication k', k.publishCommitted handle tokens n = (.ok publication, k') ∧
      Shares held k.backend k'.backend ∧ k'.Sound Stored held := by
  obtain ⟨publication, c', s', heq, hshares, h'⟩ := PrefixCache.publish_eq hlaws h.indexes h.wf
    (fun x hx => h.wf.fresh x (h.live x hx)) hst
  refine ⟨publication, ⟨s', c'⟩, by rw [publishCommitted, heq], hshares, hshares.wf h.wf, h', ?_⟩
  exact fun x hx => (hshares.kept h.wf hx (h.live x hx)).1

/-- **`release`** of a handle given out never raises: the handle is gone, from the index
and from the store. -/
theorem release_eq (hlaws : StoredLaws Stored) (h : k.Sound Stored held) {handle : Handle}
    (hmem : handle ∈ held) :
    ∃ k' s', k.release (some handle) = (.ok (), k') ∧ Shares held k.backend s' ∧
      handle ∈ s'.caches ∧ k'.backend = s'.released handle ∧
      k'.Sound Stored (held.erase handle) := by
  obtain ⟨c', s', heq, hshares, h', hnot⟩ := PrefixCache.release_eq hlaws h.indexes h.wf handle
  have hkept : ∀ x ∈ held, x ∈ s'.caches := fun x hx => (hshares.kept h.wf hx (h.live x hx)).1
  have hwf := hshares.wf h.wf
  have hlive := hkept handle hmem
  refine ⟨⟨s'.released handle, c'⟩, s', ?_, hshares, hlive, rfl,
    PagedKVCacheBackend.wf_released hwf hlive, ?_, ?_⟩
  · rw [release, heq]
    dsimp only
    rw [PagedKVCacheBackend.release_of_mem hwf hlive]
  · refine PrefixCache.Indexes.unhold (h'.frame fun x tokens hx hst => ?_) hnot
    exact hlaws.released hst fun heq => hx (heq ▸ hmem)
  · intro x hx
    rw [Finset.mem_erase] at hx
    exact Finset.mem_erase.mpr ⟨hx.1, hkept x hx.2⟩

theorem release_none (k : NativeCacheCoordinator ρ κ η) : k.release none = (.ok (), k) := by
  obtain ⟨s, c⟩ := k
  cases c <;> rfl

/-- A release of a dead handle changes nothing the store or the index holds. -/
theorem release_of_notMem (h : k.Sound Stored held) {handle : Handle}
    (hdead : handle ∉ k.backend.caches) :
    ∃ k', k.release (some handle) = (.ok (), k') ∧ k'.backend = k.backend ∧
      k'.Sound Stored held := by
  obtain ⟨c', heq, h'⟩ := PrefixCache.release_of_notMem h.indexes
    (fun hmem => hdead (h.live handle hmem))
  refine ⟨⟨k.backend, c'⟩, ?_, rfl, h.wf, h', h.live⟩
  rw [release, heq]
  dsimp only
  rw [PagedKVCacheBackend.release_of_notMem hdead]

end NativeCacheCoordinator
end MlxRuntime
