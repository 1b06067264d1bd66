import MlxRuntime.Prefix.RadixNodes
import MlxRuntime.Prefix.BlockHashSound

/-!
# Radix nodes hold what their tokens say

A node with a snapshot keeps it for its whole prefix, and the pins of a node count the
active handles that point to it.  An eviction takes unpinned snapshots only, so the
node an active handle points to keeps its snapshot.

## Main definitions

* `RadixPrefixCache.Indexes` — the invariant.
* `acquire_cases`, `publish_eq`, `release_eq` — what the methods do under it.
-/

namespace MlxRuntime.RadixPrefixCache

variable {ρ κ : Type} {c c' : RadixPrefixCache ρ} {s s' : PagedKVCacheBackend ρ κ}
  {held : Finset Handle} {Stored : PagedKVCacheBackend ρ κ → Handle → List Token → Prop}

open PagedKVCacheBackend (Shares StoredLaws)

/-- A node covers whole pages, all of its prefix. -/
structure Covers (pageSize : ℕ) (node : RadixNode) : Prop where
  length_eq : node.cachedLength = node.tokenPrefix.length
  dvd : pageSize ∣ node.cachedLength
  pos : 0 < node.cachedLength

/-- The invariant: the tree is one, every snapshot holds the prefix of its node, no two
nodes share a snapshot, and the pins of a node count its active handles. -/
structure Indexes (Stored : PagedKVCacheBackend ρ κ → Handle → List Token → Prop)
    (c : RadixPrefixCache ρ) (s : PagedKVCacheBackend ρ κ) (held : Finset Handle) : Prop where
  pageSize_pos : 0 < c.pageSize
  tree : c.IsTree
  covers : ∀ {id h}, (c.nodes id).cacheHandle = some h → Covers c.pageSize (c.nodes id)
  stored : ∀ {id h}, (c.nodes id).cacheHandle = some h → Stored s h (c.nodes id).tokenPrefix
  notMem : ∀ {id h}, (c.nodes id).cacheHandle = some h → h ∉ held
  snapshot_inj : ∀ {id id' h}, (c.nodes id).cacheHandle = some h →
    (c.nodes id').cacheHandle = some h → id = id'
  pins_eq : ∀ id, (c.nodes id).pins = c.activeHandles.values.count id
  active_some : ∀ id ∈ c.activeHandles.values, (c.nodes id).cacheHandle.isSome
  active_held : ∀ h ∈ c.activeHandles.keys, h ∈ held

/-- The snapshot an active handle pins. -/
def snapshotOf (c : RadixPrefixCache ρ) (handle : Handle) : Option Handle :=
  (c.activeHandles.get? handle).bind fun id => (c.nodes id).cacheHandle

theorem indexes_postInit {c₀ : RadixPrefixCache ρ} (h : c₀.postInit = .ok c)
    (s : PagedKVCacheBackend ρ κ) : Indexes Stored c s ∅ := by
  have htree := IsTree.of_postInit h
  rw [postInit] at h
  split at h
  · cases h
  split at h
  · cases h
  split at h
  · cases h
  rename_i hpos _ _
  obtain rfl := Except.ok.inj h
  exact {
    pageSize_pos := Nat.pos_of_ne_zero hpos
    tree := htree
    covers := fun hsome => by cases hsome
    stored := fun hsome => by cases hsome
    notMem := fun hsome => by cases hsome
    snapshot_inj := fun hsome => by cases hsome
    pins_eq := fun id => rfl
    active_some := fun id hmem => by cases hmem
    active_held := fun handle hmem => by cases hmem }

namespace Indexes

/-- The index does not mind what happens to caches that are none of its snapshots. -/
theorem frame (h : Indexes Stored c s held)
    (hst : ∀ x tokens, x ∉ held → Stored s x tokens → Stored s' x tokens) :
    Indexes Stored c s' held :=
  { h with stored := fun hsome => hst _ _ (h.notMem hsome) (h.stored hsome) }

/-- A cache the store adds is none of the snapshots. -/
theorem addCache (hlaws : StoredLaws Stored) (h : Indexes Stored c s held) (hs : s.Wf)
    (requestId : ρ) (table : List Page) (length : ℕ) :
    Indexes Stored c (s.addCache requestId table length) (insert s.nextHandle held) := by
  refine { h with
    stored := fun hsome => hlaws.addCache hs (h.stored hsome) _ _ _
    notMem := fun {id x} hsome hmem => ?_
    active_held := fun x hx => Finset.mem_insert_of_mem (h.active_held x hx) }
  rcases Finset.mem_insert.mp hmem with rfl | hmem
  · exact lt_irrefl _ (hs.fresh _ (hlaws.live (h.stored hsome)))
  · exact h.notMem hsome hmem

/-- Only a live snapshot is pinned. -/
theorem snapshotOf_live (hlaws : StoredLaws Stored) (h : Indexes Stored c s held) {x : Handle}
    (hx : x ∈ c.activeHandles.keys) : ∃ snapshot ∈ s.caches, c.snapshotOf x = some snapshot := by
  obtain ⟨id, hmem⟩ := Dict.mem_keys.mp hx
  obtain ⟨snapshot, hsome⟩ :=
    Option.isSome_iff_exists.mp (h.active_some id (Dict.mem_values.mpr ⟨x, hmem⟩))
  refine ⟨snapshot, hlaws.live (h.stored hsome), ?_⟩
  rw [snapshotOf, Dict.get?_eq_some.mpr hmem, Option.bind_some, hsome]

/-- A change that moves no snapshot, when the pins still count the active handles. -/
theorem of_nodes (h : Indexes Stored c s held) (htree : c'.IsTree)
    (hpageSize : c'.pageSize = c.pageSize)
    (hnode : ∀ id, (c'.nodes id).cacheHandle = (c.nodes id).cacheHandle ∧
      (c'.nodes id).cachedLength = (c.nodes id).cachedLength ∧
      ((c.nodes id).cacheHandle.isSome → (c'.nodes id).tokenPrefix = (c.nodes id).tokenPrefix))
    (hpins : ∀ id, (c'.nodes id).pins = c'.activeHandles.values.count id)
    (hactive : ∀ id ∈ c'.activeHandles.values, (c.nodes id).cacheHandle.isSome)
    (hkeys : ∀ k ∈ c'.activeHandles.keys, k ∈ held) : Indexes Stored c' s held := by
  have hold : ∀ {id x}, (c'.nodes id).cacheHandle = some x →
      (c.nodes id).cacheHandle = some x ∧
        (c'.nodes id).tokenPrefix = (c.nodes id).tokenPrefix := by
    intro id x hsome
    rw [(hnode id).1] at hsome
    exact ⟨hsome, (hnode id).2.2 (by rw [hsome]; rfl)⟩
  refine {
    pageSize_pos := hpageSize ▸ h.pageSize_pos
    tree := htree
    covers := fun {id x} hsome => ?_
    stored := fun {id x} hsome => ?_
    notMem := fun hsome => h.notMem (hold hsome).1
    snapshot_inj := fun hsome hsome' => h.snapshot_inj (hold hsome).1 (hold hsome').1
    pins_eq := hpins
    active_some := fun id hmem => (hnode id).1 ▸ hactive id hmem
    active_held := hkeys }
  · have hcovers := h.covers (hold hsome).1
    refine ⟨?_, ?_, ?_⟩
    · rw [(hnode id).2.1, (hold hsome).2]
      exact hcovers.length_eq
    · rw [(hnode id).2.1, hpageSize]
      exact hcovers.dvd
    · rw [(hnode id).2.1]
      exact hcovers.pos
  · rw [(hold hsome).2]
    exact h.stored (hold hsome).1

theorem of_same (h : Indexes Stored c s held) (htree : c'.IsTree) (hsame : SameSnapshots c c') :
    Indexes Stored c' s held :=
  h.of_nodes htree hsame.pageSize_eq
    (fun id => ⟨hsame.handle_eq id, hsame.length_eq id, hsame.prefix_eq id⟩)
    (fun id => by rw [hsame.pins_eq, hsame.active_eq]; exact h.pins_eq id)
    (fun id hmem => h.active_some id (hsame.active_eq ▸ hmem))
    (hsame.active_eq ▸ h.active_held)

/-- A node may be touched and its pins may change with the active handles. -/
theorem repin (h : Indexes Stored c s held) {id : ℕ} (hsome : (c.nodes id).cacheHandle.isSome)
    (lastUsed pins : ℕ) (active : Dict Handle ℕ)
    (hcount : ∀ x, active.values.count x =
      if x = id then pins else c.activeHandles.values.count x)
    (hkeys : ∀ k ∈ active.keys, k ∈ held) :
    Indexes Stored { c.setNode id { c.nodes id with lastUsed := lastUsed, pins := pins } with
      activeHandles := active } s held := by
  have htree := h.tree.setNode (h.tree.lt_of_handle hsome)
    { c.nodes id with lastUsed := lastUsed, pins := pins } rfl rfl rfl fun hget => hget
  refine h.of_nodes { htree with edge := fun hget => { htree.edge hget with } } rfl
    (fun x => ?_) (fun x => ?_) (fun x hmem => ?_) hkeys
  · by_cases hx : x = id <;> simp [hx, setNode_nodes_of_ne]
  · rw [hcount]
    by_cases hx : x = id
    · simp [hx]
    · simp [hx, setNode_nodes_of_ne, h.pins_eq]
  · by_cases hx : x = id
    · rwa [hx]
    · have hpos := List.count_pos_iff.mpr hmem
      rw [hcount, if_neg hx] at hpos
      exact h.active_some x (List.count_pos_iff.mp hpos)

theorem touch (h : Indexes Stored c s held) {id : ℕ} (hsome : (c.nodes id).cacheHandle.isSome)
    (lastUsed : ℕ) :
    Indexes Stored (c.setNode id { c.nodes id with lastUsed := lastUsed }) s held := by
  refine h.repin hsome lastUsed (c.nodes id).pins c.activeHandles (fun x => ?_) h.active_held
  split
  case isTrue heq => rw [heq, h.pins_eq]
  case isFalse => rfl

/-- The clock and the published lengths are no part of the index. -/
theorem of_clock (h : Indexes Stored c s held) (clock : ℕ) (readings : ClockReadings)
    (published : Dict Handle ℕ) : Indexes Stored { c with
      clock := clock, readings := readings, publishedLengths := published } s held :=
  { h with tree := { h.tree with edge := fun hget => { h.tree.edge hget with } } }

/-! ## Lookup and acquire -/

/-- A lookup finds a snapshot of a prefix of the prompt that is not all of it. -/
theorem lookup_eq_some (h : Indexes Stored c s held) {tokens : List Token} {id : ℕ}
    (hlookup : c.lookup tokens = some id) :
    ∃ snapshot, (c.nodes id).cacheHandle = some snapshot ∧
      Grant Stored s held c.pageSize tokens snapshot (c.nodes id).cachedLength := by
  obtain ⟨hsome, n, hn, htokens₀⟩ := RadixPrefixCache.lookup_eq_some h.tree hlookup
  obtain ⟨snapshot, hsnapshot⟩ := Option.isSome_iff_exists.mp hsome
  have hcovers := h.covers hsnapshot
  have hle : BlockHashPrefixCache.maxReusable c.pageSize tokens ≤ tokens.length - 1 :=
    Nat.div_mul_le_self _ _
  have hlength : (c.nodes id).cachedLength = min n tokens.length := by
    rw [hcovers.length_eq, htokens₀, List.length_take]
  have hpos := hcovers.pos
  refine ⟨snapshot, hsnapshot, ?_, h.notMem hsnapshot, hcovers.dvd, hpos, by omega⟩
  have hstored := h.stored hsnapshot
  rw [htokens₀] at hstored
  rw [hlength, min_eq_left (by omega)]
  exact hstored

theorem lookupTouch_cases (h : Indexes Stored c s held) (tokens : List Token) :
    c.lookupTouch tokens = (none, c) ∨
    ∃ id c' snapshot, c.lookupTouch tokens = (some id, c') ∧ Indexes Stored c' s held ∧
      (c'.nodes id).cacheHandle = some snapshot ∧
      Grant Stored s held c.pageSize tokens snapshot (c'.nodes id).cachedLength := by
  rw [lookupTouch]
  cases hlookup : c.lookup tokens with
  | none => exact .inl rfl
  | some id =>
      obtain ⟨snapshot, hsnapshot, hgrant⟩ := h.lookup_eq_some hlookup
      have hsome : (c.nodes id).cacheHandle.isSome := by rw [hsnapshot]; rfl
      have htouched :=
        (h.of_clock c.tick.2.clock c.tick.2.readings c.publishedLengths).touch hsome c.tick.1
      refine .inr ⟨id, _, snapshot, rfl, htouched, ?_, ?_⟩
      · rw [setNode_nodes_self]
        exact hsnapshot
      · rw [setNode_nodes_self]
        exact hgrant

/-- **`acquire`** never raises: it either gives nothing, or forks a live snapshot of a
proper prefix of the prompt, and pins it. -/
theorem acquire_cases (hlaws : StoredLaws Stored) (h : Indexes Stored c s held) (hs : s.Wf)
    (hfresh : s.nextHandle ∉ held) (requestId : ρ) (tokens : List Token) (probe : PrefixProbe) :
    (∃ c', c.acquire s requestId tokens probe = (.ok none, c', s) ∧ Indexes Stored c' s held) ∨
    ∃ snapshot n pages c', c.acquire s requestId tokens probe =
        (.ok (some ⟨s.nextHandle, n, n, pages⟩), c', s.forked snapshot requestId n) ∧
      Grant Stored s held c.pageSize tokens snapshot n ∧
      Indexes Stored c' (s.forked snapshot requestId n) (insert s.nextHandle held) ∧
      c'.snapshotOf s.nextHandle = some snapshot := by
  rw [acquire]
  split
  · exact .inl ⟨c, rfl, h⟩
  rcases h.lookupTouch_cases tokens with heq | ⟨id, c₁, snapshot, heq, htouched, hsnapshot, hgrant⟩
  · rw [heq]
    exact .inl ⟨c, rfl, h⟩
  rw [heq]
  dsimp only
  by_cases hprobe : (c₁.nodes id).cacheHandle = probe.cacheHandle
  case neg =>
    rw [if_pos hprobe]
    exact .inl ⟨c₁, rfl, htouched⟩
  have hlen : (c₁.nodes id).cachedLength ≤ (s.cacheOf snapshot).length := by
    have := hlaws.length_le hgrant.stored
    rw [List.length_take, min_eq_left hgrant.lt.le] at this
    exact this
  rw [if_neg (not_not.mpr hprobe), setNode_nodes_self]
  dsimp only
  rw [hsnapshot]
  dsimp only
  rw [PagedKVCacheBackend.fork_of_mem (hlaws.live hgrant.stored) hlen]
  refine .inr ⟨snapshot, (c₁.nodes id).cachedLength, (c₁.nodes id).pages, _, rfl, hgrant, ?_, ?_⟩
  · have hactive : s.nextHandle ∉ c₁.activeHandles.keys :=
      fun hmem => hfresh (htouched.active_held _ hmem)
    have hforked := htouched.addCache hlaws hs requestId
      ((s.cacheOf snapshot).blockTable.take (pagesFor s.pageSize (c₁.nodes id).cachedLength))
      (c₁.nodes id).cachedLength
    have hsome : (c₁.nodes id).cacheHandle.isSome := by rw [hsnapshot]; rfl
    have hpinned := hforked.repin hsome (c₁.nodes id).lastUsed
      ((c₁.nodes id).pins + 1) (c₁.activeHandles.set s.nextHandle id) (fun x => ?_) fun k hk => ?_
    · rw [← hsnapshot]
      exact hpinned.of_clock c₁.clock c₁.readings _
    · rw [Dict.count_values_set hactive]
      split
      case isTrue heq => rw [heq, htouched.pins_eq]
      case isFalse => rfl
    · rcases Dict.mem_keys_set.mp hk with rfl | hk
      · exact Finset.mem_insert_self _ _
      · exact Finset.mem_insert_of_mem (htouched.active_held k hk)
  · simp [snapshotOf]

/-! ## Eviction -/

/-- An unpinned snapshot may be taken out of the tree. -/
theorem drop (h : Indexes Stored c s held) {id : ℕ} (hsome : (c.nodes id).cacheHandle.isSome)
    (hpins : (c.nodes id).pins = 0) :
    Indexes Stored (c.setNode id { c.nodes id with
      cacheHandle := none, cachedLength := 0, pages := 0, bytes := 0 }) s held := by
  have htree := h.tree.setNode (h.tree.lt_of_handle hsome) { c.nodes id with
    cacheHandle := none, cachedLength := 0, pages := 0, bytes := 0 } rfl rfl rfl fun hget => hget
  have hold : ∀ {x y}, ((c.setNode id { c.nodes id with
      cacheHandle := none, cachedLength := 0, pages := 0, bytes := 0 }).nodes x).cacheHandle =
        some y → (c.setNode id { c.nodes id with
      cacheHandle := none, cachedLength := 0, pages := 0, bytes := 0 }).nodes x = c.nodes x := by
    intro x y hx
    by_cases hxn : x = id
    · rw [hxn, setNode_nodes_self] at hx
      cases hx
    · exact setNode_nodes_of_ne _ hxn _
  refine {
    pageSize_pos := h.pageSize_pos
    tree := htree
    covers := fun hx => by
      have heq := hold hx
      rw [heq] at hx ⊢
      exact h.covers hx
    stored := fun hx => by
      have heq := hold hx
      rw [heq] at hx ⊢
      exact h.stored hx
    notMem := fun hx => h.notMem (hold hx ▸ hx)
    snapshot_inj := fun hx hx' => h.snapshot_inj (hold hx ▸ hx) (hold hx' ▸ hx')
    pins_eq := fun x => ?_
    active_some := fun x hmem => ?_
    active_held := h.active_held }
  · by_cases hxn : x = id
    · rw [hxn, setNode_nodes_self]
      exact h.pins_eq id
    · rw [setNode_nodes_of_ne _ hxn]
      exact h.pins_eq x
  · have hne : x ≠ id := by
      rintro rfl
      refine List.count_eq_zero.mp ?_ hmem
      exact (h.pins_eq x).symm.trans hpins
    rw [setNode_nodes_of_ne _ hne]
    exact h.active_some x hmem

/-- One round of an eviction. -/
theorem evict (hlaws : StoredLaws Stored) (h : Indexes Stored c s held) (hs : s.Wf) {id : ℕ}
    (hsome : (c.nodes id).cacheHandle.isSome) (hpins : (c.nodes id).pins = 0) :
    ∃ snapshot ∈ s.caches, (c.nodes id).cacheHandle = some snapshot ∧ snapshot ∉ held ∧
      s.release (some snapshot) = (.ok (), s.released snapshot) ∧
      Indexes Stored (evicted c id) (s.released snapshot) held ∧
      (evicted c id).activeHandles = c.activeHandles ∧
      (c.Filled none → (evicted c id).Filled none) := by
  obtain ⟨snapshot, hsnapshot⟩ := Option.isSome_iff_exists.mp hsome
  have hlive := hlaws.live (h.stored hsnapshot)
  have hdropped := h.drop hsome hpins
  have hreleased : Indexes Stored (c.setNode id { c.nodes id with
      cacheHandle := none, cachedLength := 0, pages := 0, bytes := 0 })
      (s.released snapshot) held := by
    refine { hdropped with stored := fun {x y} hx => ?_ }
    refine hlaws.released (hdropped.stored hx) ?_
    rintro rfl
    by_cases hxn : x = id
    · rw [hxn, setNode_nodes_self] at hx
      cases hx
    · rw [setNode_nodes_of_ne _ hxn] at hx
      exact hxn (h.snapshot_inj hx hsnapshot)
  obtain ⟨htree, hsame⟩ := pruneFrom_eq hdropped.tree
    (((c.setNode id { c.nodes id with
      cacheHandle := none, cachedLength := 0, pages := 0, bytes := 0 }).nodes
        id).tokenPrefix.length + 1) id
  refine ⟨snapshot, hlive, hsnapshot, h.notMem hsnapshot,
    PagedKVCacheBackend.release_of_mem hs hlive, hreleased.of_same htree hsame, hsame.active_eq,
    fun hfilled => ?_⟩
  have hattached := hfilled.attached id hsome
  have hempty : (c.setNode id { c.nodes id with
      cacheHandle := none, cachedLength := 0, pages := 0, bytes := 0 }).Filled (some id) := by
    refine hfilled.setNode ?_ ?_ (some id) (fun x _ => .inr (Option.some_ne_none x))
      (fun hne => absurd rfl hne) (fun hsome => ?_) fun _ => ?_
    · rfl
    · rfl
    · cases hsome
    · rfl
  refine hempty.prune hdropped.tree ?_ (fun x hx => ?_) (Nat.lt_succ_self _)
  · refine (attached_congr fun x => ?_).mpr hattached
    by_cases hx : x = id
    · rw [hx, setNode_nodes_self]
    · rw [setNode_nodes_of_ne _ hx]
  · rw [hdropped.pins_eq] at hx
    exact hdropped.active_some x (List.count_pos_iff.mp (Nat.pos_of_ne_zero hx))

theorem evictRounds_eq (hlaws : StoredLaws Stored) (h : Indexes Stored c s held) (hs : s.Wf)
    (rounds : ℕ) :
    ∃ c' s', evictRounds rounds c s = (.ok (), c', s') ∧ Shares held s s' ∧
      Indexes Stored c' s' held ∧ c'.activeHandles = c.activeHandles ∧
      (c.Filled none → c'.Filled none) := by
  induction rounds generalizing c s with
  | zero => exact ⟨c, s, rfl, .refl, h, rfl, id⟩
  | succ rounds ih =>
      rw [evictRounds]
      by_cases hover : c.OverLimits
      case neg => exact ⟨c, s, by rw [if_neg hover], .refl, h, rfl, id⟩
      rw [if_pos hover]
      cases hvictim : c.victim with
      | none => exact ⟨c, s, rfl, .refl, h, rfl, id⟩
      | some id =>
          have hfree := of_decide_eq_true (List.mem_filter.mp (mem_of_firstMin hvictim)).2
          obtain ⟨snapshot, hlive, hsnapshot, hnot, hrelease, hindexes, hactive, hfilled⟩ :=
            h.evict hlaws hs hfree.1 hfree.2.1
          obtain ⟨c', s', heq, hshares, hindexes', hactive', hfilled'⟩ :=
            ih hindexes (PagedKVCacheBackend.wf_released hs hlive)
          refine ⟨c', s', ?_, (Shares.refl.released hlive hnot).trans hshares, hindexes',
            hactive'.trans hactive, fun h => hfilled' (hfilled h)⟩
          dsimp only
          rw [hsnapshot, hrelease]
          exact heq

/-! ## Publish and release -/

/-- A snapshot for a node that has none. -/
theorem store (hlaws : StoredLaws Stored) (h : Indexes Stored c s held) (hs : s.Wf) {id : ℕ}
    (hid : id < c.nextNode) (hnone : (c.nodes id).cacheHandle = none) {source : Handle}
    {tokens : List Token} (hst : Stored s source tokens) {length : ℕ}
    (hle : length ≤ tokens.length) (htokens₀ : (c.nodes id).tokenPrefix = tokens.take length)
    (hdvd : c.pageSize ∣ length) (hpos : 0 < length) (requestId : ρ)
    (hfresh : s.nextHandle ∉ held) (pages bytes lastUsed : ℕ) :
    Indexes Stored (c.setNode id { c.nodes id with
        cacheHandle := some s.nextHandle, cachedLength := length, pages := pages, bytes := bytes,
        lastUsed := lastUsed })
      (s.forked source requestId length) held := by
  have htree := h.tree.setNode hid { c.nodes id with
    cacheHandle := some s.nextHandle, cachedLength := length, pages := pages, bytes := bytes,
    lastUsed := lastUsed } rfl rfl rfl fun hget => hget
  have hcases : ∀ {x y}, ((c.setNode id { c.nodes id with
      cacheHandle := some s.nextHandle, cachedLength := length, pages := pages, bytes := bytes,
      lastUsed := lastUsed }).nodes x).cacheHandle = some y →
      x = id ∧ y = s.nextHandle ∨ x ≠ id ∧ (c.nodes x).cacheHandle = some y := by
    intro x y hx
    by_cases hxn : x = id
    · rw [hxn, setNode_nodes_self] at hx
      exact .inl ⟨hxn, (Option.some.inj hx).symm⟩
    · rw [setNode_nodes_of_ne _ hxn] at hx
      exact .inr ⟨hxn, hx⟩
  have hold : ∀ {x}, (c.nodes x).cacheHandle ≠ some s.nextHandle := fun hx =>
    lt_irrefl _ (hs.fresh _ (hlaws.live (h.stored hx)))
  refine {
    pageSize_pos := h.pageSize_pos, tree := htree, covers := ?_, stored := ?_, notMem := ?_,
    snapshot_inj := ?_, pins_eq := ?_, active_some := ?_, active_held := h.active_held }
  · intro x y hx
    rcases hcases hx with ⟨rfl, rfl⟩ | ⟨hxn, hx⟩
    · rw [setNode_nodes_self]
      refine ⟨?_, hdvd, hpos⟩
      rw [htokens₀, List.length_take, min_eq_left hle]
    · rw [setNode_nodes_of_ne _ hxn]
      exact h.covers hx
  · intro x y hx
    rcases hcases hx with ⟨rfl, rfl⟩ | ⟨hxn, hx⟩
    · rw [setNode_nodes_self, htokens₀]
      exact hlaws.forked hs hst requestId hle
    · rw [setNode_nodes_of_ne _ hxn]
      exact hlaws.addCache hs (h.stored hx) _ _ _
  · intro x y hx
    rcases hcases hx with ⟨rfl, rfl⟩ | ⟨hxn, hx⟩
    · exact hfresh
    · exact h.notMem hx
  · intro x x' y hx hx'
    rcases hcases hx with ⟨rfl, rfl⟩ | ⟨-, hx₁⟩ <;> rcases hcases hx' with ⟨rfl, hy⟩ | ⟨-, hx₂⟩
    · rfl
    · exact absurd hx₂ hold
    · exact absurd (hy ▸ hx₁) hold
    · exact h.snapshot_inj hx₁ hx₂
  · intro x
    by_cases hxn : x = id
    · rw [hxn, setNode_nodes_self]
      exact h.pins_eq id
    · rw [setNode_nodes_of_ne _ hxn]
      exact h.pins_eq x
  · intro x hmem
    by_cases hxn : x = id
    · rw [hxn, setNode_nodes_self]
      rfl
    · rw [setNode_nodes_of_ne _ hxn]
      exact h.active_some x hmem

/-- The loop of `publish` fills the nodes of the prefixes that have no snapshot. -/
theorem publishPages_eq (hlaws : StoredLaws Stored) (h : Indexes Stored c s held) (hs : s.Wf)
    (hheld : ∀ x ∈ held, x < s.nextHandle) {handle : Handle} {tokens : List Token} {n : ℕ}
    (hst : Stored s handle (tokens.take n)) {rounds length : ℕ} (published : ℕ)
    (hdvd : c.pageSize ∣ length) (hpos : 0 < length)
    (hle : rounds = 0 ∨ length + (rounds - 1) * c.pageSize ≤ min n tokens.length) :
    ∃ last c' s', publishPages handle tokens rounds length published c s = (.ok last, c', s') ∧
      Shares held s s' ∧ Indexes Stored c' s' held ∧ (c.Filled none → c'.Filled none) := by
  induction rounds generalizing c s length published with
  | zero => exact ⟨published, c, s, rfl, .refl, h, id⟩
  | succ rounds ih =>
      rw [publishPages]
      split
      · exact ⟨published, c, s, rfl, .refl, h, id⟩
      have hfresh : c.Filled none → ∃ fresh, (fresh = none ∨
          fresh = some (c.insertPrefix (tokens.take length)).1) ∧
          (c.insertPrefix (tokens.take length)).2.Filled fresh ∧
          (c.insertPrefix (tokens.take length)).2.Attached
            (c.insertPrefix (tokens.take length)).1 := by
        intro hfilled
        obtain ⟨fresh, hfresh, hinserts, hattached⟩ :=
          insertPrefix_inserts h.tree hfilled.root_parent (tokens.take length)
        exact ⟨fresh, hfresh, hfilled.inserts hinserts, hattached⟩
      obtain ⟨id, c₁, heq, htree, hid, htokens₀, hsame⟩ := insertPrefix_eq h.tree (tokens.take length)
      have hinserted := h.of_same htree hsame
      have hrest : rounds = 0 ∨
          length + c.pageSize + (rounds - 1) * c.pageSize ≤ min n tokens.length := by
        rcases rounds with _ | rounds
        · exact .inl rfl
        · refine .inr ((le_of_eq ?_).trans (hle.resolve_left (Nat.succ_ne_zero _)))
          simp only [Nat.add_sub_cancel]
          ring
      have hfits : length ≤ min n tokens.length :=
        (Nat.le_add_right _ _).trans (hle.resolve_left (Nat.succ_ne_zero _))
      have hdvd' : c.pageSize ∣ length + c.pageSize := (Nat.dvd_add_self_right).mpr hdvd
      rw [← hsame.pageSize_eq] at hdvd hdvd' hrest
      rw [heq] at hfresh ⊢
      dsimp only at hfresh ⊢
      by_cases hsome : (c₁.nodes id).cacheHandle.isSome
      · rw [if_pos hsome]
        have htouched := (hinserted.of_clock c₁.tick.2.clock c₁.tick.2.readings
          c₁.publishedLengths).touch hsome c₁.tick.1
        obtain ⟨last, c', s', heq', hshares, hindexes, hfilled⟩ :=
          ih htouched hs hheld hst length hdvd' (Nat.add_pos_left hpos _) hrest
        refine ⟨last, c', s', heq', hshares, hindexes, fun h => hfilled ?_⟩
        obtain ⟨fresh, hfresh, hinserted, hattached⟩ := hfresh h
        have htouched : (c₁.setNode id { c₁.nodes id with lastUsed := c₁.tick.1 }).Filled none :=
          hinserted.fill hfresh rfl rfl hsome fun _ => hattached
        exact htouched.of_nodes rfl
      · rw [if_neg hsome]
        have hlength : length ≤ (tokens.take n).length := by
          rw [List.length_take]
          exact hfits
        have hlen := hlength.trans (hlaws.length_le hst)
        have hlive := hlaws.live hst
        have hstored := (hinserted.of_clock c₁.tick.2.clock c₁.tick.2.readings
          c₁.publishedLengths).store hlaws hs hid (Option.not_isSome_iff_eq_none.mp hsome) hst
          hlength (by rw [List.take_take, min_eq_left (le_min_iff.mp hfits).1]; exact htokens₀)
          hdvd hpos (c₁.snapshotId (tokens.take length))
          (fun hmem => lt_irrefl _ (hheld _ hmem)) (length / c₁.pageSize)
          (BlockHashPrefixCache.bytesForPages (s.forked handle
            (c₁.snapshotId (tokens.take length)) length) 1) c₁.tick.1
        obtain ⟨last, c', s', heq', hshares, hindexes, hfilled⟩ := ih hstored
          (PagedKVCacheBackend.wf_fork hs _ hlive hlen)
          (fun x hx => Nat.lt_succ_of_lt (hheld x hx)) (hlaws.addCache hs hst _ _ _) length hdvd'
          (Nat.add_pos_left hpos _) hrest
        rw [PagedKVCacheBackend.fork_of_mem hlive hlen]
        refine ⟨last, c', s', heq', (Shares.refl.forked hlive _ hlen).trans hshares, hindexes,
          fun h => hfilled ?_⟩
        obtain ⟨fresh, hfresh, hinserted, hattached⟩ := hfresh h
        have hstored : (c₁.setNode id { c₁.nodes id with
            cacheHandle := some s.nextHandle, cachedLength := length,
            pages := length / c₁.pageSize,
            bytes := BlockHashPrefixCache.bytesForPages (s.forked handle
              (c₁.snapshotId (tokens.take length)) length) 1,
            lastUsed := c₁.tick.1 }).Filled none :=
          hinserted.fill hfresh rfl rfl rfl fun _ => hattached
        exact hstored.of_nodes rfl

/-- The loop of `publish` runs to its end, from the length after the last published one. -/
theorem publishLoop_eq (hlaws : StoredLaws Stored) (h : Indexes Stored c s held) (hs : s.Wf)
    (hheld : ∀ x ∈ held, x < s.nextHandle) {handle : Handle} {tokens : List Token} {n : ℕ}
    (hst : Stored s handle (tokens.take n)) (previous : ℕ) :
    ∃ last c' s', publishPages handle tokens ((min n tokens.length / c.pageSize * c.pageSize +
          c.pageSize - (previous / c.pageSize + 1) * c.pageSize) / c.pageSize)
        ((previous / c.pageSize + 1) * c.pageSize) 0 c s = (.ok last, c', s') ∧
      Shares held s s' ∧ Indexes Stored c' s' held ∧ (c.Filled none → c'.Filled none) := by
  refine h.publishPages_eq hlaws hs hheld hst 0 (Dvd.intro_left _ rfl)
    (Nat.mul_pos (Nat.succ_pos _) h.pageSize_pos) ?_
  have hfits := Nat.div_mul_le_self (min n tokens.length) c.pageSize
  generalize min n tokens.length / c.pageSize = last at hfits ⊢
  generalize previous / c.pageSize + 1 = first
  have hrounds : (last * c.pageSize + c.pageSize - first * c.pageSize) / c.pageSize =
      last + 1 - first := by
    rw [← Nat.succ_mul, ← Nat.sub_mul, Nat.mul_div_cancel _ h.pageSize_pos]
  rw [hrounds]
  rcases Nat.lt_or_ge last first with hlt | hge
  · exact .inl (by omega)
  · refine .inr (le_trans (le_of_eq ?_) hfits)
    rw [← Nat.add_mul]
    congr 1
    omega

/-- **`publish`** never raises on a cache that holds the tokens it publishes. -/
theorem publish_eq (hlaws : StoredLaws Stored) (h : Indexes Stored c s held) (hs : s.Wf)
    (hheld : ∀ x ∈ held, x < s.nextHandle) {handle : Handle} {tokens : List Token} {n : ℕ}
    (hst : Stored s handle (tokens.take n)) :
    ∃ publication c' s', c.publish s handle tokens n = (.ok publication, c', s') ∧
      Shares held s s' ∧ Indexes Stored c' s' held ∧ (c.Filled none → c'.Filled none) := by
  rw [publish]
  dsimp only
  generalize (c.publishedLengths.get? handle).getD 0 = previous
  split
  · exact ⟨_, c, s, rfl, .refl, h, id⟩
  obtain ⟨last, c₁, s₁, heq, hshares, hindexes, hfilled⟩ :=
    h.publishLoop_eq hlaws hs hheld hst previous
  obtain ⟨c₂, s₂, hevict, hshares', hindexes', -, hfilled'⟩ :=
    hindexes.evictRounds_eq hlaws (hshares.wf hs) c₁.entryCount
  rw [heq]
  dsimp only
  rw [evictUntilWithinLimits, hevict]
  dsimp only
  split
  · exact ⟨_, c₂, s₂, rfl, hshares.trans hshares', hindexes', fun h => hfilled' (hfilled h)⟩
  · exact ⟨_, _, s₂, rfl, hshares.trans hshares',
      hindexes'.of_clock c₂.clock c₂.readings _, fun h => (hfilled' (hfilled h)).of_nodes rfl⟩

/-- A handle that is not active need not be held. -/
theorem unhold (h : Indexes Stored c s held) {handle : Handle}
    (hnot : handle ∉ c.activeHandles.keys) : Indexes Stored c s (held.erase handle) :=
  { h with
    notMem := fun hsome hmem => h.notMem hsome (Finset.mem_of_mem_erase hmem)
    active_held := fun x hx => Finset.mem_erase.mpr
      ⟨fun heq => hnot (heq ▸ hx), h.active_held x hx⟩ }

/-- The index in which `release` evicts: the handle no longer pins its node. -/
theorem unpin (h : Indexes Stored c s held) {handle : Handle} {id : ℕ}
    (hactive : c.activeHandles.get? handle = some id) :
    Indexes Stored ({ c with
      publishedLengths := c.publishedLengths.pop handle
      activeHandles := c.activeHandles.pop handle }.setNode id
        { c.nodes id with pins := (c.nodes id).pins - 1 }) s held := by
  have hsome := h.active_some id (Dict.mem_values.mpr ⟨handle, Dict.get?_eq_some.mp hactive⟩)
  refine (h.of_clock c.clock c.readings (c.publishedLengths.pop handle)).repin
    hsome (c.nodes id).lastUsed ((c.nodes id).pins - 1) (c.activeHandles.pop handle)
    (fun x => ?_) fun k hk => h.active_held k (Dict.mem_keys_pop.mp hk).2
  have hcount := Dict.count_values_pop hactive x
  rw [h.pins_eq]
  split
  case isTrue heq => rw [heq] at hcount ⊢; simp at hcount; omega
  case isFalse hne => simpa [hne] using hcount.symm

/-- **`release`** never raises: the handle is no longer active. -/
theorem release_eq (hlaws : StoredLaws Stored) (h : Indexes Stored c s held) (hs : s.Wf)
    (handle : Handle) :
    ∃ c' s', c.release s (some handle) = (.ok (), c', s') ∧ Shares held s s' ∧
      Indexes Stored c' s' held ∧ handle ∉ c'.activeHandles.keys ∧
      (c.Filled none → c'.Filled none) := by
  rw [release]
  dsimp only
  cases hactive : c.activeHandles.get? handle with
  | none =>
      exact ⟨_, s, rfl, .refl, h.of_clock c.clock c.readings _, Dict.get?_eq_none.mp hactive,
        fun h => h.of_nodes rfl⟩
  | some id =>
      obtain ⟨c', s', heq, hshares, hindexes, hsame, hfilled⟩ :=
        (h.unpin hactive).evictRounds_eq hlaws hs (RadixPrefixCache.entryCount _)
      refine ⟨c', s', heq, hshares, hindexes, ?_, fun h => hfilled ?_⟩
      · rw [hsame]
        exact fun hmem => (Dict.mem_keys_pop.mp hmem).1 rfl
      · exact (h.touch id (c.nodes id).lastUsed ((c.nodes id).pins - 1)).of_nodes rfl

/-- A handle that is not active may be released. -/
theorem release_of_notMem (h : Indexes Stored c s held) {handle : Handle} (hnot : handle ∉ held) :
    ∃ c', c.release s (some handle) = (.ok (), c', s) ∧ Indexes Stored c' s held := by
  have hnone := Dict.get?_eq_none.mpr fun hmem => hnot (h.active_held handle hmem)
  refine ⟨_, ?_, h.of_clock c.clock c.readings (c.publishedLengths.pop handle)⟩
  rw [release]
  dsimp only
  rw [hnone]

end Indexes
end MlxRuntime.RadixPrefixCache
