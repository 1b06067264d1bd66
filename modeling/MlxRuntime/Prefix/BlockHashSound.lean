import MlxRuntime.Prefix.BlockHash
import MlxRuntime.Cache.Sharing

/-!
# Block-hash entries hold what their tokens say

Nothing is known of the page hash: two different chains may meet in one hash, and a
chain may meet itself.  An entry is published under the hash of its whole chain only
when no shorter part of the chain has that hash, and this is why a lookup that stops
at the last reusable page never finds an entry longer than that.

## Main definitions

* `Grant` — what an index owes a request it gives a snapshot to.
* `BlockHashPrefixCache.chainHash` — the hash of the first pages of a sequence.
* `BlockHashPrefixCache.Indexes` — the invariant.
* `acquire_cases`, `publish_eq`, `release_eq` — what the methods do under it.
-/

namespace MlxRuntime

variable {ρ κ η : Type}

open PagedKVCacheBackend (Shares StoredLaws)

/-- The first `n` tokens of a request are in the live snapshot, in whole pages, and
they are not all of its tokens. -/
structure Grant (Stored : PagedKVCacheBackend ρ κ → Handle → List Token → Prop)
    (s : PagedKVCacheBackend ρ κ) (held : Finset Handle) (pageSize : ℕ) (tokens : List Token)
    (snapshot : Handle) (n : ℕ) : Prop where
  stored : Stored s snapshot (tokens.take n)
  notMem : snapshot ∉ held
  dvd : pageSize ∣ n
  pos : 0 < n
  lt : n < tokens.length

namespace BlockHashPrefixCache

/-! ## The chain of hashes -/

/-- A page hash folded over the first pages of a sequence. -/
def foldPages (pageHash : η → List Token → η) (noParent : η) (pageSize : ℕ)
    (tokens : List Token) : (pages : ℕ) → η
  | 0 => noParent
  | pages + 1 => pageHash (foldPages pageHash noParent pageSize tokens pages)
      ((tokens.drop (pages * pageSize)).take pageSize)

/-- The hash of the first `pages` pages. -/
def chainHash (c : BlockHashPrefixCache ρ η) : List Token → (pages : ℕ) → η :=
  foldPages c.pageHash c.noParent c.pageSize

variable {c c' : BlockHashPrefixCache ρ η} {s s' : PagedKVCacheBackend ρ κ}
  {held : Finset Handle} {Stored : PagedKVCacheBackend ρ κ → Handle → List Token → Prop}

theorem chainHash_succ (c : BlockHashPrefixCache ρ η) (tokens : List Token) (pages : ℕ) :
    c.chainHash tokens (pages + 1) = c.pageHash (c.chainHash tokens pages)
      ((tokens.drop (pages * c.pageSize)).take c.pageSize) := rfl

/-- The hash of the first pages is a function of the tokens in them. -/
theorem chainHash_congr {tokens tokens' : List Token} {pages : ℕ}
    (h : tokens.take (pages * c.pageSize) = tokens'.take (pages * c.pageSize)) :
    c.chainHash tokens pages = c.chainHash tokens' pages := by
  induction pages with
  | zero => rfl
  | succ pages ih =>
      have hlast := congrArg (List.drop (pages * c.pageSize)) h
      have hfirst := congrArg (List.take (pages * c.pageSize)) h
      have hle : pages * c.pageSize ≤ (pages + 1) * c.pageSize :=
        Nat.mul_le_mul_right _ (Nat.le_succ _)
      rw [List.take_take, List.take_take, min_eq_left hle] at hfirst
      rw [Nat.add_mul, Nat.one_mul, ← List.take_drop, ← List.take_drop] at hlast
      rw [chainHash] at ih ⊢
      rw [foldPages, foldPages, ih hfirst, hlast]

theorem hashChainFrom_eq (c : BlockHashPrefixCache ρ η) (tokens : List Token) (pages start : ℕ) :
    c.hashChainFrom tokens pages (c.chainHash tokens start) (start * c.pageSize) =
      (List.range' start pages).map fun i =>
        (c.chainHash tokens (i + 1), c.chainHash tokens i, (i + 1) * c.pageSize) := by
  induction pages generalizing start with
  | zero => rfl
  | succ pages ih =>
      have ih := ih (start + 1)
      rw [chainHash_succ, Nat.add_mul, Nat.one_mul] at ih
      rw [hashChainFrom, List.range'_succ, List.map_cons, ih, chainHash_succ, Nat.add_mul,
        Nat.one_mul]

/-- The chain lists the hashes of the first page, the first two pages, and so on. -/
theorem hashChain_eq (c : BlockHashPrefixCache ρ η) (tokens : List Token) :
    c.hashChain tokens = (List.range (tokens.length / c.pageSize)).map fun i =>
      (c.chainHash tokens (i + 1), c.chainHash tokens i, (i + 1) * c.pageSize) := by
  have h := c.hashChainFrom_eq tokens (tokens.length / c.pageSize) 0
  rwa [Nat.zero_mul, ← List.range_eq_range'] at h

/-- The chain of the first tokens, in terms of the chain of all of them. -/
theorem hashChain_take {tokens : List Token} {n : ℕ} (hn : n ≤ tokens.length) :
    c.hashChain (tokens.take n) = (List.range (n / c.pageSize)).map fun i =>
      (c.chainHash tokens (i + 1), c.chainHash tokens i, (i + 1) * c.pageSize) := by
  rw [hashChain_eq, List.length_take, min_eq_left hn]
  refine List.map_congr_left fun i hi => ?_
  have hle : (i + 1) * c.pageSize ≤ n := by
    have hlt : i + 1 ≤ n / c.pageSize := List.mem_range.mp hi
    exact (Nat.mul_le_mul_right _ hlt).trans (Nat.div_mul_le_self _ _)
  have hle' : i * c.pageSize ≤ n := (Nat.mul_le_mul_right _ (Nat.le_succ _)).trans hle
  have hhash : c.chainHash (tokens.take n) (i + 1) = c.chainHash tokens (i + 1) :=
    chainHash_congr (by rw [List.take_take, min_eq_left hle])
  have hparent : c.chainHash (tokens.take n) i = c.chainHash tokens i :=
    chainHash_congr (by rw [List.take_take, min_eq_left hle'])
  rw [hhash, hparent]

/-! ## The invariant -/

/-- An entry covers whole pages, under the hash of its chain, which no shorter part of
the chain has. -/
structure Covers (chainHash : List Token → ℕ → η) (pageSize : ℕ) (hash : η)
    (entry : BlockEntry η) (pages : ℕ) : Prop where
  hash_eq : entry.blockHash = hash
  pos : 0 < pages
  cachedLength_eq : entry.cachedLength = pages * pageSize
  length_eq : entry.tokenPrefix.length = entry.cachedLength
  chain : chainHash entry.tokenPrefix pages = hash
  first : ∀ i, 0 < i → i < pages → chainHash entry.tokenPrefix i ≠ hash

variable [DecidableEq η]

/-- The invariant: every entry covers its tokens and its snapshot holds them, no two
entries share a snapshot, and the pins of an entry count its active handles. -/
structure Indexes (Stored : PagedKVCacheBackend ρ κ → Handle → List Token → Prop)
    (c : BlockHashPrefixCache ρ η) (s : PagedKVCacheBackend ρ κ) (held : Finset Handle) :
    Prop where
  pageSize_pos : 0 < c.pageSize
  covers : ∀ {hash e}, c.entries.get? hash = some e → ∃ pages,
    Covers c.chainHash c.pageSize hash e pages
  stored : ∀ {hash e}, c.entries.get? hash = some e → Stored s e.cacheHandle e.tokenPrefix
  notMem : ∀ {hash e}, c.entries.get? hash = some e → e.cacheHandle ∉ held
  snapshot_inj : ∀ {hash e hash' e'}, c.entries.get? hash = some e →
    c.entries.get? hash' = some e' → e.cacheHandle = e'.cacheHandle → hash = hash'
  pins_eq : ∀ {hash e}, c.entries.get? hash = some e → e.pins = c.activeHandles.values.count hash
  active_mem : ∀ hash ∈ c.activeHandles.values, ∃ e, c.entries.get? hash = some e
  active_held : ∀ h ∈ c.activeHandles.keys, h ∈ held

/-- The snapshot an active handle pins. -/
def snapshotOf (c : BlockHashPrefixCache ρ η) (handle : Handle) : Option Handle :=
  ((c.activeHandles.get? handle).bind c.entries.get?).map BlockEntry.cacheHandle

theorem indexes_postInit {c₀ : BlockHashPrefixCache ρ η} (h : c₀.postInit = .ok c)
    (s : PagedKVCacheBackend ρ κ) : Indexes Stored c s ∅ := by
  rw [postInit] at h
  split at h
  · cases h
  split at h
  · cases h
  split at h
  · cases h
  rename_i hpos _ _
  obtain rfl := Except.ok.inj h
  exact {
    pageSize_pos := Nat.pos_of_ne_zero hpos
    covers := fun hget => by simp at hget
    stored := fun hget => by simp at hget
    notMem := fun hget => by simp at hget
    snapshot_inj := fun hget => by simp at hget
    pins_eq := fun hget => by simp at hget
    active_mem := fun hash hmem => by simp at hmem
    active_held := fun handle hmem => by simp at hmem }

namespace Indexes

/-- The index does not mind what happens to caches that are none of its snapshots. -/
theorem frame (h : Indexes Stored c s held)
    (hst : ∀ x tokens, x ∉ held → Stored s x tokens → Stored s' x tokens) :
    Indexes Stored c s' held :=
  { h with stored := fun hget => hst _ _ (h.notMem hget) (h.stored hget) }

/-- A cache the store adds is none of the snapshots. -/
theorem addCache (hlaws : StoredLaws Stored) (h : Indexes Stored c s held) (hs : s.Wf)
    (requestId : ρ) (table : List Page) (length : ℕ) :
    Indexes Stored c (s.addCache requestId table length) (insert s.nextHandle held) where
  pageSize_pos := h.pageSize_pos
  covers := h.covers
  stored := fun hget => hlaws.addCache hs (h.stored hget) _ _ _
  notMem := by
    intro hash e hget hmem
    rcases Finset.mem_insert.mp hmem with heq | hmem
    · exact absurd (hs.fresh _ (hlaws.live (h.stored hget))) (by rw [heq]; exact lt_irrefl _)
    · exact h.notMem hget hmem
  snapshot_inj := h.snapshot_inj
  pins_eq := h.pins_eq
  active_mem := h.active_mem
  active_held := fun x hx => Finset.mem_insert_of_mem (h.active_held x hx)

/-- Only a live snapshot is pinned. -/
theorem snapshotOf_live (hlaws : StoredLaws Stored) (h : Indexes Stored c s held) {x : Handle}
    (hx : x ∈ c.activeHandles.keys) : ∃ snapshot ∈ s.caches, c.snapshotOf x = some snapshot := by
  obtain ⟨hash, hmem⟩ := Dict.mem_keys.mp hx
  obtain ⟨e, he⟩ := h.active_mem hash (Dict.mem_values.mpr ⟨x, hmem⟩)
  refine ⟨e.cacheHandle, hlaws.live (h.stored he), ?_⟩
  rw [snapshotOf, Dict.get?_eq_some.mpr hmem, Option.bind_some, he, Option.map_some]

/-- An entry may be touched and its pins may change with the active handles. -/
theorem repin (h : Indexes Stored c s held) {hash : η} {e : BlockEntry η}
    (hget : c.entries.get? hash = some e) (lastUsed pins : ℕ) (active : Dict Handle η)
    (hcount : ∀ x, active.values.count x =
      if x = hash then pins else c.activeHandles.values.count x)
    (hkeys : ∀ k ∈ active.keys, k ∈ held) :
    Indexes Stored { c with
      entries := c.entries.set hash { e with lastUsed := lastUsed, pins := pins }
      activeHandles := active } s held := by
  have hold : ∀ {hash' e'},
      (c.entries.set hash { e with lastUsed := lastUsed, pins := pins }).get? hash' = some e' →
      ∃ e'', c.entries.get? hash' = some e'' ∧
        e' = { e'' with lastUsed := e'.lastUsed, pins := e'.pins } := by
    intro hash' e' hget'
    rw [Dict.get?_set] at hget'
    split at hget'
    case isTrue heq =>
      obtain rfl := Option.some.inj hget'
      exact ⟨e, heq ▸ hget, rfl⟩
    case isFalse => exact ⟨e', hget', rfl⟩
  refine {
    pageSize_pos := h.pageSize_pos, covers := ?_, stored := ?_, notMem := ?_, snapshot_inj := ?_,
    pins_eq := ?_, active_mem := ?_, active_held := hkeys }
  · intro hash' e' hget'
    obtain ⟨e'', hget'', heq⟩ := hold hget'
    obtain ⟨pages, hcovers⟩ := h.covers hget''
    rw [heq]
    exact ⟨pages, { hcovers with }⟩
  · intro hash' e' hget'
    obtain ⟨e'', hget'', heq⟩ := hold hget'
    have hst := h.stored hget''
    rw [heq]
    exact hst
  · intro hash' e' hget'
    obtain ⟨e'', hget'', heq⟩ := hold hget'
    have hnot := h.notMem hget''
    rw [heq]
    exact hnot
  · intro hash₁ e₁ hash₂ e₂ hget₁ hget₂ hsame
    obtain ⟨e₁', hget₁', heq₁⟩ := hold hget₁
    obtain ⟨e₂', hget₂', heq₂⟩ := hold hget₂
    rw [heq₁, heq₂] at hsame
    exact h.snapshot_inj hget₁' hget₂' hsame
  · intro hash' e' hget'
    rw [hcount]
    rw [Dict.get?_set] at hget'
    split at hget'
    case isTrue heq =>
      obtain rfl := Option.some.inj hget'
      rw [if_pos heq]
    case isFalse hne =>
      rw [if_neg hne]
      exact h.pins_eq hget'
  · intro hash' hmem
    rw [Dict.get?_set]
    split
    · exact ⟨_, rfl⟩
    case isFalse hne =>
      have hpos := List.count_pos_iff.mpr hmem
      rw [hcount, if_neg hne] at hpos
      exact h.active_mem hash' (List.count_pos_iff.mp hpos)

/-! ## Lookup and acquire -/

theorem lookupChain_eq_some {tokens : List Token} {chain : List (η × η × ℕ)}
    {best : Option (BlockEntry η)} {e : BlockEntry η}
    (h : c.lookupChain tokens chain best = some e) :
    best = some e ∨ ∃ x ∈ chain, c.entries.get? x.1 = some e ∧
      e.tokenPrefix = tokens.take e.cachedLength := by
  induction chain generalizing best with
  | nil => exact .inl h
  | cons x chain ih =>
      rw [lookupChain] at h
      split at h
      · exact .inl h
      rename_i entry hget
      split at h
      · exact .inl h
      rename_i hvalid
      rw [not_or, not_not, not_not] at hvalid
      rcases ih h with heq | ⟨y, hy, hfound⟩
      · obtain rfl := Option.some.inj heq
        exact .inr ⟨x, List.mem_cons_self, hget, hvalid.2⟩
      · exact .inr ⟨y, List.mem_cons_of_mem _ hy, hfound⟩

/-- A lookup finds an entry whose tokens start the prompt and do not end it. -/
theorem lookup_eq_some (h : Indexes Stored c s held) {tokens : List Token} {e : BlockEntry η}
    (hlookup : c.lookup tokens = some e) :
    c.entries.get? e.blockHash = some e ∧
      Grant Stored s held c.pageSize tokens e.cacheHandle e.cachedLength := by
  rw [lookup] at hlookup
  split at hlookup
  · cases hlookup
  rename_i hmax
  have hle : maxReusable c.pageSize tokens ≤ tokens.length - 1 := Nat.div_mul_le_self _ _
  rcases lookupChain_eq_some hlookup with hnone | ⟨x, hx, hget, htokens⟩
  · cases hnone
  obtain ⟨pages, hcovers⟩ := h.covers hget
  have hhash := hcovers.hash_eq
  have hdiv : maxReusable c.pageSize tokens / c.pageSize = (tokens.length - 1) / c.pageSize :=
    Nat.mul_div_cancel _ h.pageSize_pos
  rw [hashChain_take (by omega), hdiv] at hx
  obtain ⟨i, hi, rfl⟩ := List.mem_map.mp hx
  have hi : i < (tokens.length - 1) / c.pageSize := List.mem_range.mp hi
  -- the chain of the entry has this hash at its end only, so the entry ends by page `i + 1`
  have hpages : pages ≤ i + 1 := by
    by_contra hlt
    refine hcovers.first (i + 1) (Nat.succ_pos _) (not_le.mp hlt) ?_
    refine chainHash_congr ?_
    rw [htokens, List.take_take, min_eq_left]
    rw [hcovers.cachedLength_eq]
    exact Nat.mul_le_mul_right _ (not_le.mp hlt).le
  have hlength : e.cachedLength ≤ maxReusable c.pageSize tokens := by
    rw [hcovers.cachedLength_eq]
    exact Nat.mul_le_mul_right _ (by omega)
  refine ⟨hhash.symm ▸ hget, htokens ▸ h.stored hget, h.notMem hget, ?_, ?_, by omega⟩
  · exact hcovers.cachedLength_eq ▸ Dvd.intro_left _ rfl
  · rw [hcovers.cachedLength_eq]
    exact Nat.mul_pos hcovers.pos h.pageSize_pos

/-- **`acquire`** never raises: it either gives nothing, or forks a live snapshot of a
proper prefix of the prompt, and pins it. -/
theorem acquire_cases (hlaws : StoredLaws Stored) (h : Indexes Stored c s held) (hs : s.Wf)
    (hfresh : s.nextHandle ∉ held) (requestId : ρ) (tokens : List Token) (probe : PrefixProbe) :
    (∃ c', c.acquire s requestId tokens probe = (.ok none, c', s) ∧ Indexes Stored c' s held) ∨
    ∃ snapshot n pages c', c.acquire s requestId tokens probe =
        (.ok (some ⟨s.nextHandle, n, n, pages⟩), c', s.forked snapshot requestId n) ∧
      Grant Stored s held c.pageSize tokens snapshot n ∧
      Indexes Stored c' (s.forked snapshot requestId n) (insert s.nextHandle held) ∧
      c'.snapshotOf s.nextHandle = some snapshot := by
  rw [acquire]
  split
  · exact .inl ⟨c, rfl, h⟩
  rw [lookupTouch]
  cases hlookup : c.lookup tokens with
  | none => exact .inl ⟨c, rfl, h⟩
  | some e =>
      obtain ⟨hget, hgrant⟩ := h.lookup_eq_some hlookup
      have htouched : Indexes Stored { c.tick.2 with
          entries := c.entries.set e.blockHash { e with lastUsed := c.tick.1, pins := e.pins } }
          s held := by
        have hsame := h.repin hget c.tick.1 e.pins c.activeHandles (fun x => ?_) h.active_held
        · exact { hsame with }
        · split
          case isTrue heq => rw [heq, h.pins_eq hget]
          case isFalse => rfl
      by_cases hprobe : some e.cacheHandle = probe.cacheHandle
      case neg =>
        dsimp only
        rw [if_pos hprobe]
        exact .inl ⟨_, rfl, htouched⟩
      have hlen : e.cachedLength ≤ (s.cacheOf e.cacheHandle).length := by
        have := hlaws.length_le hgrant.stored
        rw [List.length_take, min_eq_left hgrant.lt.le] at this
        exact this
      dsimp only
      rw [if_neg (not_not.mpr hprobe),
        PagedKVCacheBackend.fork_of_mem (hlaws.live hgrant.stored) hlen]
      refine .inr ⟨e.cacheHandle, e.cachedLength, e.pages, _, rfl, hgrant, ?_, ?_⟩
      · have hactive : s.nextHandle ∉ c.activeHandles.keys :=
          fun hmem => hfresh (h.active_held _ hmem)
        have hforked := htouched.addCache hlaws hs requestId
          ((s.cacheOf e.cacheHandle).blockTable.take
            (pagesFor s.pageSize e.cachedLength)) e.cachedLength
        refine hforked.repin (Dict.get?_set_self _ _) c.tick.1 (e.pins + 1)
          (c.activeHandles.set s.nextHandle e.blockHash) (fun x => ?_) fun k hk => ?_
        · rw [Dict.count_values_set hactive]
          split
          case isTrue heq => rw [heq, h.pins_eq hget]
          case isFalse => rfl
        · rcases Dict.mem_keys_set.mp hk with rfl | hk
          · exact Finset.mem_insert_self _ _
          · exact Finset.mem_insert_of_mem (h.active_held k hk)
      · simp [snapshotOf]

/-! ## Eviction -/

/-- An unpinned entry may be taken out of the index. -/
theorem pop (h : Indexes Stored c s held) {hash : η} {e : BlockEntry η}
    (hget : c.entries.get? hash = some e) (hpins : e.pins = 0) :
    Indexes Stored { c with entries := c.entries.pop hash } s held := by
  have hold : ∀ {hash' e'}, (c.entries.pop hash).get? hash' = some e' →
      c.entries.get? hash' = some e' := by
    intro hash' e' hget'
    rw [Dict.get?_pop] at hget'
    split at hget'
    · cases hget'
    · exact hget'
  refine { h with
    covers := fun hget' => h.covers (hold hget')
    stored := fun hget' => h.stored (hold hget')
    notMem := fun hget' => h.notMem (hold hget')
    snapshot_inj := fun hget₁ hget₂ => h.snapshot_inj (hold hget₁) (hold hget₂)
    pins_eq := fun hget' => h.pins_eq (hold hget')
    active_mem := fun hash' hmem => ?_ }
  obtain ⟨e', hget'⟩ := h.active_mem hash' hmem
  refine ⟨e', ?_⟩
  rw [Dict.get?_pop, if_neg]
  · exact hget'
  · rintro rfl
    have := List.count_pos_iff.mpr hmem
    rw [← h.pins_eq hget] at this
    omega

theorem evictRounds_eq (hlaws : StoredLaws Stored) (h : Indexes Stored c s held) (hs : s.Wf)
    (protected_ : Option η) (rounds : ℕ) :
    ∃ c' s', evictRounds protected_ rounds c s = (.ok (), c', s') ∧ Shares held s s' ∧
      Indexes Stored c' s' held ∧ c'.activeHandles = c.activeHandles := by
  induction rounds generalizing c s with
  | zero => exact ⟨c, s, rfl, .refl, h, rfl⟩
  | succ rounds ih =>
      rw [evictRounds]
      by_cases hover : c.OverLimits
      case neg => exact ⟨c, s, by rw [if_neg hover], .refl, h, rfl⟩
      rw [if_pos hover]
      cases hvictim : c.victim protected_ with
      | none => exact ⟨c, s, rfl, .refl, h, rfl⟩
      | some e =>
          have hmem := mem_of_firstMin hvictim
          rw [List.mem_filter, Dict.mem_values] at hmem
          obtain ⟨⟨hash, hentry⟩, hfree⟩ := hmem
          have hpins : e.pins = 0 := by simpa using (of_decide_eq_true hfree).1
          have hget := Dict.get?_eq_some.mpr hentry
          obtain ⟨pages, hcovers⟩ := h.covers hget
          have hlive := hlaws.live (h.stored hget)
          have hnext : Indexes Stored { c with entries := c.entries.pop hash }
              (s.released e.cacheHandle) held := by
            refine { h.pop hget hpins with stored := fun {hash' e'} hget' => ?_ }
            refine hlaws.released ((h.pop hget hpins).stored hget') fun hsame => ?_
            rw [Dict.get?_pop] at hget'
            split at hget'
            · cases hget'
            case isFalse hne => exact hne (h.snapshot_inj hget hget' hsame).symm
          obtain ⟨c', s', heq, hshares, hindexes, hactive⟩ :=
            ih hnext (PagedKVCacheBackend.wf_released hs hlive)
          refine ⟨c', s', ?_, ?_, hindexes, hactive⟩
          · dsimp only
            rw [hcovers.hash_eq, PagedKVCacheBackend.release_of_mem hs hlive]
            exact heq
          · exact (Shares.refl.released hlive (h.notMem hget)).trans hshares

/-! ## Publish and release -/

/-- A snapshot of a chain that the index does not have yet. -/
theorem insert_entry (hlaws : StoredLaws Stored) (h : Indexes Stored c s held) (hs : s.Wf)
    (hash : η) (e : BlockEntry η) (pages : ℕ) (hnew : hash ∉ c.entries.keys)
    (hcovers : Covers c.chainHash c.pageSize hash e pages) (hpins : e.pins = 0)
    {source : Handle} {tokens : List Token} (hst : Stored s source tokens)
    (hle : e.cachedLength ≤ tokens.length) (requestId : ρ)
    (hhandle : e.cacheHandle = s.nextHandle) (htokens₀ : e.tokenPrefix = tokens.take e.cachedLength)
    (hfresh : s.nextHandle ∉ held) :
    Indexes Stored { c with entries := c.entries.set hash e }
      (s.forked source requestId e.cachedLength) held := by
  have hcases : ∀ {hash' e'}, (c.entries.set hash e).get? hash' = some e' →
      hash' = hash ∧ e' = e ∨ hash' ≠ hash ∧ c.entries.get? hash' = some e' := by
    intro hash' e' hget'
    rw [Dict.get?_set] at hget'
    split at hget'
    case isTrue heq => exact .inl ⟨heq, (Option.some.inj hget').symm⟩
    case isFalse hne => exact .inr ⟨hne, hget'⟩
  have hne : ∀ {hash' e'}, c.entries.get? hash' = some e' → e'.cacheHandle ≠ e.cacheHandle := by
    intro hash' e' hget' heq
    refine absurd (hs.fresh _ (hlaws.live (h.stored hget'))) ?_
    rw [heq, hhandle]
    exact lt_irrefl _
  refine {
    pageSize_pos := h.pageSize_pos, covers := ?_, stored := ?_, notMem := ?_, snapshot_inj := ?_,
    pins_eq := ?_, active_mem := ?_, active_held := h.active_held }
  · intro hash' e' hget'
    rcases hcases hget' with ⟨rfl, rfl⟩ | ⟨-, hget'⟩
    · exact ⟨pages, hcovers⟩
    · exact h.covers hget'
  · intro hash' e' hget'
    rcases hcases hget' with ⟨rfl, rfl⟩ | ⟨-, hget'⟩
    · rw [hhandle, htokens₀]
      exact hlaws.forked hs hst requestId hle
    · exact hlaws.addCache hs (h.stored hget') _ _ _
  · intro hash' e' hget'
    rcases hcases hget' with ⟨rfl, rfl⟩ | ⟨-, hget'⟩
    · rwa [hhandle]
    · exact h.notMem hget'
  · intro hash₁ e₁ hash₂ e₂ hget₁ hget₂ hsame
    rcases hcases hget₁ with ⟨rfl, rfl⟩ | ⟨-, hold₁⟩ <;>
      rcases hcases hget₂ with ⟨rfl, rfl⟩ | ⟨-, hold₂⟩
    · rfl
    · exact absurd hsame.symm (hne hold₂)
    · exact absurd hsame (hne hold₁)
    · exact h.snapshot_inj hold₁ hold₂ hsame
  · intro hash' e' hget'
    rcases hcases hget' with ⟨rfl, rfl⟩ | ⟨-, hget'⟩
    · rw [hpins, eq_comm, List.count_eq_zero]
      intro hmem
      obtain ⟨e'', hget''⟩ := h.active_mem _ hmem
      exact hnew (Dict.mem_keys.mpr ⟨e'', Dict.get?_eq_some.mp hget''⟩)
    · exact h.pins_eq hget'
  · intro hash' hmem
    rw [Dict.get?_set]
    split
    · exact ⟨e, rfl⟩
    · exact h.active_mem hash' hmem

/-- The chain a publish walks: the pages from `start` on. -/
def chainPart (c : BlockHashPrefixCache ρ η) (tokens : List Token) (start pages : ℕ) :
    List (η × η × ℕ) :=
  (List.range' start pages).map fun i =>
    (c.chainHash tokens (i + 1), c.chainHash tokens i, (i + 1) * c.pageSize)

/-- The loop of `publish` adds a snapshot for every page without an entry.  The pages
before `start` have entries, so a new hash is met for the first time on its chain. -/
theorem publishChain_eq (hlaws : StoredLaws Stored) (h : Indexes Stored c s held) (hs : s.Wf)
    (hheld : ∀ x ∈ held, x < s.nextHandle) {handle : Handle} {tokens : List Token} {n : ℕ}
    (hst : Stored s handle (tokens.take n)) (now : ℕ) {start pages : ℕ} (published : ℕ)
    (hle : (start + pages) * c.pageSize ≤ min n tokens.length)
    (hbefore : ∀ i, 0 < i → i ≤ start → c.chainHash tokens i ∈ c.entries.keys) :
    ∃ last c' s', publishChain handle tokens now (chainPart c tokens start pages) published c s =
        (.ok last, c', s') ∧ Shares held s s' ∧ Indexes Stored c' s' held := by
  induction pages generalizing c s start published with
  | zero => exact ⟨published, c, s, rfl, .refl, h⟩
  | succ pages ih =>
      rw [chainPart, List.range'_succ, List.map_cons, publishChain, ← chainPart]
      have hstart : (start + 1) * c.pageSize ≤ (start + (pages + 1)) * c.pageSize :=
        Nat.mul_le_mul_right _ (by omega)
      have hnext : (start + 1 + pages) * c.pageSize ≤ min n tokens.length := by
        rwa [Nat.add_right_comm, Nat.add_assoc]
      by_cases hnew : c.chainHash tokens (start + 1) ∈ c.entries.keys
      · rw [if_pos hnew]
        refine ih h hs hheld hst published hnext fun i hpos hi => ?_
        rcases Nat.lt_or_ge start i with hlt | hge
        · obtain rfl : i = start + 1 := by omega
          exact hnew
        · exact hbefore i hpos hge
      · rw [if_neg hnew]
        have hlength : (start + 1) * c.pageSize ≤ (tokens.take n).length := by
          exact (hstart.trans hle).trans_eq (List.length_take ..).symm
        have hmin := le_min_iff.mp (hstart.trans hle)
        have hlen := hlength.trans (hlaws.length_le hst)
        have htokens₀ : ∀ i ≤ start + 1,
            c.chainHash (tokens.take ((start + 1) * c.pageSize)) i = c.chainHash tokens i := by
          intro i hi
          refine chainHash_congr ?_
          rw [List.take_take, min_eq_left (Nat.mul_le_mul_right _ hi)]
        rw [PagedKVCacheBackend.fork_of_mem (hlaws.live hst) hlen]
        have hinsert := h.insert_entry hlaws hs (c.chainHash tokens (start + 1)) {
            blockHash := c.chainHash tokens (start + 1)
            parentHash := c.chainHash tokens start
            tokenPrefix := tokens.take ((start + 1) * c.pageSize)
            compatibilityDigest := c.compatibilityDigest
            cacheHandle := s.nextHandle
            cachedLength := (start + 1) * c.pageSize
            pages := (start + 1) * c.pageSize / c.pageSize
            bytes := bytesForPages s 1
            lastUsed := now } (start + 1) hnew ?_ rfl hst hlength
          (c.snapshotId (c.chainHash tokens (start + 1))) rfl ?_
          fun hmem => lt_irrefl _ (hheld _ hmem)
        · have hbefore' : ∀ e i, 0 < i → i ≤ start + 1 → c.chainHash tokens i ∈
              (c.entries.set (c.chainHash tokens (start + 1)) e).keys := by
            intro e i hpos hi
            rw [Dict.mem_keys_set]
            rcases Nat.lt_or_ge start i with hlt | hge
            · obtain rfl : i = start + 1 := by omega
              exact .inl rfl
            · exact .inr (hbefore i hpos hge)
          obtain ⟨last, c', s', heq, hshares, hindexes⟩ := ih hinsert
            (PagedKVCacheBackend.wf_fork hs _ (hlaws.live hst) hlen)
            (fun x hx => Nat.lt_succ_of_lt (hheld x hx)) (hlaws.addCache hs hst _ _ _)
            ((start + 1) * c.pageSize) hnext (hbefore' _)
          exact ⟨last, c', s', heq, (Shares.refl.forked (hlaws.live hst) _ hlen).trans hshares,
            hindexes⟩
        · refine ⟨rfl, Nat.succ_pos _, rfl, List.length_take_of_le hmin.2, htokens₀ _ le_rfl,
            fun i hpos hi heq => hnew ?_⟩
          · rw [← heq, htokens₀ i hi.le]
            exact hbefore i hpos (Nat.lt_succ_iff.mp hi)
        · rw [List.take_take]
          exact congrArg tokens.take (min_eq_left hmin.1).symm

/-- **`publish`** never raises on a cache that holds the tokens it publishes. -/
theorem publish_eq (hlaws : StoredLaws Stored) (h : Indexes Stored c s held) (hs : s.Wf)
    (hheld : ∀ x ∈ held, x < s.nextHandle) {handle : Handle} {tokens : List Token} {n : ℕ}
    (hst : Stored s handle (tokens.take n)) :
    ∃ publication c' s', c.publish s handle tokens n = (.ok publication, c', s') ∧
      Shares held s s' ∧ Indexes Stored c' s' held := by
  rw [publish]
  dsimp only
  split
  · exact ⟨_, c, s, rfl, .refl, h⟩
  have hchain : (c.hashChain (tokens.take
        (min n tokens.length / c.pageSize * c.pageSize))).take (c.publishableChainPages s) =
      chainPart c tokens 0
        (min (c.publishableChainPages s) (min n tokens.length / c.pageSize)) := by
    have hle : min n tokens.length / c.pageSize * c.pageSize ≤ tokens.length :=
      (Nat.div_mul_le_self _ _).trans (min_le_right _ _)
    rw [hashChain_take hle, Nat.mul_div_cancel _ h.pageSize_pos, ← List.map_take,
      List.take_range, List.range_eq_range', chainPart]
  rw [hchain]
  have hle : (0 + min (c.publishableChainPages s) (min n tokens.length / c.pageSize)) *
      c.pageSize ≤ min n tokens.length := by
    rw [Nat.zero_add]
    exact (Nat.mul_le_mul_right _ (min_le_right _ _)).trans (Nat.div_mul_le_self _ _)
  have hticked : Indexes Stored c.tick.2 s held := { h with }
  obtain ⟨last, c₁, s₁, heq, hshares, hindexes⟩ := hticked.publishChain_eq hlaws hs hheld hst
    c.tick.1 0 hle fun i hpos hi => absurd hi (by omega)
  have heq : publishChain handle tokens c.tick.1 (chainPart c tokens 0
      (min (c.publishableChainPages s) (min n tokens.length / c.pageSize))) 0 c.tick.2 s =
      (.ok last, c₁, s₁) := heq
  rw [heq]
  dsimp only
  generalize some (List.getLastD _ _) = protected_
  obtain ⟨c₂, s₂, hevict, hshares', hindexes', -⟩ := hindexes.evictRounds_eq hlaws
    (hshares.wf hs) protected_ c₁.entries.keys.length
  rw [evictUntilWithinLimits, hevict]
  exact ⟨_, c₂, s₂, rfl, hshares.trans hshares', hindexes'⟩

/-- A handle that is not active need not be held. -/
theorem unhold (h : Indexes Stored c s held) {handle : Handle}
    (hnot : handle ∉ c.activeHandles.keys) : Indexes Stored c s (held.erase handle) :=
  { h with
    notMem := fun hget hmem => h.notMem hget (Finset.mem_of_mem_erase hmem)
    active_held := fun x hx => Finset.mem_erase.mpr
      ⟨fun heq => hnot (heq ▸ hx), h.active_held x hx⟩ }

/-- **`release`** never raises: the handle is no longer active. -/
theorem release_eq (hlaws : StoredLaws Stored) (h : Indexes Stored c s held) (hs : s.Wf)
    (handle : Handle) :
    ∃ c' s', c.release s (some handle) = (.ok (), c', s') ∧ Shares held s s' ∧
      Indexes Stored c' s' held ∧ handle ∉ c'.activeHandles.keys := by
  rw [release]
  dsimp only
  cases hactive : c.activeHandles.get? handle with
  | none => exact ⟨c, s, rfl, .refl, h, Dict.get?_eq_none.mp hactive⟩
  | some hash =>
      obtain ⟨e, hget⟩ := h.active_mem hash
        (Dict.mem_values.mpr ⟨handle, Dict.get?_eq_some.mp hactive⟩)
      have hunpinned := h.repin hget e.lastUsed (e.pins - 1) (c.activeHandles.pop handle)
        (fun x => ?_) fun k hk => h.active_held k (Dict.mem_keys_pop.mp hk).2
      · obtain ⟨c', s', heq, hshares, hindexes, hsame⟩ := Indexes.evictRounds_eq hlaws
          hunpinned hs none (c.entries.set hash { e with pins := e.pins - 1 }).keys.length
        refine ⟨c', s', ?_, hshares, hindexes, ?_⟩
        · dsimp only
          rw [hget]
          exact heq
        · rw [hsame]
          exact fun hmem => (Dict.mem_keys_pop.mp hmem).1 rfl
      · have hcount := Dict.count_values_pop hactive x
        rw [h.pins_eq hget]
        split
        case isTrue heq => rw [heq] at hcount ⊢; simp at hcount; omega
        case isFalse hne => simpa [hne] using hcount.symm

/-- A handle that is not active may be released. -/
theorem release_of_notMem (h : Indexes Stored c s held) {handle : Handle} (hnot : handle ∉ held) :
    c.release s (some handle) = (.ok (), c, s) := by
  have hnone := Dict.get?_eq_none.mpr fun hmem => hnot (h.active_held handle hmem)
  rw [release]
  dsimp only
  rw [hnone]

end Indexes
end BlockHashPrefixCache
end MlxRuntime
