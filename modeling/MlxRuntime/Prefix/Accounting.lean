import MlxRuntime.Prefix.BlockHashReach
import MlxRuntime.Prefix.RadixIndex

/-!
# The bytes of a prefix index

An index charges one page for each of its entries, however many pages its snapshot refers to: the
others are taken to be those of shorter entries.  The charge covers the pages in every run in which
a stored snapshot brings in one page at most and an evicted one takes a page along.

## Main definitions

* `PagedKVCacheBackend.pagesOf`, `newPages`, `ownPages` — the pages of snapshots.
* `PagedKVCacheBackend.Covered` — no more pages than snapshots.
* `BlockHashPrefixCache.Charged`, `RadixPrefixCache.Charged` — what a run keeps.
* `PrefixStore.ChargesPages` — the condition on a call.
-/

namespace MlxRuntime

variable {ρ κ η : Type}

namespace PagedKVCacheBackend

variable {s s' : PagedKVCacheBackend ρ κ} {snapshots : Finset Handle}

/-- The pages that some caches refer to. -/
def pagesOf (s : PagedKVCacheBackend ρ κ) (snapshots : Finset Handle) : Finset Page :=
  snapshots.biUnion fun h => (s.cacheOf h).blockTable.toFinset

/-- The pages of the first rows of a cache that no snapshot refers to. -/
def newPages (s : PagedKVCacheBackend ρ κ) (snapshots : Finset Handle) (handle : Handle)
    (length : ℕ) : Finset Page :=
  ((s.cacheOf handle).blockTable.take (pagesFor s.pageSize length)).toFinset \ s.pagesOf snapshots

/-- The pages of a snapshot that no other one refers to. -/
def ownPages (s : PagedKVCacheBackend ρ κ) (snapshots : Finset Handle) (handle : Handle) :
    Finset Page :=
  (s.cacheOf handle).blockTable.toFinset \ s.pagesOf (snapshots.erase handle)

/-- The snapshots are live, and refer to no more pages than there are snapshots. -/
structure Covered (s : PagedKVCacheBackend ρ κ) (snapshots : Finset Handle) : Prop where
  wf : s.Wf
  live : ∀ h ∈ snapshots, h ∈ s.caches
  card_le : (s.pagesOf snapshots).card ≤ snapshots.card

theorem cacheOf_addCache_self (s : PagedKVCacheBackend ρ κ) (requestId : ρ) (table : List Page)
    (length : ℕ) : ((s.addCache requestId table length).cacheOf s.nextHandle).blockTable = table := by
  simp [addCache]

theorem cacheOf_addCache_of_ne {x : Handle} (hne : x ≠ s.nextHandle) (requestId : ρ)
    (table : List Page) (length : ℕ) :
    (s.addCache requestId table length).cacheOf x = s.cacheOf x := Function.update_of_ne hne _ _

theorem pagesOf_congr (h : ∀ x ∈ snapshots, (s'.cacheOf x).blockTable = (s.cacheOf x).blockTable) :
    s'.pagesOf snapshots = s.pagesOf snapshots :=
  Finset.biUnion_congr rfl fun x hx => by rw [h x hx]

namespace Covered

/-- What happens to other caches does not matter. -/
theorem frame (h : s.Covered snapshots) (hwf : s'.Wf)
    (hkept : ∀ x ∈ snapshots, x ∈ s'.caches ∧
      (s'.cacheOf x).blockTable = (s.cacheOf x).blockTable) : s'.Covered snapshots where
  wf := hwf
  live x hx := (hkept x hx).1
  card_le := by
    rw [pagesOf_congr fun x hx => (hkept x hx).2]
    exact h.card_le

theorem addCache (h : s.Covered snapshots) {requestId : ρ} {table : List Page} {length : ℕ}
    (hwf : (s.addCache requestId table length).Wf) :
    (s.addCache requestId table length).Covered snapshots := by
  refine h.frame hwf fun x hx => ?_
  have hlive := h.live x hx
  have hne : x ≠ s.nextHandle := ne_of_lt (h.wf.fresh x hlive)
  exact ⟨Finset.mem_insert_of_mem hlive, congrArg _ (cacheOf_addCache_of_ne hne _ _ _)⟩

/-- A fork for a request. -/
theorem fork (h : s.Covered snapshots) (handle : Handle) (requestId : ρ) (length : Option ℤ) :
    (s.fork handle requestId length).2.Covered snapshots := by
  rcases s.fork_cases handle requestId length with ⟨e, -, heq⟩ | ⟨hlive, hn, heq⟩
  · rw [heq]
    exact h
  · rw [heq]
    exact h.addCache (wf_fork h.wf requestId hlive hn)

/-- A fork that becomes a snapshot, and brings in one page at most. -/
theorem store (h : s.Covered snapshots) {handle : Handle} (requestId : ρ) {n : ℕ}
    (hlive : handle ∈ s.caches) (hn : n ≤ (s.cacheOf handle).length)
    (hnew : (s.newPages snapshots handle n).card ≤ 1) :
    (s.forked handle requestId n).Covered (insert s.nextHandle snapshots) := by
  have hwf := wf_fork h.wf requestId hlive hn
  have hkept := h.addCache hwf
  have hfresh : s.nextHandle ∉ snapshots :=
    fun hmem => lt_irrefl _ (h.wf.fresh _ (h.live _ hmem))
  refine ⟨hwf, fun x hx => ?_, ?_⟩
  · rcases Finset.mem_insert.mp hx with rfl | hx
    · exact Finset.mem_insert_self _ _
    · exact hkept.live x hx
  have hold : (s.forked handle requestId n).pagesOf snapshots = s.pagesOf snapshots := by
    refine pagesOf_congr fun x hx => ?_
    have hne : x ≠ s.nextHandle := ne_of_lt (h.wf.fresh x (h.live x hx))
    exact congrArg _ (cacheOf_addCache_of_ne hne _ _ _)
  have hpages : (s.forked handle requestId n).pagesOf (insert s.nextHandle snapshots) =
      s.newPages snapshots handle n ∪ s.pagesOf snapshots := by
    rw [pagesOf, Finset.biUnion_insert, ← pagesOf, hold, newPages, Finset.sdiff_union_self_eq_union,
      forked, cacheOf_addCache_self]
  rw [hpages, Finset.card_insert_of_notMem hfresh]
  have hunion := Finset.card_union_le (s.newPages snapshots handle n) (s.pagesOf snapshots)
  have hle := h.card_le
  omega

/-- A snapshot that is dropped, and takes a page along. -/
theorem drop (h : s.Covered snapshots) {handle : Handle} (hmem : handle ∈ snapshots)
    (hown : (s.ownPages snapshots handle).Nonempty) :
    (s.released handle).Covered (snapshots.erase handle) := by
  refine ⟨wf_released h.wf (h.live handle hmem), fun x hx => ?_, ?_⟩
  · rw [Finset.mem_erase] at hx
    exact Finset.mem_erase.mpr ⟨hx.1, h.live x hx.2⟩
  have hpages : s.pagesOf snapshots =
      s.ownPages snapshots handle ∪ s.pagesOf (snapshots.erase handle) := by
    conv_lhs => rw [← Finset.insert_erase hmem, pagesOf, Finset.biUnion_insert, ← pagesOf]
    rw [ownPages, Finset.sdiff_union_self_eq_union]
  have hdisjoint : Disjoint (s.ownPages snapshots handle) (s.pagesOf (snapshots.erase handle)) :=
    Finset.sdiff_disjoint
  have hcard := congrArg Finset.card hpages
  rw [Finset.card_union_of_disjoint hdisjoint] at hcard
  have hpos := Finset.card_pos.mpr hown
  have hle := h.card_le
  have hsame : (s.released handle).pagesOf (snapshots.erase handle) =
      s.pagesOf (snapshots.erase handle) := pagesOf_congr fun x _ => rfl
  rw [hsame, Finset.card_erase_of_mem hmem]
  omega

/-- A cache that is no snapshot is released. -/
theorem release (h : s.Covered snapshots) {handle : Handle} (hnot : handle ∉ snapshots) :
    (s.release (some handle)).2.Covered snapshots := by
  by_cases hlive : handle ∈ s.caches
  · rw [release_of_mem h.wf hlive]
    refine h.frame (wf_released h.wf hlive) fun x hx => ⟨?_, rfl⟩
    exact Finset.mem_erase.mpr ⟨fun heq => hnot (heq ▸ hx), h.live x hx⟩
  · rw [release_of_notMem hlive]
    exact h

end Covered

/-- A fork of the first `n` rows raises and changes nothing, or adds a cache. -/
theorem fork_take_cases (s : PagedKVCacheBackend ρ κ) (handle : Handle) (requestId : ρ) (n : ℕ) :
    (∃ e, s.fork handle requestId (some (n : ℤ)) = (.error e, s)) ∨
    (handle ∈ s.caches ∧ n ≤ (s.cacheOf handle).length ∧
      s.fork handle requestId (some (n : ℤ)) = (.ok s.nextHandle, s.forked handle requestId n)) := by
  rcases s.fork_cases handle requestId (some (n : ℤ)) with ⟨e, -, heq⟩ | ⟨hlive, hn, heq⟩
  · exact .inl ⟨e, heq⟩
  · rw [show s.forkLength handle (some (n : ℤ)) = n by simp [forkLength]] at hn heq
    exact .inr ⟨hlive, hn, heq⟩

theorem bytesPerPage_release (s : PagedKVCacheBackend ρ κ) (handle : Option Handle) :
    (s.release handle).2.bytesPerPage = s.bytesPerPage := by
  rw [release.eq_def]
  split
  · rfl
  · split
    · rfl
    · split <;> rfl

end PagedKVCacheBackend

open PagedKVCacheBackend (Covered LongEnough storedLaws_length)

/-! ## The block-hash index -/

namespace BlockHashPrefixCache

variable [DecidableEq η] {c c' : BlockHashPrefixCache ρ η} {s s' : PagedKVCacheBackend ρ κ}

/-- The stored snapshots. -/
def snapshots (c : BlockHashPrefixCache ρ η) : Finset Handle :=
  (c.entries.values.map BlockEntry.cacheHandle).toFinset

/-- The loop of `publish` stores snapshots that bring in one page at most. -/
def AddsPages (handle : Handle) (tokens : List Token) (now : ℕ) :
    List (η × η × ℕ) → BlockHashPrefixCache ρ η → PagedKVCacheBackend ρ κ → Prop
  | [], _, _ => True
  | block :: rest, c, s =>
      (block.1 ∉ c.entries.keys → (s.newPages c.snapshots handle block.2.2).card ≤ 1) ∧
        AddsPages handle tokens now rest (publishChain handle tokens now [block] 0 c s).2.1
          (publishChain handle tokens now [block] 0 c s).2.2

instance AddsPages.decidable (handle : Handle) (tokens : List Token) (now : ℕ) :
    ∀ (chain : List (η × η × ℕ)) (c : BlockHashPrefixCache ρ η) (s : PagedKVCacheBackend ρ κ),
      Decidable (AddsPages handle tokens now chain c s)
  | [], _, _ => inferInstanceAs (Decidable True)
  | block :: rest, c, s =>
      have := AddsPages.decidable handle tokens now rest
        (publishChain handle tokens now [block] 0 c s).2.1
        (publishChain handle tokens now [block] 0 c s).2.2
      inferInstanceAs (Decidable ((_ → _) ∧ _))

/-- The rounds of `_evict_until_within_limits` drop snapshots that take a page along. -/
def FreesPages (protected_ : Option η) :
    ℕ → BlockHashPrefixCache ρ η → PagedKVCacheBackend ρ κ → Prop
  | 0, _, _ => True
  | rounds + 1, c, s => c.OverLimits → ∀ entry ∈ c.victim protected_,
      (s.ownPages c.snapshots entry.cacheHandle).Nonempty ∧
        FreesPages protected_ rounds { c with entries := c.entries.pop entry.blockHash }
          (s.release (some entry.cacheHandle)).2

instance FreesPages.decidable (protected_ : Option η) :
    ∀ (rounds : ℕ) (c : BlockHashPrefixCache ρ η) (s : PagedKVCacheBackend ρ κ),
      Decidable (FreesPages protected_ rounds c s)
  | 0, _, _ => inferInstanceAs (Decidable True)
  | rounds + 1, c, s =>
      have := fun (c : BlockHashPrefixCache ρ η) (s : PagedKVCacheBackend ρ κ) =>
        FreesPages.decidable protected_ rounds c s
      inferInstanceAs (Decidable (c.OverLimits → ∀ entry ∈ c.victim protected_,
        (s.ownPages c.snapshots entry.cacheHandle).Nonempty ∧
          FreesPages protected_ rounds { c with entries := c.entries.pop entry.blockHash }
            (s.release (some entry.cacheHandle)).2))

/-- What a run keeps: the snapshots are covered, and every entry is charged a page. -/
structure Charged (c : BlockHashPrefixCache ρ η) (s : PagedKVCacheBackend ρ κ) : Prop where
  covered : s.Covered c.snapshots
  nodup : (c.entries.values.map BlockEntry.cacheHandle).Nodup
  hash_eq : ∀ {hash e}, c.entries.get? hash = some e → e.blockHash = hash
  bytes_eq : ∀ {hash e}, c.entries.get? hash = some e → e.bytes = s.bytesPerPage

namespace Charged

/-- An entry may be touched and pinned. -/
theorem update (h : Charged c s) {hash : η} {e : BlockEntry η}
    (hget : c.entries.get? hash = some e) (lastUsed pins : ℕ) :
    Charged { c with
      entries := c.entries.set hash { e with lastUsed := lastUsed, pins := pins } } s := by
  have hsame : (c.entries.set hash { e with lastUsed := lastUsed, pins := pins }).values.map
      BlockEntry.cacheHandle = c.entries.values.map BlockEntry.cacheHandle :=
    Dict.map_values_set hget rfl
  have hold : ∀ {x y}, (c.entries.set hash { e with lastUsed := lastUsed, pins := pins }).get? x =
      some y → ∃ z, c.entries.get? x = some z ∧ y.blockHash = z.blockHash ∧ y.bytes = z.bytes := by
    intro x y hx
    rw [Dict.get?_set] at hx
    split at hx
    case isTrue heq =>
      obtain rfl := Option.some.inj hx
      exact ⟨e, heq ▸ hget, rfl, rfl⟩
    case isFalse => exact ⟨y, hx, rfl, rfl⟩
  refine ⟨?_, ?_, fun hx => ?_, fun hx => ?_⟩
  · rw [snapshots, hsame]
    exact h.covered
  · rw [hsame]
    exact h.nodup
  · obtain ⟨z, hz, heq, -⟩ := hold hx
    rw [heq]
    exact h.hash_eq hz
  · obtain ⟨z, hz, -, heq⟩ := hold hx
    rw [heq]
    exact h.bytes_eq hz

/-- The store may change below the index. -/
theorem frame (h : Charged c s) (hcovered : s'.Covered c.snapshots)
    (hbytes : s'.bytesPerPage = s.bytesPerPage) : Charged c s' where
  covered := hcovered
  nodup := h.nodup
  hash_eq := h.hash_eq
  bytes_eq hget := (h.bytes_eq hget).trans hbytes.symm

/-- A new entry, whose snapshot brings in one page at most. -/
theorem store (h : Charged c s) {handle : Handle} (requestId : ρ) {hash : η} {e : BlockEntry η}
    {n : ℕ} (hnew : hash ∉ c.entries.keys) (hlive : handle ∈ s.caches)
    (hn : n ≤ (s.cacheOf handle).length) (hpages : (s.newPages c.snapshots handle n).card ≤ 1)
    (hhash : e.blockHash = hash) (hhandle : e.cacheHandle = s.nextHandle)
    (hbytes : e.bytes = s.bytesPerPage) :
    Charged { c with entries := c.entries.set hash e } (s.forked handle requestId n) := by
  have hvalues : (c.entries.set hash e).values.map BlockEntry.cacheHandle =
      c.entries.values.map BlockEntry.cacheHandle ++ [s.nextHandle] := by
    rw [Dict.values_set_of_notMem hnew, List.map_append, List.map_cons, List.map_nil, hhandle]
  have hfresh : s.nextHandle ∉ c.snapshots :=
    fun hmem => lt_irrefl _ (h.covered.wf.fresh _ (h.covered.live _ hmem))
  have hcases : ∀ {x y}, (c.entries.set hash e).get? x = some y →
      x = hash ∧ y = e ∨ c.entries.get? x = some y := by
    intro x y hx
    rw [Dict.get?_set] at hx
    split at hx
    case isTrue heq => exact .inl ⟨heq, (Option.some.inj hx).symm⟩
    case isFalse => exact .inr hx
  refine ⟨?_, ?_, fun hx => ?_, fun hx => ?_⟩
  · have hstored := h.covered.store requestId hlive hn hpages
    have hsnapshots : snapshots { c with entries := c.entries.set hash e } =
        insert s.nextHandle c.snapshots := by
      rw [snapshots, hvalues, List.toFinset_append, snapshots, Finset.union_comm]
      rfl
    rwa [hsnapshots]
  · rw [hvalues]
    refine List.nodup_append.mpr ⟨h.nodup, List.nodup_singleton _, fun x hx y hy heq => hfresh ?_⟩
    rw [List.mem_singleton.mp hy] at heq
    exact heq ▸ List.mem_toFinset.mpr hx
  · rcases hcases hx with ⟨rfl, rfl⟩ | hx
    · exact hhash
    · exact h.hash_eq hx
  · rcases hcases hx with ⟨rfl, rfl⟩ | hx
    · exact hbytes
    · exact h.bytes_eq hx

/-- An entry is dropped, and its snapshot takes a page along. -/
theorem drop (h : Charged c s) {hash : η} {e : BlockEntry η}
    (hget : c.entries.get? hash = some e)
    (hown : (s.ownPages c.snapshots e.cacheHandle).Nonempty) :
    Charged { c with entries := c.entries.pop hash } (s.released e.cacheHandle) := by
  obtain ⟨l, l', hvalues, hpop⟩ := Dict.exists_map_values_of_get? BlockEntry.cacheHandle hget
  have hnodup := h.nodup
  rw [hvalues] at hnodup
  have hmem : e.cacheHandle ∈ c.snapshots := by
    rw [snapshots, hvalues]
    simp
  have hsnapshots : snapshots { c with entries := c.entries.pop hash } =
      c.snapshots.erase e.cacheHandle := by
    have hnot : e.cacheHandle ∉ l ++ l' := (List.nodup_middle.mp hnodup).notMem
    ext x
    rw [snapshots, snapshots, hvalues, Finset.mem_erase, List.mem_toFinset, List.mem_toFinset, hpop]
    constructor
    · intro hx
      refine ⟨fun heq => hnot (heq ▸ hx), ?_⟩
      exact List.mem_append.mpr ((List.mem_append.mp hx).imp_right (List.mem_cons_of_mem _))
    · rintro ⟨hne, hx⟩
      refine List.mem_append.mpr ((List.mem_append.mp hx).imp_right fun hx => ?_)
      exact (List.mem_cons.mp hx).resolve_left hne
  have hold : ∀ {x y}, (c.entries.pop hash).get? x = some y → c.entries.get? x = some y := by
    intro x y hx
    rw [Dict.get?_pop] at hx
    split at hx
    · cases hx
    · exact hx
  refine ⟨?_, ?_, fun hx => h.hash_eq (hold hx), fun hx => h.bytes_eq (hold hx)⟩
  · rw [hsnapshots]
    exact h.covered.drop hmem hown
  · rw [hpop]
    exact (List.nodup_middle.mp hnodup).of_cons

/-- Each entry is charged a page. -/
theorem storedBytes_eq (h : Charged c s) :
    c.storedBytes = c.snapshots.card * s.bytesPerPage := by
  have hbytes : c.entries.values.map BlockEntry.bytes =
      c.entries.values.map fun _ => s.bytesPerPage := by
    refine List.map_congr_left fun e he => ?_
    obtain ⟨hash, hmem⟩ := Dict.mem_values.mp he
    exact h.bytes_eq (Dict.get?_eq_some.mpr hmem)
  rw [storedBytes, hbytes, snapshots, List.toFinset_card_of_nodup h.nodup, List.length_map,
    List.map_const', List.sum_replicate_nat]

theorem publishChain (h : Charged c s) (handle : Handle) {tokens : List Token} (now : ℕ)
    {chain : List (η × η × ℕ)} (hadds : AddsPages handle tokens now chain c s) (published : ℕ) :
    Charged (BlockHashPrefixCache.publishChain handle tokens now chain published c s).2.1
      (BlockHashPrefixCache.publishChain handle tokens now chain published c s).2.2 := by
  induction chain generalizing c s published with
  | nil => exact h
  | cons block rest ih =>
      obtain ⟨hash, parent, length⟩ := block
      obtain ⟨hpages, hadds⟩ := hadds
      rw [BlockHashPrefixCache.publishChain] at hadds ⊢
      by_cases hnew : hash ∈ c.entries.keys
      · rw [if_pos hnew] at hadds ⊢
        exact ih h hadds published
      rw [if_neg hnew] at hadds ⊢
      rcases s.fork_take_cases handle (c.snapshotId hash) length with
        ⟨e, heq⟩ | ⟨hlive, hn, heq⟩ <;> rw [heq] at hadds ⊢
      · exact h
      · have hstored := h.store (c.snapshotId hash) hnew hlive hn (hpages hnew) (e := {
            blockHash := hash
            parentHash := parent
            tokenPrefix := tokens.take length
            compatibilityDigest := c.compatibilityDigest
            cacheHandle := s.nextHandle
            cachedLength := length
            pages := length / c.pageSize
            bytes := bytesForPages s 1
            lastUsed := now }) rfl rfl (Nat.mul_one _)
        exact ih hstored hadds length

omit [DecidableEq η] in
/-- An index without entries is within its limits. -/
theorem not_overLimits_of_empty (hempty : c.entries.keys.length = 0) : ¬ c.OverLimits := by
  have hnil : c.entries.entries = [] := List.map_eq_nil_iff.mp (List.eq_nil_of_length_eq_zero hempty)
  have hbytes : c.storedBytes = 0 := by rw [storedBytes, Dict.values, hnil]; rfl
  rw [OverLimits, hempty, hbytes]
  simp

/-- The rounds of an eviction keep it; enough of them leave the index within its limits or without
an entry to evict. -/
theorem evictRounds (h : Charged c s) {protected_ : Option η} {rounds : ℕ}
    (hfrees : FreesPages protected_ rounds c s) :
    Charged (BlockHashPrefixCache.evictRounds protected_ rounds c s).2.1
        (BlockHashPrefixCache.evictRounds protected_ rounds c s).2.2 ∧
      (c.entries.keys.length ≤ rounds →
        ¬ (BlockHashPrefixCache.evictRounds protected_ rounds c s).2.1.OverLimits ∨
        (BlockHashPrefixCache.evictRounds protected_ rounds c s).2.1.victim protected_ = none) := by
  induction rounds generalizing c s with
  | zero => exact ⟨h, fun hle => .inl (not_overLimits_of_empty (Nat.le_zero.mp hle))⟩
  | succ rounds ih =>
      rw [BlockHashPrefixCache.evictRounds]
      by_cases hover : c.OverLimits
      case neg =>
        rw [if_neg hover]
        exact ⟨h, fun _ => .inl hover⟩
      rw [if_pos hover]
      cases hvictim : c.victim protected_ with
      | none => exact ⟨h, fun _ => .inr hvictim⟩
      | some e =>
          obtain ⟨hown, hfrees⟩ := hfrees hover e hvictim
          obtain ⟨hash, hentry⟩ :=
            Dict.mem_values.mp (List.mem_of_mem_filter (mem_of_firstMin hvictim))
          have hget := Dict.get?_eq_some.mpr hentry
          obtain rfl := h.hash_eq hget
          have hlive : e.cacheHandle ∈ s.caches :=
            h.covered.live _ (List.mem_toFinset.mpr (List.mem_map.mpr
              ⟨e, Dict.mem_values.mpr ⟨_, hentry⟩, rfl⟩))
          rw [PagedKVCacheBackend.release_of_mem h.covered.wf hlive] at hfrees
          dsimp only
          rw [PagedKVCacheBackend.release_of_mem h.covered.wf hlive]
          obtain ⟨hcharged, hsettled⟩ := ih (h.drop hget hown) hfrees
          refine ⟨hcharged, fun hle => hsettled ?_⟩
          obtain ⟨l, l', hentries, hpop⟩ := Dict.exists_entries_of_get? hget
          rw [Dict.keys, hentries, List.length_map, List.length_append, List.length_cons] at hle
          rw [Dict.keys, hpop, List.length_map, List.length_append]
          omega

theorem acquire (h : Charged c s) (requestId : ρ) (tokens : List Token) (probe : PrefixProbe) :
    Charged (c.acquire s requestId tokens probe).2.1 (c.acquire s requestId tokens probe).2.2 := by
  rw [BlockHashPrefixCache.acquire]
  split
  · exact h
  rw [lookupTouch]
  cases hlookup : c.lookup tokens with
  | none => exact h
  | some e =>
      have hget : c.entries.get? e.blockHash = some e := by
        rw [lookup] at hlookup
        split at hlookup
        · cases hlookup
        rcases Indexes.lookupChain_eq_some hlookup with hnone | ⟨x, -, hget, -⟩
        · cases hnone
        · rwa [h.hash_eq hget]
      have hticked : c.tick.2.Charged s := ⟨h.covered, h.nodup, h.hash_eq, h.bytes_eq⟩
      have htouched := hticked.update hget c.tick.1 e.pins
      dsimp only
      split
      · exact htouched
      have hpinned := htouched.update (Dict.get?_set_self _ _) c.tick.1 (e.pins + 1)
      have hcovered := hpinned.covered.fork e.cacheHandle requestId (some (e.cachedLength : ℤ))
      rcases s.fork_take_cases e.cacheHandle requestId e.cachedLength with
        ⟨error, heq⟩ | ⟨-, -, heq⟩ <;> rw [heq] at hcovered ⊢
      · exact hpinned
      · exact ⟨hcovered, hpinned.nodup, hpinned.hash_eq, hpinned.bytes_eq⟩

end Charged

/-- A publication stores snapshots that bring in one page at most, and what it evicts takes a page
along. -/
def PublishesByPage (c : BlockHashPrefixCache ρ η) (s : PagedKVCacheBackend ρ κ) (handle : Handle)
    (tokens : List Token) (committedLength : ℕ) : Prop :=
  let publishLength := min committedLength tokens.length / c.pageSize * c.pageSize
  let chain := (c.hashChain (tokens.take publishLength)).take (c.publishableChainPages s)
  let after := (publishChain handle tokens c.tick.1 chain 0 c.tick.2 s).2
  publishLength ≠ 0 → AddsPages handle tokens c.tick.1 chain c.tick.2 s ∧
    FreesPages (some ((chain.map Prod.fst).getLastD after.1.noParent)) after.1.entries.keys.length
      after.1 after.2

instance (c : BlockHashPrefixCache ρ η) (s : PagedKVCacheBackend ρ κ) (handle : Handle)
    (tokens : List Token) (n : ℕ) : Decidable (c.PublishesByPage s handle tokens n) :=
  inferInstanceAs (Decidable (_ ≠ 0 → _ ∧ _))

/-- The eviction of a release takes pages along. -/
def ReleasesByPage (c : BlockHashPrefixCache ρ η) (s : PagedKVCacheBackend ρ κ) (handle : Handle) :
    Prop :=
  ∀ p ∈ c.releaseEvicts handle, FreesPages p.1 p.2.entries.keys.length p.2 s

instance (c : BlockHashPrefixCache ρ η) (s : PagedKVCacheBackend ρ κ) (handle : Handle) :
    Decidable (c.ReleasesByPage s handle) :=
  inferInstanceAs (Decidable (∀ p ∈ c.releaseEvicts handle, _))

namespace Charged

theorem publish (h : Charged c s) {handle : Handle} {tokens : List Token} {n : ℕ}
    (hpages : c.PublishesByPage s handle tokens n) :
    Charged (c.publish s handle tokens n).2.1 (c.publish s handle tokens n).2.2 ∧
      ∀ p ∈ c.publishEvicts s handle tokens n,
        ¬ (c.publish s handle tokens n).2.1.OverLimits ∨
        (c.publish s handle tokens n).2.1.victim p.1 = none := by
  rw [PublishesByPage] at hpages
  rw [BlockHashPrefixCache.publish, publishEvicts]
  dsimp only at hpages ⊢
  split
  · exact ⟨h, fun p hp => by cases hp⟩
  case isFalse hsome =>
  obtain ⟨hadds, hfrees⟩ := hpages hsome
  have hticked : c.tick.2.Charged s := ⟨h.covered, h.nodup, h.hash_eq, h.bytes_eq⟩
  have hstored := hticked.publishChain handle c.tick.1 hadds 0
  cases hcall : BlockHashPrefixCache.publishChain handle tokens c.tick.1 ((c.hashChain (tokens.take
      (min n tokens.length / c.pageSize * c.pageSize))).take (c.publishableChainPages s)) 0 c.tick.2
      s with
  | mk result after =>
      rw [hcall] at hstored hfrees
      obtain ⟨c', s'⟩ := after
      cases result with
      | error e => exact ⟨hstored, fun p hp => by cases hp⟩
      | ok last =>
          obtain ⟨hcharged, hsettled⟩ := Charged.evictRounds hstored hfrees
          have hsettled := hsettled le_rfl
          dsimp only at hcharged hsettled ⊢
          rw [evictUntilWithinLimits]
          cases hevict : BlockHashPrefixCache.evictRounds _ _ c' s' with
          | mk result after =>
              rw [hevict] at hcharged hsettled
              obtain ⟨c'', s''⟩ := after
              cases result <;> exact ⟨hcharged, fun p hp => Option.some.inj hp ▸ hsettled⟩

theorem release (h : Charged c s) {handle : Handle} (hpages : c.ReleasesByPage s handle) :
    Charged (c.release s (some handle)).2.1 (c.release s (some handle)).2.2 ∧
      ∀ p ∈ c.releaseEvicts handle, ¬ (c.release s (some handle)).2.1.OverLimits ∨
        (c.release s (some handle)).2.1.victim p.1 = none := by
  rw [ReleasesByPage, releaseEvicts] at hpages
  rw [BlockHashPrefixCache.release, releaseEvicts]
  dsimp only
  cases hactive : c.activeHandles.get? handle with
  | none => exact ⟨h, fun p hp => by cases hp⟩
  | some hash =>
      rw [hactive] at hpages
      have hfrees := hpages _ rfl
      rw [Option.map_some]
      dsimp only at hfrees ⊢
      have hfreed : ∀ {c' : BlockHashPrefixCache ρ η}, Charged c' s →
          FreesPages none c'.entries.keys.length c' s →
          Charged (c'.evictUntilWithinLimits s none).2.1 (c'.evictUntilWithinLimits s none).2.2 ∧
          ∀ p ∈ some ((none : Option η), c'),
            ¬ (c'.evictUntilWithinLimits s none).2.1.OverLimits ∨
            (c'.evictUntilWithinLimits s none).2.1.victim p.1 = none := by
        intro c' hc' hfrees
        obtain ⟨hcharged, hsettled⟩ := Charged.evictRounds hc' hfrees
        exact ⟨hcharged, fun p hp => Option.some.inj hp ▸ hsettled le_rfl⟩
      cases hget : c.entries.get? hash with
      | none =>
          rw [hget] at hfrees
          have hunpinned : Charged { c with activeHandles := c.activeHandles.pop handle } s :=
            ⟨h.covered, h.nodup, h.hash_eq, h.bytes_eq⟩
          exact hfreed hunpinned hfrees
      | some e =>
          rw [hget] at hfrees
          have hupdated := h.update hget e.lastUsed (e.pins - 1)
          have hunpinned : Charged { c with
              entries := c.entries.set hash { e with pins := e.pins - 1 }
              activeHandles := c.activeHandles.pop handle } s :=
            ⟨hupdated.covered, hupdated.nodup, hupdated.hash_eq, hupdated.bytes_eq⟩
          exact hfreed hunpinned hfrees

end Charged
end BlockHashPrefixCache

/-! ## The radix index -/

namespace RadixPrefixCache

variable {c c' : RadixPrefixCache ρ} {s s' : PagedKVCacheBackend ρ κ}

/-- The stored snapshots. -/
def snapshots (c : RadixPrefixCache ρ) : Finset Handle :=
  ((List.range c.nextNode).filterMap fun id => (c.nodes id).cacheHandle).toFinset

theorem mem_snapshots (h : c.IsTree) {x : Handle} :
    x ∈ c.snapshots ↔ ∃ id, (c.nodes id).cacheHandle = some x := by
  rw [snapshots, List.mem_toFinset, List.mem_filterMap]
  constructor
  · rintro ⟨id, -, hx⟩
    exact ⟨id, hx⟩
  · rintro ⟨id, hx⟩
    exact ⟨id, List.mem_range.mpr (h.lt_of_handle (by rw [hx]; rfl)), hx⟩

/-- The loop of `publish` stores snapshots that bring in one page at most. -/
def AddsPages (handle : Handle) (tokens : List Token) :
    (rounds : ℕ) → (length : ℕ) → RadixPrefixCache ρ → PagedKVCacheBackend ρ κ → Prop
  | 0, _, _, _ => True
  | rounds + 1, length, c, s => ¬ c.publishableChainPages s < length / c.pageSize →
      (((c.insertPrefix (tokens.take length)).2.nodes
          (c.insertPrefix (tokens.take length)).1).cacheHandle = none →
        (s.newPages c.snapshots handle length).card ≤ 1) ∧
      AddsPages handle tokens rounds (length + c.pageSize)
        (publishPages handle tokens 1 length 0 c s).2.1
        (publishPages handle tokens 1 length 0 c s).2.2

instance AddsPages.decidable (handle : Handle) (tokens : List Token) :
    ∀ (rounds length : ℕ) (c : RadixPrefixCache ρ) (s : PagedKVCacheBackend ρ κ),
      Decidable (AddsPages handle tokens rounds length c s)
  | 0, _, _, _ => inferInstanceAs (Decidable True)
  | rounds + 1, length, c, s =>
      have := AddsPages.decidable handle tokens rounds (length + c.pageSize)
        (publishPages handle tokens 1 length 0 c s).2.1
        (publishPages handle tokens 1 length 0 c s).2.2
      inferInstanceAs (Decidable (_ → (_ → _) ∧ _))

/-- The rounds of `_evict_until_within_limits` drop snapshots that take a page along. -/
def FreesPages : ℕ → RadixPrefixCache ρ → PagedKVCacheBackend ρ κ → Prop
  | 0, _, _ => True
  | rounds + 1, c, s => c.OverLimits → ∀ id ∈ c.victim, ∀ x ∈ (c.nodes id).cacheHandle,
      (s.ownPages c.snapshots x).Nonempty ∧
        FreesPages rounds (evicted c id) (s.release (some x)).2

instance FreesPages.decidable :
    ∀ (rounds : ℕ) (c : RadixPrefixCache ρ) (s : PagedKVCacheBackend ρ κ),
      Decidable (FreesPages rounds c s)
  | 0, _, _ => inferInstanceAs (Decidable True)
  | rounds + 1, c, s =>
      have := fun (c : RadixPrefixCache ρ) (s : PagedKVCacheBackend ρ κ) =>
        FreesPages.decidable rounds c s
      inferInstanceAs (Decidable (c.OverLimits → ∀ id ∈ c.victim, ∀ x ∈ (c.nodes id).cacheHandle,
        (s.ownPages c.snapshots x).Nonempty ∧
          FreesPages rounds (evicted c id) (s.release (some x)).2))

/-- What a run keeps: the snapshots are covered, and every entry is charged a page. -/
structure Charged (c : RadixPrefixCache ρ) (s : PagedKVCacheBackend ρ κ) : Prop where
  tree : c.IsTree
  root_parent : (c.nodes 0).parent = none
  covered : s.Covered c.snapshots
  snapshot_inj : ∀ {id id' x}, (c.nodes id).cacheHandle = some x →
    (c.nodes id').cacheHandle = some x → id = id'
  bytes_eq : ∀ id, (c.nodes id).cacheHandle.isSome → (c.nodes id).bytes = s.bytesPerPage

namespace Charged

/-- The same snapshots with the same charges. -/
theorem congr (h : Charged c s) (htree : c'.IsTree) (hroot : (c'.nodes 0).parent = none)
    (hhandle : ∀ x, (c'.nodes x).cacheHandle = (c.nodes x).cacheHandle)
    (hbytes : ∀ x, (c'.nodes x).bytes = (c.nodes x).bytes) : Charged c' s where
  tree := htree
  root_parent := hroot
  covered := by
    have hsame : c'.snapshots = c.snapshots := by
      ext x
      rw [mem_snapshots htree, mem_snapshots h.tree]
      exact exists_congr fun id => by rw [hhandle]
    rw [hsame]
    exact h.covered
  snapshot_inj hx hx' := h.snapshot_inj ((hhandle _).symm.trans hx) ((hhandle _).symm.trans hx')
  bytes_eq id hsome := (hbytes id).trans (h.bytes_eq id (hhandle id ▸ hsome))

/-- The store may change below the index. -/
theorem frame (h : Charged c s) (hcovered : s'.Covered c.snapshots)
    (hbytes : s'.bytesPerPage = s.bytesPerPage) : Charged c s' where
  tree := h.tree
  root_parent := h.root_parent
  covered := hcovered
  snapshot_inj := h.snapshot_inj
  bytes_eq id hsome := (h.bytes_eq id hsome).trans hbytes.symm

/-- The clock, the active handles and the published lengths carry no charge. -/
theorem of_nodes (h : Charged c s) (hnodes : c'.nodes = c.nodes)
    (hnext : c'.nextNode = c.nextNode) : Charged c' s :=
  h.congr (h.tree.of_nodes hnodes hnext) (hnodes ▸ h.root_parent) (fun x => by rw [hnodes])
    fun x => by rw [hnodes]

/-- A node may be touched and pinned. -/
theorem touch (h : Charged c s) {id : ℕ} (hid : id < c.nextNode) (lastUsed pins : ℕ) :
    Charged (c.setNode id { c.nodes id with lastUsed := lastUsed, pins := pins }) s := by
  refine h.congr (h.tree.setNode hid _ rfl rfl rfl fun hget => hget) ?_ (fun x => ?_) fun x => ?_
  · by_cases hx : 0 = id
    · rw [hx, setNode_nodes_self, ← hx]
      exact h.root_parent
    · rw [setNode_nodes_of_ne _ hx]
      exact h.root_parent
  · by_cases hx : x = id <;> simp [hx, setNode_nodes_of_ne]
  · by_cases hx : x = id <;> simp [hx, setNode_nodes_of_ne]

/-- A snapshot for a node that has none, which brings in one page at most. -/
theorem store (h : Charged c s) {id : ℕ} (hid : id < c.nextNode)
    (hnone : (c.nodes id).cacheHandle = none) {handle : Handle} (requestId : ρ) {n : ℕ}
    (hlive : handle ∈ s.caches) (hn : n ≤ (s.cacheOf handle).length)
    (hpages : (s.newPages c.snapshots handle n).card ≤ 1) (length pages lastUsed : ℕ) :
    Charged (c.setNode id { c.nodes id with
      cacheHandle := some s.nextHandle, cachedLength := length, pages := pages,
      bytes := BlockHashPrefixCache.bytesForPages (s.forked handle requestId n) 1,
      lastUsed := lastUsed }) (s.forked handle requestId n) := by
  have htree := h.tree.setNode hid { c.nodes id with
    cacheHandle := some s.nextHandle, cachedLength := length, pages := pages,
    bytes := BlockHashPrefixCache.bytesForPages (s.forked handle requestId n) 1,
    lastUsed := lastUsed } rfl rfl rfl fun hget => hget
  have hself : (c.setNode id { c.nodes id with
      cacheHandle := some s.nextHandle, cachedLength := length, pages := pages,
      bytes := BlockHashPrefixCache.bytesForPages (s.forked handle requestId n) 1,
      lastUsed := lastUsed }).nodes id = { c.nodes id with
      cacheHandle := some s.nextHandle, cachedLength := length, pages := pages,
      bytes := BlockHashPrefixCache.bytesForPages (s.forked handle requestId n) 1,
      lastUsed := lastUsed } := setNode_nodes_self _ _ _
  have hother : ∀ x, x ≠ id → (c.setNode id { c.nodes id with
      cacheHandle := some s.nextHandle, cachedLength := length, pages := pages,
      bytes := BlockHashPrefixCache.bytesForPages (s.forked handle requestId n) 1,
      lastUsed := lastUsed }).nodes x = c.nodes x := fun x hx => setNode_nodes_of_ne _ hx _
  generalize c.setNode id _ = c' at *
  have hfresh : ∀ x, (c.nodes x).cacheHandle ≠ some s.nextHandle := fun x hx =>
    lt_irrefl _ (h.covered.wf.fresh _ (h.covered.live _ ((mem_snapshots h.tree).mpr ⟨x, hx⟩)))
  have hcases : ∀ {x y}, (c'.nodes x).cacheHandle = some y →
      x = id ∧ y = s.nextHandle ∨ x ≠ id ∧ (c.nodes x).cacheHandle = some y := by
    intro x y hx
    by_cases hxid : x = id
    · rw [hxid, hself] at hx
      exact .inl ⟨hxid, (Option.some.inj hx).symm⟩
    · rw [hother x hxid] at hx
      exact .inr ⟨hxid, hx⟩
  refine ⟨htree, ?_, ?_, fun {x x' y} hx hx' => ?_, fun x hsome => ?_⟩
  · by_cases hx : 0 = id
    · rw [hx, hself, ← hx]
      exact h.root_parent
    · rw [hother 0 hx]
      exact h.root_parent
  · have hsnapshots : c'.snapshots = insert s.nextHandle c.snapshots := by
      ext x
      rw [mem_snapshots htree, Finset.mem_insert, mem_snapshots h.tree]
      constructor
      · rintro ⟨y, hy⟩
        rcases hcases hy with ⟨-, rfl⟩ | ⟨-, hy⟩
        · exact .inl rfl
        · exact .inr ⟨y, hy⟩
      · rintro (rfl | ⟨y, hy⟩)
        · exact ⟨id, by rw [hself]⟩
        · refine ⟨y, ?_⟩
          rw [hother y, hy]
          rintro rfl
          rw [hnone] at hy
          cases hy
    rw [hsnapshots]
    exact h.covered.store requestId hlive hn hpages
  · rcases hcases hx with ⟨rfl, rfl⟩ | ⟨-, hx₁⟩ <;> rcases hcases hx' with ⟨rfl, hy⟩ | ⟨-, hx₂⟩
    · rfl
    · exact absurd hx₂ (hfresh x')
    · exact absurd (hy ▸ hx₁) (hfresh x)
    · exact h.snapshot_inj hx₁ hx₂
  · by_cases hxid : x = id
    · rw [hxid, hself]
      exact Nat.mul_one _
    · rw [hother x hxid] at hsome ⊢
      exact h.bytes_eq x hsome

/-- An insertion makes nodes without snapshots. -/
theorem insertPrefix (h : Charged c s) (tokens : List Token) :
    Charged (c.insertPrefix tokens).2 s ∧
      (c.insertPrefix tokens).1 < (c.insertPrefix tokens).2.nextNode := by
  obtain ⟨fresh, -, hinserts, -⟩ := insertPrefix_inserts h.tree h.root_parent tokens
  obtain ⟨id, c', heq, htree, hid, -, -⟩ := insertPrefix_eq h.tree tokens
  rw [heq] at hinserts ⊢
  exact ⟨h.congr htree (hinserts.root_parent.trans h.root_parent) hinserts.handle_eq
    hinserts.bytes_eq, hid⟩

theorem publishPages (h : Charged c s) (handle : Handle) {tokens : List Token}
    {rounds length : ℕ} (hadds : AddsPages handle tokens rounds length c s) (published : ℕ) :
    Charged (RadixPrefixCache.publishPages handle tokens rounds length published c s).2.1
      (RadixPrefixCache.publishPages handle tokens rounds length published c s).2.2 := by
  induction rounds generalizing c s length published with
  | zero => exact h
  | succ rounds ih =>
      rw [AddsPages, RadixPrefixCache.publishPages] at hadds
      rw [RadixPrefixCache.publishPages]
      by_cases hstop : c.publishableChainPages s < length / c.pageSize
      · rw [if_pos hstop]
        exact h
      obtain ⟨hpages, hadds⟩ := hadds hstop
      rw [if_neg hstop] at hadds ⊢
      obtain ⟨hinserted, hid⟩ := h.insertPrefix (tokens.take length)
      obtain ⟨fresh, -, hinserts, -⟩ :=
        insertPrefix_inserts h.tree h.root_parent (tokens.take length)
      obtain ⟨id, c₁, heq, htree, -, -, hsame⟩ := insertPrefix_eq h.tree (tokens.take length)
      rw [heq] at hpages hadds hinserted hid hinserts ⊢
      rw [← hsame.pageSize_eq] at hadds
      have hticked : c₁.tick.2.Charged s := hinserted.of_nodes rfl rfl
      dsimp only at hpages hadds hid ⊢
      by_cases hsome : (c₁.nodes id).cacheHandle.isSome
      · rw [if_pos hsome] at hadds ⊢
        exact ih (hticked.touch hid c₁.tick.1 (c₁.nodes id).pins) hadds length
      have hnone := Option.not_isSome_iff_eq_none.mp hsome
      rw [if_neg hsome] at hadds ⊢
      rcases s.fork_take_cases handle (c₁.snapshotId (tokens.take length)) length with
        ⟨e, heq⟩ | ⟨hlive, hn, heq⟩ <;> rw [heq] at hadds ⊢
      · exact hinserted
      · have hsnapshots : c₁.snapshots = c.snapshots := by
          ext x
          rw [mem_snapshots htree, mem_snapshots h.tree]
          exact exists_congr fun y => by rw [hsame.handle_eq]
        have hnew : (s.newPages c₁.tick.2.snapshots handle length).card ≤ 1 := by
          rw [show c₁.tick.2.snapshots = c.snapshots from hsnapshots]
          exact hpages hnone
        exact ih (hticked.store hid hnone (c₁.snapshotId (tokens.take length)) hlive hn hnew length
          (length / c₁.pageSize) c₁.tick.1) hadds length

/-- An entry is dropped, and its snapshot takes a page along. -/
theorem evict (h : Charged c s) {id : ℕ} {x : Handle} (hx : (c.nodes id).cacheHandle = some x)
    (hown : (s.ownPages c.snapshots x).Nonempty) : Charged (evicted c id) (s.released x) := by
  have hid := h.tree.lt_of_handle (show (c.nodes id).cacheHandle.isSome by rw [hx]; rfl)
  have htree : (evicted c id).IsTree := (pruneFrom_eq (h.tree.setNode hid { c.nodes id with
    cacheHandle := none, cachedLength := 0, pages := 0, bytes := 0 } rfl rfl rfl
      fun hget => hget) _ id).1
  have hhandle : ∀ y, ((evicted c id).nodes y).cacheHandle =
      if y = id then none else (c.nodes y).cacheHandle := by
    intro y
    obtain ⟨children, hnode⟩ := c.evicted_nodes id y
    rw [hnode]
    split <;> rfl
  have hsnapshots : (evicted c id).snapshots = c.snapshots.erase x := by
    ext y
    rw [mem_snapshots htree, Finset.mem_erase, mem_snapshots h.tree]
    constructor
    · rintro ⟨z, hz⟩
      rw [hhandle] at hz
      split at hz
      · cases hz
      case isFalse hne =>
        refine ⟨?_, z, hz⟩
        rintro rfl
        exact hne (h.snapshot_inj hz hx)
    · rintro ⟨hne, z, hz⟩
      refine ⟨z, ?_⟩
      rw [hhandle, if_neg, hz]
      rintro rfl
      exact hne (Option.some.inj (hz.symm.trans hx))
  have hmem : x ∈ c.snapshots := (mem_snapshots h.tree).mpr ⟨id, hx⟩
  refine ⟨htree, ?_, ?_, fun {y y' z} hy hy' => ?_, fun y hsome => ?_⟩
  · obtain ⟨children, hnode⟩ := c.evicted_nodes id 0
    rw [hnode]
    split
    case isTrue heq => exact heq ▸ h.root_parent
    case isFalse => exact h.root_parent
  · rw [hsnapshots]
    exact h.covered.drop hmem hown
  · rw [hhandle] at hy hy'
    split at hy
    · cases hy
    split at hy'
    · cases hy'
    exact h.snapshot_inj hy hy'
  · have hold := hhandle y
    obtain ⟨children, hnode⟩ := c.evicted_nodes id y
    rw [hold] at hsome
    split at hsome
    · cases hsome
    case isFalse hne =>
      rw [hnode, if_neg hne]
      exact h.bytes_eq y hsome

theorem evictRounds (h : Charged c s) {rounds : ℕ} (hfrees : FreesPages rounds c s) :
    Charged (RadixPrefixCache.evictRounds rounds c s).2.1
      (RadixPrefixCache.evictRounds rounds c s).2.2 := by
  induction rounds generalizing c s with
  | zero => exact h
  | succ rounds ih =>
      rw [RadixPrefixCache.evictRounds]
      by_cases hover : c.OverLimits
      case neg =>
        rw [if_neg hover]
        exact h
      rw [if_pos hover]
      cases hvictim : c.victim with
      | none => exact h
      | some id =>
          have hsome := (of_decide_eq_true (List.mem_filter.mp (mem_of_firstMin hvictim)).2).1
          obtain ⟨x, hx⟩ := Option.isSome_iff_exists.mp hsome
          obtain ⟨hown, hfrees⟩ := hfrees hover id hvictim x hx
          have hlive := h.covered.live x ((mem_snapshots h.tree).mpr ⟨id, hx⟩)
          rw [PagedKVCacheBackend.release_of_mem h.covered.wf hlive] at hfrees
          dsimp only
          rw [hx, PagedKVCacheBackend.release_of_mem h.covered.wf hlive]
          exact ih (h.evict hx hown) hfrees

theorem acquire (h : Charged c s) (requestId : ρ) (tokens : List Token) (probe : PrefixProbe) :
    Charged (c.acquire s requestId tokens probe).2.1 (c.acquire s requestId tokens probe).2.2 := by
  rw [RadixPrefixCache.acquire]
  split
  · exact h
  rw [lookupTouch]
  cases hlookup : c.lookup tokens with
  | none => exact h
  | some id =>
      have hid := h.tree.lt_of_handle (RadixPrefixCache.lookup_eq_some h.tree hlookup).1
      have hticked : c.tick.2.Charged s := h.of_nodes rfl rfl
      have htouched : (c.tick.2.setNode id
          { c.tick.2.nodes id with lastUsed := c.tick.1 }).Charged s :=
        hticked.touch hid c.tick.1 (c.tick.2.nodes id).pins
      have hid₁ : id < (c.tick.2.setNode id
          { c.tick.2.nodes id with lastUsed := c.tick.1 }).nextNode := hid
      dsimp only at htouched hid₁ ⊢
      generalize c.tick.2.setNode id _ = c₁ at htouched hid₁ ⊢
      split
      · exact htouched
      have hpinned : (c₁.setNode id
          { c₁.nodes id with pins := (c₁.nodes id).pins + 1 }).Charged s :=
        htouched.touch hid₁ (c₁.nodes id).lastUsed ((c₁.nodes id).pins + 1)
      dsimp only at hpinned ⊢
      generalize c₁.setNode id _ = c₂ at hpinned ⊢
      cases (c₂.nodes id).cacheHandle with
      | none => exact hpinned
      | some snapshot =>
          dsimp only
          have hcovered := hpinned.covered.fork snapshot requestId
            (some (((c₂.nodes id).cachedLength : ℕ) : ℤ))
          rcases s.fork_take_cases snapshot requestId (c₂.nodes id).cachedLength with
            ⟨error, heq⟩ | ⟨-, -, heq⟩ <;> rw [heq] at hcovered ⊢
          · exact hpinned
          · exact (hpinned.frame hcovered rfl).of_nodes rfl rfl

/-- Each entry is charged a page. -/
theorem entryBytes_eq (h : Charged c s) {held : Finset Handle}
    {Stored : PagedKVCacheBackend ρ κ → Handle → List Token → Prop}
    (hindexes : Indexes Stored c s held) (hfilled : c.Filled none) :
    ((c.walkNodes.filter fun id => (c.nodes id).cacheHandle.isSome).map fun id =>
      (c.nodes id).bytes).sum = c.snapshots.card * s.bytesPerPage := by
  have hmem : ∀ {id}, id ∈ c.walkNodes.filter (fun id => (c.nodes id).cacheHandle.isSome) ↔
      (c.nodes id).cacheHandle.isSome := mem_entries hindexes hfilled
  have hnodup := (nodup_walkNodes hindexes.tree hfilled.root_parent).filter
    (fun id => (c.nodes id).cacheHandle.isSome)
  generalize c.walkNodes.filter (fun id => (c.nodes id).cacheHandle.isSome) = entries at *
  have hbytes : entries.map (fun id => (c.nodes id).bytes) =
      entries.map fun _ => s.bytesPerPage :=
    List.map_congr_left fun id hid => h.bytes_eq id (hmem.mp hid)
  have hsnapshots : c.snapshots =
      (entries.map fun id => ((c.nodes id).cacheHandle).getD 0).toFinset := by
    ext x
    rw [mem_snapshots h.tree, List.mem_toFinset, List.mem_map]
    constructor
    · rintro ⟨id, hx⟩
      refine ⟨id, hmem.mpr (by rw [hx]; rfl), ?_⟩
      rw [hx, Option.getD_some]
    · rintro ⟨id, hid, rfl⟩
      obtain ⟨x, hx⟩ := Option.isSome_iff_exists.mp (hmem.mp hid)
      exact ⟨id, by rw [hx, Option.getD_some]⟩
  have hhandles : (entries.map fun id => ((c.nodes id).cacheHandle).getD 0).Nodup := by
    refine List.Nodup.map_on (fun id hid id' hid' heq => ?_) hnodup
    obtain ⟨x, hx⟩ := Option.isSome_iff_exists.mp (hmem.mp hid)
    obtain ⟨x', hx'⟩ := Option.isSome_iff_exists.mp (hmem.mp hid')
    rw [hx, hx', Option.getD_some, Option.getD_some] at heq
    exact h.snapshot_inj hx (heq ▸ hx')
  rw [hbytes, hsnapshots, List.toFinset_card_of_nodup hhandles, List.length_map, List.map_const',
    List.sum_replicate_nat]

/-- The nodes without snapshots carry no bytes. -/
theorem storedBytes_eq (hfilled : c.Filled none) : c.storedBytes =
    ((c.walkNodes.filter fun id => (c.nodes id).cacheHandle.isSome).map fun id =>
      (c.nodes id).bytes).sum := by
  rw [storedBytes]
  induction c.walkNodes with
  | nil => rfl
  | cons id nodes ih =>
      rw [List.map_cons, List.sum_cons, ih, List.filter_cons]
      split
      · rw [List.map_cons, List.sum_cons]
      case isFalse hnone =>
        rw [hfilled.bytes id (Option.not_isSome_iff_eq_none.mp hnone), Nat.zero_add]

end Charged

/-- A publication stores snapshots that bring in one page at most, and what it evicts takes a page
along. -/
def PublishesByPage (c : RadixPrefixCache ρ) (s : PagedKVCacheBackend ρ κ) (handle : Handle)
    (tokens : List Token) (committedLength : ℕ) : Prop :=
  let publishLength := min committedLength tokens.length / c.pageSize * c.pageSize
  let previous := (c.publishedLengths.get? handle).getD 0
  let startLength := (previous / c.pageSize + 1) * c.pageSize
  ¬ (publishLength = 0 ∨ publishLength ≤ previous) →
    AddsPages handle tokens ((publishLength + c.pageSize - startLength) / c.pageSize)
        startLength c s ∧
      ∀ p ∈ c.publishEvicts s handle tokens committedLength, FreesPages p.1.entryCount p.1 p.2

/-- The eviction of a release takes pages along. -/
def ReleasesByPage (c : RadixPrefixCache ρ) (s : PagedKVCacheBackend ρ κ) (handle : Handle) :
    Prop :=
  ∀ c' ∈ c.releaseEvicts handle, FreesPages c'.entryCount c' s

instance (c : RadixPrefixCache ρ) (s : PagedKVCacheBackend ρ κ) (handle : Handle)
    (tokens : List Token) (n : ℕ) : Decidable (c.PublishesByPage s handle tokens n) :=
  inferInstanceAs (Decidable (¬ (_ ∨ _) → _ ∧ ∀ p ∈ c.publishEvicts s handle tokens n, _))

instance (c : RadixPrefixCache ρ) (s : PagedKVCacheBackend ρ κ) (handle : Handle) :
    Decidable (c.ReleasesByPage s handle) :=
  inferInstanceAs (Decidable (∀ c' ∈ c.releaseEvicts handle, _))

namespace Charged

theorem publish (h : Charged c s) {handle : Handle} {tokens : List Token} {n : ℕ}
    (hpages : c.PublishesByPage s handle tokens n) :
    Charged (c.publish s handle tokens n).2.1 (c.publish s handle tokens n).2.2 := by
  rw [PublishesByPage, publishEvicts] at hpages
  rw [RadixPrefixCache.publish]
  dsimp only at hpages ⊢
  generalize (c.publishedLengths.get? handle).getD 0 = previous at hpages ⊢
  split
  · exact h
  case isFalse hsome =>
  obtain ⟨hadds, hfrees⟩ := hpages hsome
  rw [if_neg hsome] at hfrees
  have hstored := h.publishPages handle hadds 0
  cases hcall : RadixPrefixCache.publishPages handle tokens ((min n tokens.length / c.pageSize *
      c.pageSize + c.pageSize - (previous / c.pageSize + 1) * c.pageSize) / c.pageSize)
      ((previous / c.pageSize + 1) * c.pageSize) 0 c s with
  | mk result after =>
      rw [hcall] at hstored hfrees
      obtain ⟨c', s'⟩ := after
      cases result with
      | error e => exact hstored
      | ok last =>
          have hcharged := Charged.evictRounds hstored (hfrees _ rfl)
          dsimp only at hcharged ⊢
          rw [evictUntilWithinLimits]
          cases hevict : RadixPrefixCache.evictRounds c'.entryCount c' s' with
          | mk result after =>
              rw [hevict] at hcharged
              obtain ⟨c'', s''⟩ := after
              cases result with
              | error e => exact hcharged
              | ok _ =>
                  dsimp only
                  split
                  · exact hcharged
                  · exact hcharged.of_nodes rfl rfl

theorem release (h : Charged c s) (hactive : ∀ id ∈ c.activeHandles.values, id < c.nextNode)
    {handle : Handle} (hpages : c.ReleasesByPage s handle) :
    Charged (c.release s (some handle)).2.1 (c.release s (some handle)).2.2 := by
  rw [ReleasesByPage, releaseEvicts] at hpages
  rw [RadixPrefixCache.release]
  dsimp only
  cases hget : c.activeHandles.get? handle with
  | none => exact h.of_nodes rfl rfl
  | some id =>
      rw [hget] at hpages
      have hid := hactive id (Dict.mem_values.mpr ⟨handle, Dict.get?_eq_some.mp hget⟩)
      have hpopped : Charged { c with
          publishedLengths := c.publishedLengths.pop handle
          activeHandles := c.activeHandles.pop handle } s := h.of_nodes rfl rfl
      exact (hpopped.touch hid (c.nodes id).lastUsed ((c.nodes id).pins - 1)).evictRounds
        (hpages _ rfl)

end Charged
end RadixPrefixCache

/-! ## Either index -/

namespace PrefixCache

variable [DecidableEq η] {c : PrefixCache ρ η} {s s' : PagedKVCacheBackend ρ κ}

/-- The stored snapshots. -/
def snapshots : PrefixCache ρ η → Finset Handle
  | noPrefixCache => ∅
  | blockHash c => c.snapshots
  | radix c => c.snapshots

/-- The `prefix_bytes` of `metrics`. -/
def prefixBytes : PrefixCache ρ η → ℕ
  | noPrefixCache => 0
  | blockHash c => (c.entries.values.map BlockEntry.bytes).sum
  | radix c => ((c.walkNodes.filter fun id => (c.nodes id).cacheHandle.isSome).map fun id =>
      (c.nodes id).bytes).sum

/-- The `max_bytes` of the index; the adapter without one stores nothing. -/
def maxBytes : PrefixCache ρ η → ℕ
  | noPrefixCache => 0
  | blockHash c => c.maxBytes
  | radix c => c.maxBytes

/-- No entry can be evicted: every one is pinned, but perhaps the one a publication protects, or has
children in the tree. -/
def NothingEvictable : PrefixCache ρ η → Prop
  | noPrefixCache => True
  | blockHash c => ∃ protected_, c.victim protected_ = none
  | radix c => ∀ id, c.Attached id → (c.nodes id).cacheHandle.isSome →
      (c.nodes id).children.entries = [] → (c.nodes id).pins ≠ 0

/-- What a run keeps of the index. -/
def Charged (s : PagedKVCacheBackend ρ κ) : PrefixCache ρ η → Prop
  | noPrefixCache => s.Wf
  | blockHash c => c.Charged s
  | radix c => c.Filled none ∧ c.Charged s

theorem Charged.covered (h : c.Charged s) : s.Covered c.snapshots := by
  cases c with
  | noPrefixCache => exact ⟨h, fun x hx => (by cases hx), Nat.zero_le _⟩
  | blockHash c => exact BlockHashPrefixCache.Charged.covered h
  | radix c => exact RadixPrefixCache.Charged.covered h.2

theorem Charged.frame (h : c.Charged s) (hcovered : s'.Covered c.snapshots)
    (hbytes : s'.bytesPerPage = s.bytesPerPage) : c.Charged s' := by
  cases c with
  | noPrefixCache => exact hcovered.wf
  | blockHash c => exact BlockHashPrefixCache.Charged.frame h hcovered hbytes
  | radix c => exact ⟨h.1, RadixPrefixCache.Charged.frame h.2 hcovered hbytes⟩

/-- **The charge covers the pages.** -/
theorem Charged.pages_le (h : c.Charged s) {held : Finset Handle}
    {Stored : PagedKVCacheBackend ρ κ → Handle → List Token → Prop}
    (hindexes : c.Indexes Stored s held) :
    (s.pagesOf c.snapshots).card * s.bytesPerPage ≤ c.prefixBytes := by
  have hcharge : c.prefixBytes = c.snapshots.card * s.bytesPerPage := by
    cases c with
    | noPrefixCache => exact (Nat.zero_mul _).symm
    | blockHash c => exact BlockHashPrefixCache.Charged.storedBytes_eq h
    | radix c => exact RadixPrefixCache.Charged.entryBytes_eq h.2 hindexes h.1
  rw [hcharge]
  exact Nat.mul_le_mul_right _ h.covered.card_le

/-- `acquire` of either index. -/
theorem Charged.acquire (h : c.Charged s) (requestId : ρ) (tokens : List Token)
    (probe : PrefixProbe) : (c.acquire s requestId tokens probe).2.1.Charged
      (c.acquire s requestId tokens probe).2.2 := by
  cases c with
  | noPrefixCache => exact h
  | blockHash c => exact BlockHashPrefixCache.Charged.acquire h requestId tokens probe
  | radix c =>
      exact ⟨RadixPrefixCache.Filled.acquire h.1 s requestId tokens probe,
        RadixPrefixCache.Charged.acquire h.2 requestId tokens probe⟩

/-- A new cache is no snapshot. -/
theorem Charged.create (h : c.Charged s) (requestId : ρ) : c.Charged (s.create requestId).2 := by
  rw [PagedKVCacheBackend.create_eq]
  exact h.frame (h.covered.addCache (PagedKVCacheBackend.wf_create h.covered.wf requestId)) rfl

/-- No snapshot is given out. -/
theorem Indexes.snapshot_notMem {held : Finset Handle}
    {Stored : PagedKVCacheBackend ρ κ → Handle → List Token → Prop}
    (h : c.Indexes Stored s held) {x : Handle} (hx : x ∈ c.snapshots) : x ∉ held := by
  cases c with
  | noPrefixCache => cases hx
  | blockHash c =>
      obtain ⟨e, he, rfl⟩ := List.mem_map.mp (List.mem_toFinset.mp hx)
      obtain ⟨hash, hmem⟩ := Dict.mem_values.mp he
      exact BlockHashPrefixCache.Indexes.notMem h (Dict.get?_eq_some.mpr hmem)
  | radix c =>
      obtain ⟨id, hid⟩ := (RadixPrefixCache.mem_snapshots h.tree).mp hx
      exact RadixPrefixCache.Indexes.notMem h hid

/-- A publication stores snapshots that bring in one page at most, and what it evicts takes a page
along. -/
def PublishesByPage (s : PagedKVCacheBackend ρ κ) (handle : Handle) (tokens : List Token)
    (committedLength : ℕ) : PrefixCache ρ η → Prop
  | noPrefixCache => True
  | blockHash c => c.PublishesByPage s handle tokens committedLength
  | radix c => c.PublishesByPage s handle tokens committedLength

/-- A new index charges nothing. -/
theorem charged_postInit {c₀ : PrefixCache ρ η} (h : c₀.postInit = .ok c) (hs : s.Wf) :
    c.Charged s := by
  have hcovered : s.Covered ∅ := ⟨hs, fun x hx => (by cases hx), Nat.zero_le _⟩
  cases c₀ with
  | noPrefixCache =>
      obtain rfl := Except.ok.inj h
      exact hs
  | blockHash c₀ =>
      cases hpost : c₀.postInit with
      | error e => simp [postInit, hpost, Except.map] at h
      | ok c₁ =>
          obtain rfl : blockHash c₁ = c := by simpa [postInit, hpost, Except.map] using h
          have hempty : c₁.entries = .empty := by
            rw [BlockHashPrefixCache.postInit] at hpost
            split at hpost
            · cases hpost
            split at hpost
            · cases hpost
            split at hpost
            · cases hpost
            obtain rfl := Except.ok.inj hpost
            rfl
          refine ⟨?_, ?_, fun hget => ?_, fun hget => ?_⟩
          · rw [BlockHashPrefixCache.snapshots, hempty]
            exact hcovered
          · rw [hempty]
            exact List.nodup_nil
          · rw [hempty] at hget
            cases hget
          · rw [hempty] at hget
            cases hget
  | radix c₀ =>
      cases hpost : c₀.postInit with
      | error e => simp [postInit, hpost, Except.map] at h
      | ok c₁ =>
          obtain rfl : radix c₁ = c := by simpa [postInit, hpost, Except.map] using h
          have hnodes := RadixPrefixCache.nodes_postInit hpost
          have htree := RadixPrefixCache.IsTree.of_postInit hpost
          have hnone : c₁.snapshots = ∅ := by
            ext x
            rw [RadixPrefixCache.mem_snapshots htree, hnodes]
            simp
          refine ⟨RadixPrefixCache.filled_postInit hpost, htree, by rw [hnodes], hnone ▸ hcovered,
            fun {id id' x} hx => ?_, fun id hsome => ?_⟩
          · rw [hnodes] at hx
            cases hx
          · rw [hnodes] at hsome
            cases hsome

/-- The eviction of a release takes pages along. -/
def ReleasesByPage (s : PagedKVCacheBackend ρ κ) (handle : Handle) : PrefixCache ρ η → Prop
  | noPrefixCache => True
  | blockHash c => c.ReleasesByPage s handle
  | radix c => c.ReleasesByPage s handle

instance (s : PagedKVCacheBackend ρ κ) (handle : Handle) (tokens : List Token) (n : ℕ) :
    DecidablePred (PublishesByPage s handle tokens n : PrefixCache ρ η → Prop)
  | noPrefixCache => inferInstanceAs (Decidable True)
  | blockHash c => inferInstanceAs (Decidable (c.PublishesByPage s handle tokens n))
  | radix c => inferInstanceAs (Decidable (c.PublishesByPage s handle tokens n))

instance (s : PagedKVCacheBackend ρ κ) (handle : Handle) :
    DecidablePred (ReleasesByPage s handle : PrefixCache ρ η → Prop)
  | noPrefixCache => inferInstanceAs (Decidable True)
  | blockHash c => inferInstanceAs (Decidable (c.ReleasesByPage s handle))
  | radix c => inferInstanceAs (Decidable (c.ReleasesByPage s handle))

theorem Charged.publish (h : c.Charged s) {held : Finset Handle}
    (hindexes : c.Indexes LongEnough s held) (hs : s.Wf) (hheld : ∀ x ∈ held, x < s.nextHandle)
    {handle : Handle} {tokens : List Token} {n : ℕ} (hst : LongEnough s handle (tokens.take n))
    (hpages : c.PublishesByPage s handle tokens n) :
    (c.publish s handle tokens n).2.1.Charged (c.publish s handle tokens n).2.2 := by
  cases c with
  | noPrefixCache => exact h
  | blockHash c => exact (BlockHashPrefixCache.Charged.publish h hpages).1
  | radix c =>
      obtain ⟨publication, c', s', heq, -, -, hkept⟩ :=
        RadixPrefixCache.Indexes.publish_eq storedLaws_length hindexes hs hheld hst
      have hresult : (c.publish s handle tokens n).2.1 = c' := by rw [heq]
      exact ⟨hresult ▸ hkept h.1, RadixPrefixCache.Charged.publish h.2 hpages⟩

theorem Charged.release (h : c.Charged s) {held : Finset Handle}
    (hindexes : c.Indexes LongEnough s held) (hs : s.Wf) {handle : Handle}
    (hpages : c.ReleasesByPage s handle) :
    (c.release s (some handle)).2.1.Charged (c.release s (some handle)).2.2 := by
  cases c with
  | noPrefixCache => exact h
  | blockHash c => exact (BlockHashPrefixCache.Charged.release h hpages).1
  | radix c =>
      obtain ⟨c', s', heq, -, -, -, hkept⟩ :=
        RadixPrefixCache.Indexes.release_eq storedLaws_length hindexes hs handle
      have hresult : (c.release s (some handle)).2.1 = c' := by rw [heq]
      refine ⟨hresult ▸ hkept h.1, RadixPrefixCache.Charged.release h.2 (fun id hid => ?_) hpages⟩
      exact h.2.tree.lt_of_handle (RadixPrefixCache.Indexes.active_some hindexes id hid)

end PrefixCache

/-! ## Runs -/

namespace PrefixStore

variable [DecidableEq η] {w : PrefixStore ρ κ η}

/-- The snapshots that a call stores bring in one page at most, and those it evicts take a page
along. -/
def ChargesPages (w : PrefixStore ρ κ η) : PrefixOp ρ κ → Prop
  | .publishCommitted handle tokens n =>
      w.coordinator.prefixCache.PublishesByPage w.coordinator.backend handle tokens n
  | .release (some handle) =>
      w.coordinator.prefixCache.ReleasesByPage w.coordinator.backend handle
  | _ => True

instance (w : PrefixStore ρ κ η) : DecidablePred w.ChargesPages
  | .publishCommitted handle tokens n => inferInstanceAs (Decidable
      (w.coordinator.prefixCache.PublishesByPage w.coordinator.backend handle tokens n))
  | .release (some handle) => inferInstanceAs (Decidable
      (w.coordinator.prefixCache.ReleasesByPage w.coordinator.backend handle))
  | .probe _ | .acquire _ _ _ | .release none | .execute _ => inferInstanceAs (Decidable True)

/-- What a run keeps. -/
structure KeepsCharges (w : PrefixStore ρ κ η) : Prop where
  keeps : w.Keeps LongEnough
  charged : w.coordinator.prefixCache.Charged w.coordinator.backend

/-- The executor's calls leave the tables of the other caches alone. -/
theorem execute_tables [DecidableEq ρ]
    {Stored : PagedKVCacheBackend ρ κ → Handle → List Token → Prop} (h : w.Keeps Stored)
    {op : KVOp ρ κ} (hok : w.Follows Stored (.execute op)) :
    (w.store.step op).2.backend.bytesPerPage = w.store.backend.bytesPerPage ∧
      ∀ x, x ∉ w.held → (w.store.step op).2.backend.cacheOf x = w.store.backend.cacheOf x := by
  obtain ⟨layers, t, ht⟩ := h.refines
  have hm := KVStore.moves_step ht.inv (ht.commitsLive op)
  generalize (w.store.step op).1 = reply at hm
  generalize (w.store.step op).2 = store at hm ⊢
  cases hm with
  | quiet | reserved | staged | aborted => exact ⟨rfl, fun _ _ => rfl⟩
  | created | forked | released | reset => exact hok.elim
  | @committed r hopen hstaged hc =>
      refine ⟨rfl, fun x hx => ?_⟩
      have hnot : x ∉ r.requestCaches := fun hmem => hx (h.named r hopen x hmem)
      rcases (ht.inv.opened r hopen).shaped.installTables_cases w.store.backend.cacheOf x with
        ⟨change, hchange, hx', -⟩ | ⟨-, heq⟩
      · refine absurd ?_ hnot
        rw [← (ht.inv.opened r hopen).shaped.changes_handles]
        exact List.mem_map.mpr ⟨change, hchange, hx'⟩
      · exact heq

/-- **The step lemma.** -/
theorem keepsCharges_step [DecidableEq ρ] (h : w.KeepsCharges) {op : PrefixOp ρ κ}
    (hok : w.Follows LongEnough op) (hpages : w.ChargesPages op) :
    (w.step op).2.KeepsCharges := by
  have hkeeps := keeps_step storedLaws_length longEnough_of_rows h.keeps hok
  refine ⟨hkeeps, ?_⟩
  have hcharged := h.charged
  have hsound := h.keeps.sound
  have hheld := fun x hx => hsound.wf.fresh x (hsound.live x hx)
  cases op with
  | probe tokens => exact hcharged
  | execute op =>
      obtain ⟨hbytes, htables⟩ := execute_tables h.keeps hok
      obtain ⟨-, hcaches, -, -⟩ := execute_frame h.keeps hok
      refine hcharged.frame (hcharged.covered.frame hkeeps.sound.wf fun x hx => ?_) hbytes
      refine ⟨hcaches.symm ▸ hcharged.covered.live x hx, ?_⟩
      exact congrArg _ (htables x (hsound.indexes.snapshot_notMem hx))
  | acquire requestId tokens probe =>
      clear hkeeps h
      obtain ⟨⟨s, cache⟩, reservation, held⟩ := w
      rw [step, NativeCacheCoordinator.acquire]
      dsimp only at hcharged ⊢
      split
      · exact hcharged.create requestId
      generalize probe.getD _ = active
      have hacquired := hcharged.acquire requestId tokens active
      cases hcall : cache.acquire s requestId tokens active with
      | mk result after =>
          rw [hcall] at hacquired
          obtain ⟨c', s'⟩ := after
          cases result with
          | error e => exact hacquired
          | ok admission =>
              cases admission with
              | none => exact hacquired.create requestId
              | some admission => exact hacquired
  | publishCommitted handle tokens n =>
      exact hcharged.publish hsound.indexes hsound.wf hheld hok hpages
  | release handle =>
      cases handle with
      | none =>
          rw [step, NativeCacheCoordinator.release_none]
          exact hcharged
      | some x =>
          obtain ⟨hidle, hx⟩ := hok
          clear hkeeps h
          obtain ⟨⟨s, cache⟩, reservation, held⟩ := w
          have hindexes : cache.Indexes LongEnough s held := hsound.indexes
          -- the index answers without an error, and `x` is none of its snapshots
          obtain ⟨c', s', heq, hreleased, hnot⟩ : ∃ c' s', cache.release s (some x) =
              (.ok (), c', s') ∧ c'.Charged s' ∧ x ∉ c'.snapshots := by
            have hreleased := hcharged.release hindexes hsound.wf hpages
            by_cases hmem : x ∈ held
            · obtain ⟨c', s', heq, -, hindexes', -⟩ :=
                PrefixCache.release_eq storedLaws_length hindexes hsound.wf x
              rw [heq] at hreleased
              exact ⟨c', s', heq, hreleased, fun hsnap => hindexes'.snapshot_notMem hsnap hmem⟩
            · obtain ⟨c', heq, -⟩ := PrefixCache.release_of_notMem hindexes hmem
              rw [heq] at hreleased
              exact ⟨c', s, heq, hreleased, fun hsnap =>
                hx.resolve_left hmem (hreleased.covered.live x hsnap)⟩
          rw [step, NativeCacheCoordinator.release]
          dsimp only
          rw [heq]
          exact hreleased.frame (hreleased.covered.release hnot)
            (PagedKVCacheBackend.bytesPerPage_release _ _)

/-- The bytes of the pages that the stored snapshots refer to. -/
def snapshotBytes (w : PrefixStore ρ κ η) : ℕ :=
  (w.coordinator.backend.pagesOf w.coordinator.prefixCache.snapshots).card *
    w.coordinator.backend.bytesPerPage

/-- Whether a call gets to an eviction. -/
def CallEvicts (w : PrefixStore ρ κ η) (op : PrefixOp ρ κ) : Prop :=
  (w.evicts op).isSome ∨ (w.radixEvicts op).isSome

/-- What an eviction leaves. -/
theorem KeepsCharges.evicted [DecidableEq ρ] (h : w.KeepsCharges) {op : PrefixOp ρ κ}
    (hok : w.Follows LongEnough op) (hpages : w.ChargesPages op) (hevicts : w.CallEvicts op) :
    (w.step op).2.coordinator.prefixCache.prefixBytes ≤
        (w.step op).2.coordinator.prefixCache.maxBytes ∨
      (w.step op).2.coordinator.prefixCache.NothingEvictable := by
  have hcharged := h.charged
  have hkeeps := h.keeps
  obtain ⟨⟨s, cache⟩, reservation, held⟩ := w
  cases cache with
  | noPrefixCache => exact hevicts.elim (fun hsome => by cases hsome) fun hsome => by cases hsome
  | radix c =>
      have hradix : KeepsRadix ⟨⟨s, .radix c⟩, reservation, held⟩ :=
        ⟨hkeeps, c, rfl, hcharged.1⟩
      have hsome := hevicts.resolve_left fun hsome => by cases hsome
      obtain ⟨p, hp⟩ := Option.isSome_iff_exists.mp hsome
      obtain ⟨c₂, c', -, hcache, -, hsettled⟩ := hradix.evicts hok hp
      have hnext := (keepsCharges_step h hok hpages).charged
      rw [hcache] at hnext ⊢
      refine hsettled.imp (fun hwithin => ?_) id
      rw [RadixPrefixCache.OverLimits, not_or, not_lt, not_lt] at hwithin
      exact (RadixPrefixCache.Charged.storedBytes_eq hnext.1).symm.trans_le hwithin.2
  | blockHash c =>
      have hsome := hevicts.resolve_right fun hsome => by cases hsome
      obtain ⟨p, hp⟩ := Option.isSome_iff_exists.mp hsome
      have hsettled : ∀ {c' : BlockHashPrefixCache ρ η}, ¬ c'.OverLimits ∨ c'.victim p.1 = none →
          (PrefixCache.blockHash c').prefixBytes ≤ (PrefixCache.blockHash c').maxBytes ∨
          (PrefixCache.blockHash c').NothingEvictable := by
        intro c' hc'
        refine hc'.imp (fun hwithin => ?_) fun hnone => ⟨p.1, hnone⟩
        rw [BlockHashPrefixCache.OverLimits, not_or, not_lt, not_lt] at hwithin
        exact hwithin.2
      cases op with
      | probe tokens => cases hp
      | acquire requestId tokens probe => cases hp
      | execute op => cases hp
      | publishCommitted handle tokens n =>
          exact hsettled ((BlockHashPrefixCache.Charged.publish hcharged hpages).2 p hp)
      | release handle =>
          cases handle with
          | none => cases hp
          | some x =>
              have hreleased := (BlockHashPrefixCache.Charged.release hcharged hpages).2 p hp
              rw [step, NativeCacheCoordinator.release, PrefixCache.release]
              dsimp only
              cases hcall : c.release s (some x) with
              | mk result after =>
                  rw [hcall] at hreleased
                  cases result <;> exact hsettled hreleased

/-- Two prompts with one first page, computed side by side, of which each has its own copy. -/
def publishTwice : List (PrefixOp ℕ ℕ) :=
  [.acquire 0 (List.range 8) none, .acquire 1 (List.range 16) none,
    .execute (.reserveBatch [0, 1] [8, 16]),
    .execute (.stageLayer 0 ⟨[2, 1, 16, 1], .float16, fun _ i => i⟩
      ⟨[2, 1, 16, 1], .float16, fun _ i => i⟩),
    .execute (.commit none), .publishCommitted 0 (List.range 8) 8,
    .publishCommitted 1 (List.range 16) 16]

end PrefixStore
end MlxRuntime
