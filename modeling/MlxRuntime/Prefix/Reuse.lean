import MlxRuntime.Prefix.Coordinator

/-!
# Prefix reuse

The coordinator, the store below it and an executor that appends rows to the caches
the coordinator gave out, in any order of calls.  A publication is the caller's word
that the first rows of a cache are those of the tokens; every admission then repeats
it truly.

## Main definitions

* `PrefixStore`, `PrefixOp`, `PrefixStore.step` — the transition system.
* `PrefixStore.Follows`, `PrefixStore.Keeps`, `PrefixStore.keeps_step` — the guard of the runs and
  what they keep, for any notion of what is stored in a cache.
* `PrefixStore.Honest`, `PrefixStore.Inv`, `PrefixStore.inv_step` — the same where the rows are
  those of the tokens.
* `PrefixStore.Reuses` — what an admission with reused tokens promises.
-/

namespace MlxRuntime

variable {ρ κ η : Type}

open PagedKVCacheBackend (HoldsTokens LongEnough StoredLaws kvRows length_visibleRows storedLaws_rows
  Shares)

/-- The coordinator, the last reservation made on its store, and the handles given out
and not yet released. -/
structure PrefixStore (ρ κ η : Type) where
  coordinator : NativeCacheCoordinator ρ κ η
  reservation : Option (PagedBatchReservation κ)
  held : Finset Handle

/-- A call on the coordinator, or of the executor on the store. -/
inductive PrefixOp (ρ κ : Type)
  | probe (tokens : List Token)
  | acquire (requestId : ρ) (tokens : List Token) (probe : Option PrefixProbe)
  | publishCommitted (handle : Handle) (tokens : List Token) (committedLength : ℕ)
  | release (handle : Option Handle)
  | execute (op : KVOp ρ κ)

/-- What a call answers. -/
inductive PrefixReply (κ : Type)
  | probed (probe : PrefixProbe)
  | acquired (result : Except PyError CacheAdmission)
  | published (result : Except PyError CachePublication)
  | released (result : Except PyError Unit)
  | executed (reply : KVReply κ)

/-- The tokens an answer reuses. -/
def PrefixReply.reusedTokens : PrefixReply κ → ℕ
  | .acquired (.ok admission) => admission.reusedTokens
  | _ => 0

namespace PrefixStore

/-- The store as its users see it. -/
def store (w : PrefixStore ρ κ η) : KVStore ρ κ := ⟨w.coordinator.backend, w.reservation⟩

variable [DecidableEq η]

/-- One call. -/
def step [DecidableEq ρ] (w : PrefixStore ρ κ η) :
    PrefixOp ρ κ → PrefixReply κ × PrefixStore ρ κ η
  | .probe tokens => (.probed (w.coordinator.probe tokens), w)
  | .acquire requestId tokens probe =>
      let (result, k) := w.coordinator.acquire requestId tokens probe
      let held := match result with
        | .ok admission => insert admission.cacheHandle w.held
        | .error _ => w.held
      (.acquired result, { w with coordinator := k, held := held })
  | .publishCommitted handle tokens committedLength =>
      let (result, k) := w.coordinator.publishCommitted handle tokens committedLength
      (.published result, { w with coordinator := k })
  | .release handle =>
      let (result, k) := w.coordinator.release handle
      (.released result, { w with coordinator := k, held := w.held \ handle.toFinset })
  | .execute op =>
      let (reply, store) := w.store.step op
      (.executed reply, { w with
        coordinator := { w.coordinator with backend := store.backend }
        reservation := store.reservation })

/-! ## The calls of a run -/

/-- The guard of a run: what is published is stored in a live cache, a release names a handle given
out that no open reservation names, or a dead one, and the executor appends to handles given
out. -/
def Follows (Stored : PagedKVCacheBackend ρ κ → Handle → List Token → Prop)
    (w : PrefixStore ρ κ η) : PrefixOp ρ κ → Prop
  | .publishCommitted handle tokens n => Stored w.coordinator.backend handle (tokens.take n)
  | .release (some h) => (∀ r ∈ w.store.outstanding, h ∉ r.requestCaches) ∧
      (h ∈ w.held ∨ h ∉ w.coordinator.backend.caches)
  | .execute (.reserveBatch caches _) => ∀ h ∈ caches, h ∈ w.held
  | .execute (.create _) | .execute (.fork _ _ _) | .execute (.release _)
  | .execute (.reset _) => False
  | _ => True

/-- What a run keeps: the coordinator is sound, the store refines some private lists, and an open
reservation names caches given out. -/
structure Keeps (Stored : PagedKVCacheBackend ρ κ → Handle → List Token → Prop)
    (w : PrefixStore ρ κ η) : Prop where
  sound : w.coordinator.Sound Stored w.held
  refines : ∃ layers t, KVStore.Refines layers w.store t
  named : ∀ r, w.store.outstanding = some r → ∀ x ∈ r.requestCaches, x ∈ w.held

variable {kvRow : List Token → Row κ} {w : PrefixStore ρ κ η}
  {Stored : PagedKVCacheBackend ρ κ → Handle → List Token → Prop}

/-- A call that leaves the reservation alone and shares the store keeps the rest. -/
theorem Keeps.of_shares (h : w.Keeps Stored) {k : NativeCacheCoordinator ρ κ η}
    {held : Finset Handle} (hshares : Shares w.held w.coordinator.backend k.backend)
    (hsound : k.Sound Stored held) (hsub : w.held ⊆ held) :
    Keeps Stored { w with coordinator := k, held := held } where
  sound := hsound
  refines := by
    obtain ⟨layers, t, ht⟩ := h.refines
    obtain ⟨t', ht'⟩ := hshares.refines ht h.named
    exact ⟨layers, t', ht'⟩
  named := fun r hr x hx => hsub (h.named r hr x hx)

theorem keeps_acquire [DecidableEq ρ] (hlaws : StoredLaws Stored) (h : w.Keeps Stored)
    (requestId : ρ) (tokens : List Token) (probe : Option PrefixProbe) :
    (w.step (.acquire requestId tokens probe)).2.Keeps Stored := by
  obtain ⟨admission, k', heq, hhandle, hsound, hbackend⟩ :=
    NativeCacheCoordinator.acquire_cases hlaws h.sound requestId tokens probe
  rw [step, heq]
  dsimp only
  rw [hhandle]
  rcases hbackend with ⟨-, hbackend⟩ | ⟨snapshot, n, pages, -, hbackend, hgrant, -⟩
  · refine ⟨hsound, ?_, fun r hr x hx => Finset.mem_insert_of_mem (h.named r hr x hx)⟩
    obtain ⟨layers, t, ht⟩ := h.refines
    have hisolated : KVStore.Isolated w.store (.create requestId : KVOp ρ κ) := trivial
    have hcreated := KVStore.refines_moves ht hisolated (KVStore.Moves.created requestId)
    rw [show w.store.backend.addCache requestId [] 0 = k'.backend from hbackend.symm] at hcreated
    exact ⟨layers, _, hcreated⟩
  · have hlen := hlaws.length_le hgrant.stored
    rw [List.length_take, min_eq_left hgrant.lt.le] at hlen
    refine h.of_shares ?_ hsound (Finset.subset_insert _ _)
    rw [hbackend]
    exact Shares.refl.forked (hlaws.live hgrant.stored) requestId hlen

theorem keeps_release [DecidableEq ρ] (hlaws : StoredLaws Stored) (h : w.Keeps Stored)
    {handle : Option Handle} (hok : w.Follows Stored (.release handle)) :
    (w.step (.release handle)).2.Keeps Stored := by
  cases handle with
  | none =>
      rw [step, NativeCacheCoordinator.release_none, Option.toFinset_none, Finset.sdiff_empty]
      exact h
  | some x =>
      obtain ⟨hidle, hx⟩ := hok
      rw [step, Option.toFinset_some, Finset.sdiff_singleton_eq_erase]
      by_cases hmem : x ∈ w.held
      · obtain ⟨k', s', heq, hshares, hlive, hbackend, hsound⟩ :=
          NativeCacheCoordinator.release_eq hlaws h.sound hmem
        rw [heq]
        refine ⟨hsound, ?_, fun r hr y hy => Finset.mem_erase.mpr ⟨?_, h.named r hr y hy⟩⟩
        · obtain ⟨layers, t, ht⟩ := h.refines
          obtain ⟨t', ht'⟩ := hshares.refines ht h.named
          have hok : KVStore.Isolated ⟨s', w.reservation⟩ (.release (some x) : KVOp ρ κ) := hidle
          have hreleased := KVStore.refines_moves ht' hok (.released hlive)
          rw [← hbackend] at hreleased
          exact ⟨layers, _, hreleased⟩
        · rintro rfl
          exact hidle r hr hy
      · obtain ⟨k', heq, hbackend, hsound⟩ :=
          NativeCacheCoordinator.release_of_notMem h.sound (hx.resolve_left hmem)
        rw [heq, Finset.erase_eq_of_notMem hmem]
        exact h.of_shares (hbackend ▸ .refl) hsound subset_rfl

/-- The executor's calls keep the caches there are, and what the ones they do not write
to hold. -/
theorem execute_frame [DecidableEq ρ] (h : w.Keeps Stored) {op : KVOp ρ κ}
    (hok : w.Follows Stored (.execute op)) :
    let store := (w.store.step op).2
    (∃ layers t, KVStore.Refines layers store t) ∧
      store.backend.caches = w.store.backend.caches ∧
      (∀ x ∈ w.store.backend.caches, x ∉ w.held →
        store.backend.visibleRows x = w.store.backend.visibleRows x) ∧
      ∀ r, store.outstanding = some r → ∀ x ∈ r.requestCaches, x ∈ w.held := by
  obtain ⟨layers, t, ht⟩ := h.refines
  have hisolated : w.store.Isolated op := by
    cases op with
    | reserveBatch caches appendLengths => exact fun x hx => h.sound.live x (hok x hx)
    | release handle => exact hok.elim
    | _ => trivial
  have hm := KVStore.moves_step ht.inv (ht.commitsLive op)
  have hnext := KVStore.refines_moves ht hisolated hm
  have hcaches : (w.store.step op).2.backend.caches = w.store.backend.caches ∧
      ∀ r, (w.store.step op).2.outstanding = some r → ∀ x ∈ r.requestCaches, x ∈ w.held := by
    generalize (w.store.step op).1 = reply at hm
    generalize (w.store.step op).2 = store at hm
    cases hm with
    | quiet _ n => exact ⟨rfl, h.named⟩
    | created | forked | released | reset => exact hok.elim
    | @reserved caches appendLengths changes r hclosed hcreated hr =>
        refine ⟨rfl, fun r' hr' x hx => hok x ?_⟩
        obtain rfl := Option.some.inj (KVStore.outstanding_eq_some.mp hr').1
        rw [hr.eq_new] at hx
        exact hx
    | @staged layer keys values r hopen hst =>
        refine ⟨rfl, fun r' hr' x hx => h.named r hopen x ?_⟩
        obtain rfl := Option.some.inj (KVStore.outstanding_eq_some.mp hr').1
        exact hx
    | committed | aborted =>
        refine ⟨rfl, fun r' hr' => ?_⟩
        obtain ⟨hr', hfin⟩ := KVStore.outstanding_eq_some.mp hr'
        obtain rfl := Option.some.inj hr'
        cases hfin
  refine ⟨⟨layers, _, hnext⟩, hcaches.1, fun x hx hnot => ?_, hcaches.2⟩
  refine ht.visibleRows_step hisolated hx (hcaches.1.symm ▸ hx) ?_
  rintro e r rfl hr hmem
  exact hnot (h.named r hr x hmem)

/-- **The step lemma.** Every call of the guard keeps it, when what is stored in a cache depends on
its rows only. -/
theorem keeps_step [DecidableEq ρ] (hlaws : StoredLaws Stored) (hrows : ∀ {s s' x tokens},
      x ∈ s'.caches → s'.visibleRows x = s.visibleRows x → Stored s x tokens → Stored s' x tokens)
    (h : w.Keeps Stored) {op : PrefixOp ρ κ} (hok : w.Follows Stored op) :
    (w.step op).2.Keeps Stored := by
  cases op with
  | probe tokens => exact h
  | acquire requestId tokens probe => exact keeps_acquire hlaws h requestId tokens probe
  | publishCommitted handle tokens n =>
      obtain ⟨publication, k', heq, hshares, hsound⟩ :=
        NativeCacheCoordinator.publishCommitted_eq hlaws h.sound hok
      rw [step, heq]
      exact h.of_shares hshares hsound subset_rfl
  | release handle => exact keeps_release hlaws h hok
  | execute op =>
      obtain ⟨hrefines, hcaches, hkept, hnamed⟩ := execute_frame h hok
      obtain ⟨layers, t, ht⟩ := hrefines
      refine ⟨⟨ht.inv.wf, h.sound.indexes.frame fun x tokens hx hst => ?_, ?_⟩,
        ⟨layers, t, ht⟩, hnamed⟩
      · have hlive := hlaws.live hst
        exact hrows (hcaches.symm ▸ hlive) (hkept x hlive hx) hst
      · exact fun x hx => hcaches.symm ▸ h.sound.live x hx

/-- A stack just built. -/
theorem keeps_ofConfig {config : PagedKVConfig} {zero : κ} {noRequest : ρ} {store : KVStore ρ κ}
    {cache₀ cache : PrefixCache ρ η} (hstore : KVStore.ofConfig config zero noRequest = .ok store)
    (hcache : cache₀.postInit = .ok cache) :
    Keeps Stored ⟨⟨store.backend, cache⟩, store.reservation, ∅⟩ := by
  have hrefines := KVStore.refines_ofConfig hstore
  refine ⟨⟨hrefines.inv.wf, PrefixCache.indexes_postInit hcache _, by simp⟩,
    ⟨_, _, hrefines⟩, fun r hr => ?_⟩
  rw [KVStore.ofConfig] at hstore
  cases hpost : PagedKVCacheBackend.postInit config zero noRequest with
  | error e => simp [hpost, Except.map] at hstore
  | ok s =>
      obtain rfl : KVStore.mk s none = store := by simpa [hpost, Except.map] using hstore
      simp [PrefixStore.store, KVStore.outstanding] at hr

/-- The length of a cache is the number of its rows. -/
theorem longEnough_of_rows {s s' : PagedKVCacheBackend ρ κ} {x : Handle} {tokens : List Token}
    (hlive : x ∈ s'.caches) (hrows : s'.visibleRows x = s.visibleRows x)
    (h : LongEnough s x tokens) : LongEnough s' x tokens := by
  have hlength := congrArg List.length hrows
  rw [length_visibleRows, length_visibleRows] at hlength
  exact ⟨hlive, h.2.trans_eq hlength.symm⟩

/-! ## Honest runs -/

/-- The guard: a publication tells the truth, a release names a handle given out that
no open reservation names, or a dead one, and the executor appends to handles given out. -/
def Honest (kvRow : List Token → Row κ) (w : PrefixStore ρ κ η) : PrefixOp ρ κ → Prop
  | .publishCommitted handle tokens n =>
      HoldsTokens kvRow w.coordinator.backend handle (tokens.take n)
  | .release (some h) => (∀ r ∈ w.store.outstanding, h ∉ r.requestCaches) ∧
      (h ∈ w.held ∨ h ∉ w.coordinator.backend.caches)
  | .execute (.reserveBatch caches _) => ∀ h ∈ caches, h ∈ w.held
  | .execute (.create _) | .execute (.fork _ _ _) | .execute (.release _)
  | .execute (.reset _) => False
  | _ => True

instance [DecidableEq κ] (kvRow : List Token → Row κ) (w : PrefixStore ρ κ η) :
    DecidablePred (w.Honest kvRow)
  | .publishCommitted _ _ _ => inferInstanceAs (Decidable (_ ∧ _))
  | .release (some _) => inferInstanceAs (Decidable ((∀ r ∈ w.store.outstanding, _) ∧ _))
  | .execute (.reserveBatch caches _) => inferInstanceAs (Decidable (∀ h ∈ caches, _))
  | .execute (.create _) | .execute (.fork _ _ _) | .execute (.release _)
  | .execute (.reset _) => inferInstanceAs (Decidable False)
  | .probe _ | .acquire _ _ _ | .release none | .execute (.get _ _)
  | .execute (.stageLayer _ _ _) | .execute (.commit _) | .execute .abort =>
      inferInstanceAs (Decidable True)

omit [DecidableEq η] in
theorem Honest.follows {op : PrefixOp ρ κ} (h : w.Honest kvRow op) :
    w.Follows (HoldsTokens kvRow) op := by
  cases op with
  | release handle => cases handle <;> exact h
  | execute op => cases op <;> exact h
  | _ => exact h

/-- The invariant: the coordinator is sound, the store refines some private lists, and an
open reservation names caches given out. -/
structure Inv (kvRow : List Token → Row κ) (w : PrefixStore ρ κ η) : Prop where
  sound : w.coordinator.Sound (HoldsTokens kvRow) w.held
  refines : ∃ layers t, KVStore.Refines layers w.store t
  named : ∀ r, w.store.outstanding = some r → ∀ x ∈ r.requestCaches, x ∈ w.held

theorem Keeps.inv (h : w.Keeps (HoldsTokens kvRow)) : w.Inv kvRow :=
  ⟨h.sound, h.refines, h.named⟩

/-- **The step lemma.** Every honest call keeps the invariant. -/
theorem inv_step [DecidableEq ρ] (h : w.Inv kvRow) {op : PrefixOp ρ κ}
    (hok : w.Honest kvRow op) : (w.step op).2.Inv kvRow := by
  have hkeeps : w.Keeps (HoldsTokens kvRow) := ⟨h.sound, h.refines, h.named⟩
  refine (keeps_step (storedLaws_rows kvRow) (fun hlive hrows hst => ⟨hlive, ?_⟩) hkeeps
    hok.follows).inv
  exact (congrArg (List.take _) hrows).trans hst.2

/-! ## Admissions -/

/-- What an admission promises when it reuses tokens: the new cache holds exactly the
rows of a proper prefix of the prompt, whole pages of it, and the snapshot it was forked
from was live and still is. -/
structure Reuses (kvRow : List Token → Row κ) (w w' : PrefixStore ρ κ η) (tokens : List Token)
    (admission : CacheAdmission) : Prop where
  live : admission.cacheHandle ∈ w'.coordinator.backend.caches
  rows : w'.coordinator.backend.visibleRows admission.cacheHandle =
    kvRows kvRow (tokens.take admission.reusedTokens)
  length_eq : admission.cacheLength = admission.reusedTokens
  dvd : w.coordinator.prefixCache.pageSize ∣ admission.reusedTokens
  lt : admission.reusedTokens < tokens.length
  snapshot : ∃ snapshot, w'.coordinator.prefixCache.snapshotOf admission.cacheHandle =
      some snapshot ∧
    snapshot ∈ w.coordinator.backend.caches ∧ snapshot ∈ w'.coordinator.backend.caches

theorem reuses_of_acquire [DecidableEq ρ] (h : w.Inv kvRow) (requestId : ρ) (tokens : List Token)
    (probe : Option PrefixProbe) :
    ∃ admission w', w.step (.acquire requestId tokens probe) =
        (.acquired (.ok admission), w') ∧
      (0 < admission.reusedTokens → Reuses kvRow w w' tokens admission) := by
  obtain ⟨admission, k', heq, hhandle, hsound, hbackend⟩ :=
    NativeCacheCoordinator.acquire_cases (storedLaws_rows kvRow) h.sound requestId tokens probe
  refine ⟨admission, _, by rw [step, heq], fun hreused => ?_⟩
  rcases hbackend with ⟨rfl, -⟩ | ⟨snapshot, n, pages, rfl, hbackend, hgrant, hof⟩
  · exact absurd hreused (lt_irrefl 0)
  have hlen := (storedLaws_rows kvRow).length_le hgrant.stored
  have hrows := hgrant.stored.2
  rw [List.length_take, min_eq_left hgrant.lt.le] at hlen hrows
  refine ⟨?_, ?_, rfl, hgrant.dvd, hgrant.lt, snapshot, hof, hgrant.stored.1, ?_⟩
  · rw [hbackend]
    exact Finset.mem_insert_self _ _
  · rw [hbackend, PagedKVCacheBackend.forked,
      PagedKVCacheBackend.visibleRows_fork h.sound.wf requestId hlen, hrows]
  · rw [hbackend]
    exact Finset.mem_insert_of_mem hgrant.stored.1

/-- **Prefix reuse is sound.** After every honest run, whatever the index, its limits and
its page hash, an acquire answers with an admission; the reused tokens are in the cache;
and every handle that pins a snapshot pins a live one. -/
theorem prefixReuse_sound [DecidableEq ρ] {config : PagedKVConfig} {zero : κ} {noRequest : ρ}
    {store : KVStore ρ κ} {cache₀ cache : PrefixCache ρ η} {ops : List (PrefixOp ρ κ)}
    (hstore : KVStore.ofConfig config zero noRequest = .ok store)
    (hcache : cache₀.postInit = .ok cache)
    (hops : Run.Each step (Honest kvRow) ⟨⟨store.backend, cache⟩, store.reservation, ∅⟩ ops) :
    let w := Run.exec step ⟨⟨store.backend, cache⟩, store.reservation, ∅⟩ ops
    (∀ requestId tokens probe, ∃ admission w', w.step (.acquire requestId tokens probe) =
        (.acquired (.ok admission), w') ∧
      (0 < admission.reusedTokens → Reuses kvRow w w' tokens admission)) ∧
    ∀ handle ∈ w.coordinator.prefixCache.activeHandles, ∃ snapshot,
      w.coordinator.prefixCache.snapshotOf handle = some snapshot ∧
      snapshot ∈ w.coordinator.backend.caches := by
  intro w
  have hstep : ∀ (w : PrefixStore ρ κ η) op, w.Inv kvRow → w.Honest kvRow op →
      (w.step op).2.Inv kvRow := fun w op h hok => inv_step h hok
  have h : w.Inv kvRow := Run.exec_invariant hstep (keeps_ofConfig hstore hcache).inv hops
  refine ⟨fun requestId tokens probe => reuses_of_acquire h requestId tokens probe,
    fun handle hmem => ?_⟩
  obtain ⟨snapshot, hlive, hof⟩ := h.sound.indexes.snapshotOf_live (storedLaws_rows kvRow) hmem
  exact ⟨snapshot, hof, hlive⟩

/-- A block-hash index whose page hash tells no two pages apart. -/
def constantHash : BlockHashPrefixCache ℕ Unit where
  compatibilityDigest := ""
  pageSize := 8
  maxEntries := 4
  maxBytes := 96
  pageHash := fun _ _ => ()
  noParent := ()
  snapshotId := fun _ => 9
  readings := fun _ => 0

/-- The row at a position: the sum and the number of the tokens up to it. -/
def sumRow (tokens : List Token) : Row ℕ := [(tokens.sum, tokens.length)]

/-- A prompt of sixteen tokens computed, published and released. -/
def publishSixteen : List (PrefixOp ℕ ℕ) :=
  [.acquire 0 (List.range 16) none, .execute (.reserveBatch [0] [16]),
    .execute (.stageLayer 0
      ⟨[1, 1, 16, 1], .float16, fun _ i => (List.range (i + 1)).sum⟩
      ⟨[1, 1, 16, 1], .float16, fun _ i => i + 1⟩),
    .execute (.commit none), .publishCommitted 0 (List.range 16) 16, .release (some 0)]

/-- With a constant hash only the first page is indexed, and the next prompt reuses it. -/
theorem reuses_with_constant_hash : ∃ store cache,
    KVStore.ofConfig KVStore.threePages 0 0 = .ok store ∧
    (PrefixCache.blockHash constantHash).postInit = .ok cache ∧
      let w : PrefixStore ℕ ℕ Unit :=
        Run.exec step ⟨⟨store.backend, cache⟩, store.reservation, ∅⟩ publishSixteen
      ∃ admission w', w.step (.acquire 1 (List.range 17) none) = (.acquired (.ok admission), w') ∧
        admission.reusedTokens = 8 ∧ Reuses sumRow w w' (List.range 17) admission := by
  refine ⟨_, _, rfl, rfl, ?_⟩
  have hstore : KVStore.ofConfig KVStore.threePages 0 0 = .ok (_ : KVStore ℕ ℕ) := rfl
  have hcache : (PrefixCache.blockHash constantHash).postInit = .ok _ := rfl
  obtain ⟨admission, w', heq, hreuses⟩ :=
    (@prefixReuse_sound _ _ _ _ sumRow _ _ _ _ _ _ _ publishSixteen hstore hcache
      (by decide)).1 1 (List.range 17) none
  have hreused : admission.reusedTokens = 8 :=
    (congrArg (fun answer => answer.1.reusedTokens) heq).symm.trans (by decide)
  exact ⟨admission, w', heq, hreused, hreuses (by omega)⟩

end PrefixStore
end MlxRuntime
