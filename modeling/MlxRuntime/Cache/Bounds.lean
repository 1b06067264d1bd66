import MlxRuntime.Cache.Reservation

/-!
# What the store keeps in any order of calls

The page-table invariant needs every commit to find its caches live.  Less is true
without that guard, and it is enough for a reservation to be finished: page numbers
stay in range, pins stay nonnegative, and an open reservation keeps its pins.  So an
abort never raises and a commit either raises before it changes anything or goes
through.

## Main definitions

* `InBounds s` — kept by every call.
* `Holds s r` — `r` is open on `s`; kept by every call that does not finish `r`.
* `commit_cases_of_holds` — the two ends of a commit.
-/

namespace MlxRuntime.PagedKVCacheBackend

variable {ρ κ : Type} {s : PagedKVCacheBackend ρ κ} {r : PagedBatchReservation κ}

/-- The pages and handles of a store are in range and no pin count is negative. -/
structure InBounds (s : PagedKVCacheBackend ρ κ) : Prop where
  pageSize_pos : 0 < s.pageSize
  fresh : ∀ h ∈ s.caches, h < s.nextHandle
  table_lt : ∀ h, ∀ p ∈ (s.cacheOf h).blockTable, p < s.numPages
  free_lt : ∀ p ∈ s.freePages, p < s.numPages
  pin_nonneg : ∀ p, 0 ≤ s.pinCounts p

/-- `r` is open on `s`, with its pins. -/
structure Holds (s : PagedKVCacheBackend ρ κ) (r : PagedBatchReservation κ) : Prop where
  not_finished : r.finished = false
  shaped : r.Shaped
  created : ∀ h ∈ r.requestCaches, h < s.nextHandle
  tables_lt : ∀ table ∈ r.candidateTables, ∀ p ∈ table, p < s.numPages
  reserved_sub : ∀ p ∈ r.reservedPages, p ∈ s.reservedPages
  pinned_nodup : r.pinnedPages.Nodup
  pinned_pos : ∀ p ∈ r.pinnedPages, 1 ≤ s.pinCounts p
  busy : (∃ p, p ∈ r.reservedPages) ∨ ∃ p ∈ r.pinnedPages, p < s.numPages

/-- What keeps a reservation open. -/
theorem Holds.frame {s' : PagedKVCacheBackend ρ κ} (h : s.Holds r)
    (hpages : s'.numPages = s.numPages) (hnext : s.nextHandle ≤ s'.nextHandle)
    (hreserved : ∀ p ∈ s.reservedPages, p ∈ s'.reservedPages)
    (hpins : ∀ p, s.pinCounts p ≤ s'.pinCounts p) : s'.Holds r where
  not_finished := h.not_finished
  shaped := h.shaped
  created := fun x hx => lt_of_lt_of_le (h.created x hx) hnext
  tables_lt := by rw [hpages]; exact h.tables_lt
  reserved_sub := fun p hp => hreserved p (h.reserved_sub p hp)
  pinned_nodup := h.pinned_nodup
  pinned_pos := fun p hp => le_trans (h.pinned_pos p hp) (hpins p)
  busy := by rw [hpages]; exact h.busy

theorem inBounds_postInit {config : PagedKVConfig} {zero : κ} {noRequest : ρ}
    (h : postInit config zero noRequest = .ok s) : s.InBounds := by
  obtain ⟨hwf, -, -, -, -⟩ := wf_postInit h
  exact ⟨hwf.pageSize_pos, hwf.fresh, hwf.table_lt, hwf.free_lt, hwf.pin_nonneg⟩

namespace InBounds

theorem allocationFailed (hs : s.InBounds) (n : ℕ) : (s.allocationFailed n).InBounds := { hs with }

theorem addCache (hs : s.InBounds) (requestId : ρ) {table : List Page} (length : ℕ)
    (htable : ∀ p ∈ table, p < s.numPages) : (s.addCache requestId table length).InBounds := by
  refine { hs with fresh := ?_, table_lt := ?_ }
  · intro h hh
    rcases Finset.mem_insert.mp hh with rfl | hh
    · exact Nat.lt_succ_self _
    · exact Nat.lt_succ_of_lt (hs.fresh h hh)
  · intro h
    by_cases hh : h = s.nextHandle
    · subst hh
      simpa [PagedKVCacheBackend.addCache] using htable
    · simpa [PagedKVCacheBackend.addCache, Function.update_of_ne hh] using hs.table_lt h

theorem create (hs : s.InBounds) (requestId : ρ) : (s.create requestId).2.InBounds := by
  rw [create_eq]
  exact hs.addCache requestId 0 (by simp)

theorem fork (hs : s.InBounds) (handle : Handle) (requestId : ρ) (length : Option ℤ) :
    (s.fork handle requestId length).2.InBounds := by
  rcases s.fork_cases handle requestId length with ⟨e, -, heq⟩ | ⟨-, -, heq⟩ <;> rw [heq]
  · exact hs
  · exact hs.addCache requestId _ fun p hp => hs.table_lt _ p (List.mem_of_mem_take hp)

end InBounds

/-- The free list only gains pages of the released table. -/
theorem mem_releasePages {pins : Page → ℤ} {pages : List Page} {refs : Page → ℤ}
    {free : List Page} {p : Page} (h : p ∈ (releasePages pins pages refs free).2.2) :
    p ∈ free ∨ p ∈ pages := by
  induction pages generalizing refs free with
  | nil => exact .inl h
  | cons page pages ih =>
      rw [releasePages.eq_def] at h
      dsimp only at h
      split at h
      · exact .inl h
      · rcases ih h with hp | hp
        · split at hp
          · rcases List.mem_append.mp hp with hp | hp
            · exact .inl hp
            · exact .inr (List.mem_cons.mpr (.inl (List.mem_singleton.mp hp)))
          · exact .inl hp
        · exact .inr (List.mem_cons_of_mem _ hp)

/-- Whatever a release does, it does to the reference counts, the free list and the
set of live handles. -/
theorem release_cases (s : PagedKVCacheBackend ρ κ) (handle : Option Handle) :
    ∃ caches refs free, (s.release handle).2 =
        { s with caches := caches, refCounts := refs, freePages := free } ∧
      caches ⊆ s.caches ∧ (∀ h ∈ s.caches, handle ≠ some h → h ∈ caches) ∧
      (∀ h ∈ handle, h ∉ caches) ∧
      ∀ p ∈ free, p ∈ s.freePages ∨ ∃ h, p ∈ (s.cacheOf h).blockTable := by
  cases handle with
  | none => exact ⟨_, _, _, rfl, subset_rfl, fun h hh _ => hh, by simp, fun p hp => .inl hp⟩
  | some h =>
      by_cases hh : h ∈ s.caches
      · have herase : ∀ x ∈ s.caches, some h ≠ some x → x ∈ s.caches.erase h :=
          fun x hx hne => Finset.mem_erase.mpr ⟨fun heq => hne (by rw [heq]), hx⟩
        have hgone : ∀ x ∈ some h, x ∉ s.caches.erase h := by simp
        have hfree : ∀ p, p ∈ (releasePages s.pinCounts (s.cacheOf h).blockTable s.refCounts
            s.freePages).2.2 → p ∈ s.freePages ∨ p ∈ (s.cacheOf h).blockTable :=
          fun p => mem_releasePages
        cases hloop : releasePages s.pinCounts (s.cacheOf h).blockTable s.refCounts s.freePages with
        | mk result rest =>
          simp only [hloop] at hfree
          cases result with
          | error e =>
              refine ⟨s.caches.erase h, rest.1, rest.2, by simp [release, hh, hloop],
                Finset.erase_subset _ _, herase, hgone, fun p hp => ?_⟩
              exact (hfree p hp).imp_right fun hp => ⟨h, hp⟩
          | ok u =>
              refine ⟨s.caches.erase h, rest.1, sortPages rest.2, by simp [release, hh, hloop],
                Finset.erase_subset _ _, herase, hgone, fun p hp => ?_⟩
              exact (hfree p (mem_sortPages.mp hp)).imp_right fun hp => ⟨h, hp⟩
      · rw [release_of_notMem hh]
        exact ⟨_, _, _, rfl, subset_rfl, fun x hx _ => hx, by simpa using hh,
          fun p hp => .inl hp⟩

theorem InBounds.release (hs : s.InBounds) (handle : Option Handle) :
    (s.release handle).2.InBounds := by
  obtain ⟨caches, refs, free, heq, hsub, -, -, hfree⟩ := s.release_cases handle
  rw [heq]
  refine { hs with fresh := fun h hh => hs.fresh h (hsub hh), free_lt := fun p hp => ?_ }
  rcases hfree p hp with hp | ⟨h, hp⟩
  · exact hs.free_lt p hp
  · exact hs.table_lt h p hp

theorem Holds.release (h : s.Holds r) (handle : Option Handle) :
    (s.release handle).2.Holds r := by
  obtain ⟨caches, refs, free, heq, -⟩ := s.release_cases handle
  rw [heq]
  exact h.frame rfl le_rfl (fun _ hp => hp) fun _ => le_rfl

theorem Holds.addCache (h : s.Holds r) (requestId : ρ) (table : List Page) (length : ℕ) :
    (s.addCache requestId table length).Holds r :=
  h.frame rfl (Nat.le_succ _) (fun _ hp => hp) fun _ => le_rfl

theorem Holds.create (h : s.Holds r) (requestId : ρ) : (s.create requestId).2.Holds r := by
  rw [create_eq]
  exact h.addCache requestId [] 0

theorem Holds.fork (h : s.Holds r) (handle : Handle) (requestId : ρ) (length : Option ℤ) :
    (s.fork handle requestId length).2.Holds r := by
  rcases s.fork_cases handle requestId length with ⟨e, -, heq⟩ | ⟨-, -, heq⟩ <;> rw [heq]
  · exact h
  · exact h.addCache requestId _ _

/-! ## Reserving -/

theorem InBounds.reservedFor (hs : s.InBounds) : (s.reservedFor r).InBounds := by
  refine { hs with pin_nonneg := fun p => ?_ }
  have := hs.pin_nonneg p
  simp only [PagedKVCacheBackend.reservedFor]
  split <;> omega

/-- A reservation just made is held. -/
theorem holds_reservedFor {caches : List Handle} {appendLengths : List ℕ}
    {changes : List TableChange} (hs : s.InBounds)
    (h : s.Reserves caches appendLengths changes r)
    (hcreated : ∀ x ∈ caches, x < s.nextHandle) : (s.reservedFor r).Holds r := by
  have heq := h.eq_new
  have hshaped : r.Shaped := ⟨by rw [heq]; exact h.nodup, by rw [heq]; exact h.length_eq.symm,
    by rw [h.tables_length, heq]; rfl⟩
  have hreserved : ∀ p ∈ r.reservedPages, p < s.numPages := fun p hp =>
    hs.free_lt p (mem_availablePages.mp (h.available_of_reserved hp)).1
  refine ⟨by rw [heq]; rfl, hshaped, by rw [heq]; exact hcreated, ?_, ?_,
    by rw [heq]; exact nodup_sortedSet _, ?_, h.busy hs.pageSize_pos hs.table_lt⟩
  · intro table htable p hp
    rw [← hshaped.changes_tables] at htable
    obtain ⟨x, hx, rfl⟩ := List.mem_map.mp htable
    obtain ⟨change, hchange, available, hext, htable⟩ := h.exists_change hx
    have hsub : ∀ q ∈ change.reserved, q ∈ r.reservedPages := by
      intro q hq
      rw [heq]
      exact List.mem_flatMap.mpr ⟨change, hchange, hq⟩
    rw [htable] at hp
    rcases hext.shape with ⟨hsplit, -, -⟩ | ⟨last, replacement, rest, -, -, hsplit, -⟩ <;>
      rw [hsplit, List.mem_append] at hp
    · exact hp.elim (hs.table_lt _ p) fun hp => hreserved p (hsub p hp)
    · exact hp.elim (fun hp => hs.table_lt _ p (List.mem_of_mem_dropLast hp))
        fun hp => hreserved p (hsub p hp)
  · intro p hp
    exact Finset.mem_union_right _ (List.mem_toFinset.mpr hp)
  · intro p hp
    have := hs.pin_nonneg p
    simp only [reservedFor, hp, if_true]
    omega

/-- What a reservation set aside was not set aside before. -/
theorem reservedFor_ne {caches : List Handle} {appendLengths : List ℕ}
    {changes : List TableChange} (hs : s.InBounds)
    (h : s.Reserves caches appendLengths changes r) :
    (s.reservedFor r).reservedPages ≠ s.reservedPages ∨
      (s.reservedFor r).pinCounts ≠ s.pinCounts := by
  rcases h.busy hs.pageSize_pos hs.table_lt with ⟨p, hp⟩ | ⟨p, hp, -⟩
  · refine .inl fun heq => (mem_availablePages.mp (h.available_of_reserved hp)).2 ?_
    rw [← heq]
    exact Finset.mem_union_right _ (List.mem_toFinset.mpr hp)
  · refine .inr fun heq => ?_
    have := congrFun heq p
    simp [reservedFor, hp] at this

/-! ## Staging -/

theorem StagedFrom.inBounds {r' : PagedBatchReservation κ} {s' : PagedKVCacheBackend ρ κ}
    (h : StagedFrom s r r' s') (hs : s.InBounds) : s'.InBounds := by
  rw [h.store]; exact { hs with }

theorem StagedFrom.holds {r' : PagedBatchReservation κ} {s' : PagedKVCacheBackend ρ κ}
    (h : StagedFrom s r r' s') (ho : s.Holds r) : s'.Holds r' := by
  rw [h.store, h.reservation]
  exact ⟨ho.not_finished, ⟨ho.shaped.nodup, ho.shaped.appends_length, ho.shaped.tables_length⟩,
    ho.created, ho.tables_lt, ho.reserved_sub, ho.pinned_nodup, ho.pinned_pos, ho.busy⟩

/-! ## Finishing -/

theorem abort_of_holds (ho : s.Holds r) :
    s.abort r = (.ok (), { r with finished := true }, s.aborted r) := by
  simp [abort, ho.not_finished, finishReservation_eq ho.pinned_nodup ho.pinned_pos]

theorem Holds.inBounds_aborted (ho : s.Holds r) (hs : s.InBounds) : (s.aborted r).InBounds := by
  refine { hs with pin_nonneg := fun p => ?_ }
  have := hs.pin_nonneg p
  have := ho.pinned_pos p
  simp only [aborted]
  split <;> grind

/-- `_commit_reservation` raises before it changes anything, or goes through, when the
reservation has its pins. -/
theorem commitReservation_cases (hnodup : r.pinnedPages.Nodup)
    (hpos : ∀ p ∈ r.pinnedPages, 1 ≤ s.pinCounts p) :
    (∃ e, s.commitReservation r = (.error e, s)) ∨
    s.commitReservation r =
      (.ok (r.requestCaches.map fun h => ((s.committed r).cacheOf h).size), s.committed r) := by
  rw [commitReservation]
  dsimp only
  split
  · exact .inl ⟨_, rfl⟩
  · exact .inr (by simp [finishReservation, decrementEach_spec _ hnodup hpos, committed])

/-- **`commit`** raises before it changes anything, or goes through. -/
theorem commit_of_holds (ho : s.Holds r) (evalError : Option PyError) :
    (∃ e, s.commit r evalError = (.error e, r, s)) ∨
    s.commit r evalError =
      (.ok (r.requestCaches.map fun h => ((s.committed r).cacheOf h).size),
        { r with finished := true }, s.committed r) := by
  rw [commit.eq_def]
  split
  · exact .inl ⟨_, rfl⟩
  · split
    · exact .inl ⟨_, rfl⟩
    · cases evalError with
      | some e => exact .inl ⟨e, rfl⟩
      | none =>
          rcases commitReservation_cases ho.pinned_nodup ho.pinned_pos with ⟨e, heq⟩ | heq
          · exact .inl ⟨e, by simp [heq]⟩
          · exact .inr (by simp [heq])

/-- The scan of a commit finds pages of the pool only. -/
theorem mem_collectFreed {refs : Page → ℤ} {free : List Page} {p : Page}
    (h : p ∈ s.collectFreed r refs free) : p ∈ free ∨ p < s.numPages := by
  refine List.foldlRecOn (motive := fun free' => ∀ q ∈ free', q ∈ free ∨ q < s.numPages) _ _
    (fun q hq => .inl hq) ?_ p h
  intro free' hfree' page hpage q hq
  split at hq
  · rcases List.mem_append.mp hq with hq | hq
    · exact hfree' q hq
    · rw [List.mem_singleton.mp hq]
      exact .inr (List.mem_range.mp hpage)
  · exact hfree' q hq

theorem Holds.inBounds_committed (ho : s.Holds r) (hs : s.InBounds) :
    (s.committed r).InBounds := by
  refine {
    pageSize_pos := hs.pageSize_pos
    fresh := hs.fresh
    table_lt := ?_
    free_lt := ?_
    pin_nonneg := (ho.inBounds_aborted hs).pin_nonneg }
  · intro h p hp
    rcases ho.shaped.installTables_cases s.cacheOf h with
      ⟨change, hchange, rfl, heq⟩ | ⟨-, heq⟩ <;> simp only [committed, heq] at hp
    · refine ho.tables_lt change.2 ?_ p hp
      rw [← ho.shaped.changes_tables]
      exact List.mem_map_of_mem hchange
    · exact hs.table_lt h p hp
  · intro p hp
    rcases mem_collectFreed (mem_sortPages.mp hp) with hp | hp
    · exact hs.free_lt p (List.diff_subset _ _ hp)
    · exact hp

/-- `reset` is refused while a reservation is open. -/
theorem reset_of_holds (ho : s.Holds r) (resetCounters : Bool) :
    s.reset resetCounters =
      (.error (.runtimeError "cannot reset KV cache while pages are reserved or pinned"), s) := by
  rw [reset, if_pos]
  rcases ho.busy with ⟨p, hp⟩ | ⟨p, hp, hlt⟩
  · left
    intro hempty
    have := ho.reserved_sub p hp
    simp [hempty] at this
  · right
    have := ho.pinned_pos p hp
    exact List.any_eq_true.mpr ⟨p, List.mem_range.mpr hlt, by simp; omega⟩

theorem InBounds.reset (hs : s.InBounds) (resetCounters : Bool) :
    (s.reset resetCounters).2.InBounds := by
  rcases s.reset_cases resetCounters with ⟨e, -, heq⟩ | ⟨-, heq⟩ <;> rw [heq]
  · exact hs
  · exact { hs with
      fresh := by simp [emptied]
      free_lt := fun p hp => List.mem_range.mp hp }

end MlxRuntime.PagedKVCacheBackend
