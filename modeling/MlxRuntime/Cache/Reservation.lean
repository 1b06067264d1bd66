import MlxRuntime.Cache.PageTable

/-!
# Reservations keep the page-table invariant

The second half of the page-table theory: `reserve_batch`, `stage_layer`, `abort`,
`commit` and `reset`.  A commit is the one method that needs its caches live: its
reference-count arithmetic subtracts the old tables of the reservation's caches, and
those are counted only while the caches are in the store.
-/

namespace MlxRuntime

variable {ρ κ : Type} {s : PagedKVCacheBackend ρ κ} {r : PagedBatchReservation κ}

namespace PagedKVCacheBackend

/-! ## `reserve_batch` -/

/-- The reservation a batch gets from the changes of its tables. -/
def newReservation (s : PagedKVCacheBackend ρ κ) (caches : List Handle)
    (appendLengths : List ℕ) (changes : List TableChange) : PagedBatchReservation κ where
  requestCaches := caches
  appendLengths := appendLengths
  candidateTables := changes.map TableChange.table
  reservedPages := changes.flatMap TableChange.reserved
  copyPages := changes.flatMap TableChange.copyPages
  pinnedPages := s.pinnedBy caches
  stagedKeys := fun _ => none
  stagedValues := fun _ => none
  finished := false
  slotArray := s.slots caches appendLengths (changes.map TableChange.table)

/-- A store after it has set a reservation's pages aside and pinned its tables. -/
def reservedFor (s : PagedKVCacheBackend ρ κ) (r : PagedBatchReservation κ) :
    PagedKVCacheBackend ρ κ :=
  { s with
    pinCounts := fun page => if page ∈ r.pinnedPages then s.pinCounts page + 1 else s.pinCounts page
    reservedPages := s.reservedPages ∪ r.reservedPages.toFinset }

/-- A store that has counted one more failed allocation. -/
def allocationFailed (s : PagedKVCacheBackend ρ κ) (n : ℕ) : PagedKVCacheBackend ρ κ :=
  { s with allocationFailures := s.allocationFailures + n }

/-- `r` is what `s` answers to `reserve_batch caches appendLengths`. -/
structure Reserves (s : PagedKVCacheBackend ρ κ) (caches : List Handle)
    (appendLengths : List ℕ) (changes : List TableChange) (r : PagedBatchReservation κ) :
    Prop where
  caches_ne_nil : caches ≠ []
  length_eq : caches.length = appendLengths.length
  nodup : caches.Nodup
  appends_pos : 0 ∉ appendLengths
  chain : ∃ rest, s.Chain (caches.zip appendLengths) s.availablePages changes rest
  eq_new : r = s.newReservation caches appendLengths changes

theorem reserveBatch_cases (s : PagedKVCacheBackend ρ κ) (caches : List Handle)
    (appendLengths : List ℕ) :
    (∃ e n, ¬ BecameNegative e ∧
      s.reserveBatch caches appendLengths = (.error e, s.allocationFailed n)) ∨
    ∃ r changes, s.Reserves caches appendLengths changes r ∧
      s.reserveBatch caches appendLengths = (.ok r, s.reservedFor r) := by
  rw [reserveBatch]
  split
  case isTrue => exact .inl ⟨_, 0, by decide, rfl⟩
  case isFalse hlen =>
    simp only [not_or, not_not] at hlen
    split
    case isTrue => exact .inl ⟨_, 0, by decide, rfl⟩
    case isFalse hnodup =>
      split
      case isTrue => exact .inl ⟨_, 0, by decide, rfl⟩
      case isFalse hpos =>
        split
        case h_1 => exact .inl ⟨_, 1, by decide, rfl⟩
        case h_2 tables reserved copies hsome =>
          obtain ⟨changes, rest, hchain, rfl, rfl, rfl⟩ := candidateTables_spec hsome
          exact .inr ⟨_, changes,
            ⟨hlen.2, hlen.1, not_not.mp hnodup, hpos, ⟨rest, hchain⟩, rfl⟩, rfl⟩

theorem wf_allocationFailed (hs : s.Wf) (n : ℕ) : (s.allocationFailed n).Wf := { hs with }

theorem outstanding_allocationFailed (h : s.Outstanding r) (n : ℕ) :
    (s.allocationFailed n).Outstanding r :=
  h.frame rfl rfl le_rfl (fun _ hp => hp) (fun _ => le_rfl) (fun _ _ hx => hx) fun _ _ => rfl

theorem mem_availablePages {p : Page} :
    p ∈ s.availablePages ↔ p ∈ s.freePages ∧ p ∉ s.reservedPages := by
  simp [availablePages]

namespace Reserves

variable {caches : List Handle} {appendLengths : List ℕ} {changes : List TableChange}

theorem available_of_reserved (h : s.Reserves caches appendLengths changes r) {p : Page}
    (hp : p ∈ r.reservedPages) : p ∈ s.availablePages := by
  obtain ⟨rest, hchain⟩ := h.chain
  rw [hchain.split]
  rw [h.eq_new] at hp
  exact List.mem_append_left _ hp

theorem reserved_nodup (h : s.Reserves caches appendLengths changes r) (hs : s.Wf) :
    r.reservedPages.Nodup := by
  obtain ⟨rest, hchain⟩ := h.chain
  have hav : s.availablePages.Nodup := hs.free_nodup.filter _
  rw [hchain.split] at hav
  rw [h.eq_new]
  exact (List.nodup_append.mp hav).1

theorem tables_length (h : s.Reserves caches appendLengths changes r) :
    r.candidateTables.length = caches.length := by
  obtain ⟨rest, hchain⟩ := h.chain
  simp [h.eq_new, newReservation, hchain.length_eq, h.length_eq]

/-- The change behind each request of the batch. -/
theorem exists_change (h : s.Reserves caches appendLengths changes r)
    {x : (Handle × ℕ) × List Page} (hx : x ∈ r.changes) :
    ∃ change ∈ changes, ∃ available,
      s.Extends (s.cacheOf x.1.1) x.1.2 available change ∧ x.2 = change.table := by
  obtain ⟨rest, hchain⟩ := h.chain
  rw [h.eq_new] at hx
  simp only [PagedBatchReservation.changes, newReservation, List.zip_map_right,
    List.mem_map] at hx
  obtain ⟨⟨request, change⟩, hmem, rfl⟩ := hx
  obtain ⟨available, hext⟩ := hchain.extends_of_mem hmem
  exact ⟨change, (List.of_mem_zip hmem).2, available, hext, rfl⟩

/-- The tables a reservation proposes are the ones a commit may install. -/
theorem candidate (h : s.Reserves caches appendLengths changes r) (hs : s.Wf)
    {x : (Handle × ℕ) × List Page} (hx : x ∈ r.changes) (hlive : x.1.1 ∈ s.caches) :
    s.Candidate x.1.1 x.1.2 x.2 r.reservedPages := by
  obtain ⟨change, hchange, available, hext, htable⟩ := h.exists_change hx
  have hsub : ∀ p ∈ change.reserved, p ∈ r.reservedPages := by
    intro p hp
    rw [h.eq_new]
    exact List.mem_flatMap.mpr ⟨change, hchange, hp⟩
  have hnew : change.reserved.Nodup := by
    have hnodup := h.reserved_nodup hs
    rw [h.eq_new] at hnodup
    exact (List.nodup_flatMap.mp hnodup).1 change hchange
  have hdisj : ∀ p ∈ change.reserved, p ∉ (s.cacheOf x.1.1).blockTable := by
    intro p hp
    have hfree := (mem_availablePages.mp (h.available_of_reserved (hsub p hp))).1
    exact hs.notMem_table (hs.free_ref p hfree) hlive
  have hnodup := hs.table_nodup _ hlive
  refine ⟨?_, ?_, ?_⟩
  · rw [htable, hext.length_eq, hs.table_length _ hlive]
    exact max_eq_right (pagesFor_mono (Nat.le_add_right _ _))
  · rw [htable]
    rcases hext.shape with ⟨heq, -, -⟩ | ⟨last, replacement, rest, -, -, heq, -⟩ <;> rw [heq]
    · exact hnodup.append hnew fun p hp hp' => hdisj p hp' hp
    · exact ((List.dropLast_sublist _).nodup hnodup).append hnew
        fun p hp hp' => hdisj p hp' (List.mem_of_mem_dropLast hp)
  · intro p hp
    rw [htable] at hp
    rcases hext.shape with ⟨heq, -, -⟩ | ⟨last, replacement, rest, -, -, heq, -⟩ <;>
      rw [heq, List.mem_append] at hp
    · exact hp.imp_right (hsub p)
    · exact hp.imp List.mem_of_mem_dropLast (hsub p)

/-- A reservation always holds something: a page set aside or a pinned one. -/
theorem busy (h : s.Reserves caches appendLengths changes r) (hpos : 0 < s.pageSize)
    (hlt : ∀ h, ∀ p ∈ (s.cacheOf h).blockTable, p < s.numPages) :
    (∃ p, p ∈ r.reservedPages) ∨ ∃ p ∈ r.pinnedPages, p < s.numPages := by
  obtain ⟨handle, caches', rfl⟩ := List.exists_cons_of_ne_nil h.caches_ne_nil
  obtain ⟨n, appends, rfl⟩ := List.exists_cons_of_length_eq_add_one h.length_eq.symm
  obtain ⟨rest, hchain⟩ := h.chain
  cases hchain with
  | @cons _ _ _ _ _ change changes' head tail =>
    rw [h.eq_new]
    by_cases hres : change.reserved = []
    · -- Nothing taken: the table was long enough already, so it pins a page.
      have hlen := head.length_eq
      have hn : 0 < n := Nat.pos_of_ne_zero fun hn => h.appends_pos (by simp [hn])
      have hpages : 0 < pagesFor s.pageSize ((s.cacheOf handle).size + n) :=
        (lt_pagesFor hpos _ _).mpr (by omega)
      have hsame : change.table = (s.cacheOf handle).blockTable := by
        rcases head.shape with ⟨heq, -, -⟩ | ⟨_, _, _, -, hcons, -, -⟩
        · rw [heq, hres, List.append_nil]
        · rw [hres] at hcons; cases hcons
      have hne : (s.cacheOf handle).blockTable ≠ [] := by
        intro hnil
        rw [hsame, hnil] at hlen
        simp only [List.length_nil] at hlen
        omega
      obtain ⟨p, hp⟩ := List.exists_mem_of_ne_nil _ hne
      exact .inr ⟨p, by simp [newReservation, pinnedBy, hp], hlt _ p hp⟩
    · obtain ⟨p, hp⟩ := List.exists_mem_of_ne_nil _ hres
      exact .inl ⟨p, by simp [newReservation, hp]⟩

/-- Each reserved page is in a candidate table that differs from the current one. -/
theorem reserved_used (h : s.Reserves caches appendLengths changes r) (hs : s.Wf) {p : Page}
    (hp : p ∈ r.reservedPages) :
    ∃ x ∈ r.changes, p ∈ x.2 ∧ x.2 ≠ (s.cacheOf x.1.1).blockTable := by
  obtain ⟨rest, hchain⟩ := h.chain
  rw [h.eq_new] at hp
  obtain ⟨change, hchange, hp⟩ := List.mem_flatMap.mp hp
  have hunref : ∀ q ∈ change.reserved, s.refCounts q = 0 := by
    intro q hq
    have hmem : q ∈ r.reservedPages := by
      rw [h.eq_new]; exact List.mem_flatMap.mpr ⟨change, hchange, hq⟩
    exact hs.free_ref q (mem_availablePages.mp (h.available_of_reserved hmem)).1
  obtain ⟨i, hi, rfl⟩ := List.getElem_of_mem hchange
  have hi' : i < (caches.zip appendLengths).length := hchain.length_eq ▸ hi
  have hmem : ((caches.zip appendLengths)[i], changes[i]) ∈
      (caches.zip appendLengths).zip changes :=
    List.mem_iff_getElem.mpr ⟨i, by simpa [hchain.length_eq] using hi', by simp⟩
  obtain ⟨available, hext⟩ := hchain.extends_of_mem hmem
  refine ⟨((caches.zip appendLengths)[i], changes[i].table), ?_, ?_, ?_⟩
  · rw [h.eq_new]
    simp only [PagedBatchReservation.changes, newReservation, List.zip_map_right]
    exact List.mem_map.mpr ⟨_, hmem, rfl⟩
  · rcases hext.shape with ⟨heq, -, -⟩ | ⟨last, replacement, rest', -, -, heq, -⟩ <;>
      (rw [heq]; exact List.mem_append_right _ hp)
  · intro hsame
    dsimp only at hsame hext
    rcases hext.shape with ⟨heq, -, -⟩ | ⟨last, replacement, rest', hcopy, -, heq, -⟩
    · -- Pages were added at the end.
      have hlen := congrArg List.length (hsame.symm.trans heq)
      have hpos := List.length_pos_of_mem hp
      rw [List.length_append] at hlen
      omega
    · -- The last page, shared by two tables, was replaced by an unreferenced one.
      have hsplit := List.dropLast_append_getLast? last hcopy.1
      have hlast : changes[i].reserved = [last] :=
        List.append_cancel_left (heq.symm.trans (hsame.trans hsplit.symm))
      have hzero := hunref last (by simp [hlast])
      have hshared := hcopy.2.2
      omega

end Reserves

theorem wf_reservedFor {caches : List Handle} {appendLengths : List ℕ}
    {changes : List TableChange} (hs : s.Wf)
    (h : s.Reserves caches appendLengths changes r) : (s.reservedFor r).Wf := by
  refine { hs with reserved_free := ?_, pin_nonneg := ?_ }
  · intro p hp
    rcases Finset.mem_union.mp hp with hp | hp
    · exact hs.reserved_free p hp
    · exact (mem_availablePages.mp (h.available_of_reserved (List.mem_toFinset.mp hp))).1
  · intro p
    have := hs.pin_nonneg p
    simp only [reservedFor]
    split <;> omega

/-- A reservation just made is outstanding. -/
theorem outstanding_reservedFor {caches : List Handle} {appendLengths : List ℕ}
    {changes : List TableChange} (hs : s.Wf)
    (h : s.Reserves caches appendLengths changes r)
    (hcreated : ∀ x ∈ caches, x < s.nextHandle) : (s.reservedFor r).Outstanding r := by
  have heq := h.eq_new
  have hcand : ∀ x ∈ r.changes, x.1.1 ∈ (s.reservedFor r).caches →
      (s.reservedFor r).Candidate x.1.1 x.1.2 x.2 r.reservedPages := by
    intro x hx hlive
    obtain ⟨hlen, hnodup, hmem⟩ := h.candidate hs hx hlive
    exact ⟨hlen, hnodup, hmem⟩
  refine ⟨by rw [heq]; rfl, by rw [heq]; exact h.caches_ne_nil, by rw [heq]; exact h.nodup,
    by rw [heq]; exact h.length_eq.symm, by rw [h.tables_length, heq]; rfl,
    by rw [heq]; exact h.appends_pos, by rw [heq]; exact hcreated, ?_, h.reserved_nodup hs,
    fun p hp => h.reserved_used hs hp, by rw [heq]; exact nodup_sortedSet _, ?_,
    h.busy hs.pageSize_pos hs.table_lt, hcand⟩
  · intro p hp
    exact Finset.mem_union_right _ (List.mem_toFinset.mpr hp)
  · intro p hp
    have := hs.pin_nonneg p
    simp only [reservedFor, hp, if_true]
    omega

/-! ## `stage_layer` -/

/-- A store after the page copies of one layer of a reservation. -/
def copiedFor (s : PagedKVCacheBackend ρ κ) (r : PagedBatchReservation κ) (layer : ℕ) :
    PagedKVCacheBackend ρ κ :=
  { s with
    keyPages := Function.update s.keyPages layer (copyInto r.copyPages (s.keyPages layer))
    valuePages := Function.update s.valuePages layer (copyInto r.copyPages (s.valuePages layer)) }

/-- The pools one layer stages: the copies, then the packed rows at their slots. -/
def stagedPools (s : PagedKVCacheBackend ρ κ) (r : PagedBatchReservation κ) (layer : ℕ)
    (keys values : KVTensor κ) : PageArray κ × PageArray κ :=
  (s.stagedPool r keys (copyInto r.copyPages (s.keyPages layer)),
    s.stagedPool r values (copyInto r.copyPages (s.valuePages layer)))

/-- A reservation that has staged the given pools for one more layer. -/
def stagedWith (r : PagedBatchReservation κ) (layer : ℕ) (pools : PageArray κ × PageArray κ) :
    PagedBatchReservation κ :=
  { r with
    stagedKeys := Function.update r.stagedKeys layer (some pools.1)
    stagedValues := Function.update r.stagedValues layer (some pools.2) }

/-- The checks of `stage_layer`. -/
structure Stages (s : PagedKVCacheBackend ρ κ) (r : PagedBatchReservation κ) (layer : ℕ)
    (keys values : KVTensor κ) : Prop where
  not_finished : r.finished = false
  layer_lt : layer < s.numLayers
  unstaged : r.stagedKeys layer = none
  valid : s.validateKvShape keys values r.appendLengths = .ok ()

theorem not_becameNegative_of_validateKvShape {keys values : KVTensor κ}
    {appendLengths : List ℕ} {e : PyError}
    (h : s.validateKvShape keys values appendLengths = .error e) : ¬ BecameNegative e := by
  rw [validateKvShape] at h
  split at h
  · repeat' split at h
    all_goals first | (obtain rfl := Except.error.inj h; decide) | cases h
  · obtain rfl := Except.error.inj h
    decide

/-- The text for a layer staged twice starts with the letter `l`, whatever the
layer. -/
theorem not_becameNegative_staged_twice (layer : ℕ) :
    ¬ BecameNegative (.valueError s!"layer {layer} staged more than once") := by
  have hfirst : ∀ text : String,
      PyError.valueError s!"layer {layer} staged more than once" = .valueError text →
      text.toList.head? = some 'l' := by
    rintro text heq
    rw [← PyError.valueError.inj heq]
    simp [show toString "layer " = "layer " from rfl]
  rintro (hneg | hneg) <;> exact absurd (hfirst _ hneg) (by decide)

theorem stageLayer_cases (s : PagedKVCacheBackend ρ κ) (r : PagedBatchReservation κ)
    (layer : ℕ) (keys values : KVTensor κ) :
    (∃ e, ¬ BecameNegative e ∧ s.stageLayer r layer keys values = (.error e, r, s)) ∨
    (s.Stages r layer keys values ∧ s.stageLayer r layer keys values =
      (.ok (s.stagedPools r layer keys values),
        stagedWith r layer (s.stagedPools r layer keys values), s.copiedFor r layer)) := by
  rw [stageLayer]
  split
  case isTrue => exact .inl ⟨_, by decide, rfl⟩
  case isFalse hfin =>
    split
    case isTrue => exact .inl ⟨_, by decide, rfl⟩
    case isFalse hlayer =>
      split
      case isTrue => exact .inl ⟨_, not_becameNegative_staged_twice layer, rfl⟩
      case isFalse hstaged =>
        split
        case h_1 e hvalid => exact .inl ⟨e, not_becameNegative_of_validateKvShape hvalid, rfl⟩
        case h_2 hvalid =>
          exact .inr ⟨⟨by simpa using hfin, not_le.mp hlayer, by simpa using hstaged, hvalid⟩, rfl⟩

/-- What staging leaves behind: pools changed by the page copies and a reservation
that differs in what it has staged. -/
structure StagedFrom (s : PagedKVCacheBackend ρ κ) (r : PagedBatchReservation κ)
    (r' : PagedBatchReservation κ) (s' : PagedKVCacheBackend ρ κ) : Prop where
  store : s' = { s with keyPages := s'.keyPages, valuePages := s'.valuePages }
  reservation : r' = { r with stagedKeys := r'.stagedKeys, stagedValues := r'.stagedValues }

theorem StagedFrom.refl : StagedFrom s r r s := ⟨rfl, rfl⟩

theorem StagedFrom.trans {r' r'' : PagedBatchReservation κ}
    {s' s'' : PagedKVCacheBackend ρ κ} (h : StagedFrom s r r' s')
    (h' : StagedFrom s' r' r'' s'') : StagedFrom s r r'' s'' := by
  refine ⟨?_, ?_⟩
  · rw [h'.store, h.store]
  · rw [h'.reservation, h.reservation]

theorem stagedFrom_stageLayer (s : PagedKVCacheBackend ρ κ) (r : PagedBatchReservation κ)
    (layer : ℕ) (keys values : KVTensor κ) :
    StagedFrom s r (s.stageLayer r layer keys values).2.1
      (s.stageLayer r layer keys values).2.2 := by
  rcases s.stageLayer_cases r layer keys values with ⟨e, -, heq⟩ | ⟨-, heq⟩ <;> rw [heq]
  · exact .refl
  · exact ⟨rfl, rfl⟩

theorem StagedFrom.wf {r' : PagedBatchReservation κ} {s' : PagedKVCacheBackend ρ κ}
    (h : StagedFrom s r r' s') (hs : s.Wf) : s'.Wf := by
  rw [h.store]; exact { hs with }

theorem StagedFrom.outstanding {r' : PagedBatchReservation κ}
    {s' : PagedKVCacheBackend ρ κ} (h : StagedFrom s r r' s') (ho : s.Outstanding r) :
    s'.Outstanding r' := by
  rw [h.store, h.reservation]
  exact ⟨ho.not_finished, ho.caches_ne_nil, ho.nodup, ho.appends_length, ho.tables_length,
    ho.appends_pos, ho.created, ho.reserved_sub, ho.reserved_nodup, ho.reserved_used,
    ho.pinned_nodup, ho.pinned_pos, ho.busy, fun x hx hlive =>
      let c := ho.candidate x hx hlive; ⟨c.length_eq, c.nodup, c.mem⟩⟩

/-! ## `abort` -/

/-- A store without the reserved pages and pins of a reservation. -/
def aborted (s : PagedKVCacheBackend ρ κ) (r : PagedBatchReservation κ) :
    PagedKVCacheBackend ρ κ :=
  { s with
    reservedPages := s.reservedPages \ r.reservedPages.toFinset
    pinCounts := fun page => if page ∈ r.pinnedPages then s.pinCounts page - 1 else s.pinCounts page }

theorem finishReservation_eq (hnodup : r.pinnedPages.Nodup)
    (hpos : ∀ p ∈ r.pinnedPages, 1 ≤ s.pinCounts p) :
    s.finishReservation r = (.ok (), s.aborted r) := by
  simp [finishReservation, aborted, decrementEach_spec _ hnodup hpos]

/-- Aborting an outstanding reservation never raises. -/
theorem abort_eq (ho : s.Outstanding r) :
    s.abort r = (.ok (), { r with finished := true }, s.aborted r) := by
  simp [abort, ho.not_finished, finishReservation_eq ho.pinned_nodup ho.pinned_pos]

theorem wf_aborted (hs : s.Wf) (ho : s.Outstanding r) : (s.aborted r).Wf := by
  refine { hs with reserved_free := ?_, pin_nonneg := ?_ }
  · intro p hp
    exact hs.reserved_free p (Finset.mem_sdiff.mp hp).1
  · intro p
    have := hs.pin_nonneg p
    have := ho.pinned_pos p
    simp only [aborted]
    split <;> grind

/-- Aborting a reservation just made undoes it. -/
theorem aborted_reservedFor {caches : List Handle} {appendLengths : List ℕ}
    {changes : List TableChange} (h : s.Reserves caches appendLengths changes r) :
    (s.reservedFor r).aborted r = s := by
  have hdisj : ∀ p ∈ s.reservedPages, p ∉ r.reservedPages.toFinset := by
    intro p hp hp'
    exact (mem_availablePages.mp (h.available_of_reserved (List.mem_toFinset.mp hp'))).2 hp
  have hres : (s.reservedPages ∪ r.reservedPages.toFinset) \ r.reservedPages.toFinset =
      s.reservedPages := by
    ext p
    simp only [Finset.mem_sdiff, Finset.mem_union]
    exact ⟨fun hp => hp.1.resolve_right hp.2, fun hp => ⟨.inl hp, hdisj p hp⟩⟩
  have hpin : (fun page => if page ∈ r.pinnedPages then
      (if page ∈ r.pinnedPages then s.pinCounts page + 1 else s.pinCounts page) - 1
      else if page ∈ r.pinnedPages then s.pinCounts page + 1 else s.pinCounts page) =
      s.pinCounts := by
    funext page
    split <;> simp
  simp only [aborted, reservedFor, hres, hpin]

/-! ## `commit` -/

end PagedKVCacheBackend

/-- One append length and one candidate table for each cache, and no cache twice. -/
structure PagedBatchReservation.Shaped (r : PagedBatchReservation κ) : Prop where
  nodup : r.requestCaches.Nodup
  appends_length : r.appendLengths.length = r.requestCaches.length
  tables_length : r.candidateTables.length = r.requestCaches.length

namespace PagedBatchReservation.Shaped

theorem changes_handles (hr : r.Shaped) :
    (r.changes.map fun change => change.1.1) = r.requestCaches := by
  have hlen : (r.requestCaches.zip r.appendLengths).length ≤ r.candidateTables.length := by
    simp [hr.appends_length, hr.tables_length]
  calc (r.changes.map fun change => change.1.1)
      = (r.changes.map Prod.fst).map Prod.fst := by rw [List.map_map]; rfl
    _ = (r.requestCaches.zip r.appendLengths).map Prod.fst := by
        rw [PagedBatchReservation.changes, List.map_fst_zip hlen]
    _ = r.requestCaches := List.map_fst_zip (by rw [hr.appends_length])

theorem changes_tables (hr : r.Shaped) :
    (r.changes.map fun change => change.2) = r.candidateTables := by
  refine List.map_snd_zip ?_
  simp [hr.appends_length, hr.tables_length]

/-- Every cache of the reservation has its change. -/
theorem exists_change (hr : r.Shaped) {h : Handle} (hh : h ∈ r.requestCaches) :
    ∃ change ∈ r.changes, change.1.1 = h := by
  rw [← hr.changes_handles] at hh
  simpa using hh

/-- The heap after a commit: a cache has its candidate table or the table it had. -/
theorem installTables_cases (hr : r.Shaped) (heap : Handle → PagedRequestCache ρ)
    (h : Handle) :
    (∃ change ∈ r.changes, change.1.1 = h ∧
      PagedKVCacheBackend.installTables heap r.changes h = { heap h with
        blockTable := change.2, length := (heap h).length + change.1.2 }) ∨
    h ∉ r.requestCaches ∧ PagedKVCacheBackend.installTables heap r.changes h = heap h := by
  by_cases hmem : h ∈ r.requestCaches
  · obtain ⟨change, hchange, rfl⟩ := hr.exists_change hmem
    refine .inl ⟨change, hchange, rfl,
      PagedKVCacheBackend.installTables_of_mem _ ?_ hchange⟩
    rw [hr.changes_handles]
    exact hr.nodup
  · exact .inr ⟨hmem,
      PagedKVCacheBackend.installTables_of_notMem _ (by rwa [hr.changes_handles])⟩

end PagedBatchReservation.Shaped

namespace PagedKVCacheBackend

/-- A store after a commit. -/
def committed (s : PagedKVCacheBackend ρ κ) (r : PagedBatchReservation κ) :
    PagedKVCacheBackend ρ κ :=
  { s with
    refCounts := s.candidateRefCounts r
    keyPages := fun layer => (r.stagedKeys layer).getD (s.keyPages layer)
    valuePages := fun layer => (r.stagedValues layer).getD (s.valuePages layer)
    cacheOf := installTables s.cacheOf r.changes
    freePages := sortPages
      (s.collectFreed r (s.candidateRefCounts r) (s.freePages.diff r.reservedPages))
    reservedPages := s.reservedPages \ r.reservedPages.toFinset
    pinCounts := fun page =>
      if page ∈ r.pinnedPages then s.pinCounts page - 1 else s.pinCounts page }

/-- A commit may install the tables of `r`: a cache released since it was reserved
keeps the table it has. -/
def Committable (s : PagedKVCacheBackend ρ κ) (r : PagedBatchReservation κ) : Prop :=
  ∀ change ∈ r.changes,
    change.1.1 ∈ s.caches ∨ change.2 = (s.cacheOf change.1.1).blockTable

instance : DecidablePred s.Committable := fun r =>
  inferInstanceAs (Decidable (∀ change ∈ r.changes, _))

namespace Outstanding

theorem shaped (ho : s.Outstanding r) : r.Shaped := ⟨ho.nodup, ho.appends_length, ho.tables_length⟩

/-- The reference counts after a commit count the tables it installs. -/
theorem candidateRefCounts_eq (ho : s.Outstanding r) (hs : s.Wf) (hc : s.Committable r)
    (p : Page) :
    s.candidateRefCounts r p = tableCount s.caches (installTables s.cacheOf r.changes) p := by
  have hold : (r.changes.flatMap fun change => (s.cacheOf change.1.1).blockTable) =
      r.requestCaches.flatMap fun h => (s.cacheOf h).blockTable := by
    rw [← ho.shaped.changes_handles, List.flatMap_map]
  have hnew : (r.changes.flatMap fun change => change.2) = r.candidateTables.flatten := by
    rw [← ho.shaped.changes_tables, List.flatMap_def]
  have hnodup : (r.changes.map fun change => change.1.1).Nodup := by
    rw [ho.shaped.changes_handles]; exact ho.nodup
  rw [tableCount_installTables s.caches s.cacheOf hnodup hc, hold, hnew, candidateRefCounts,
    hs.ref_eq]

end Outstanding

/-- A commit whose dead caches keep their tables never raises. -/
theorem commitReservation_eq (hs : s.Wf) (ho : s.Outstanding r) (hc : s.Committable r) :
    s.commitReservation r =
      (.ok (r.requestCaches.map fun h => ((s.committed r).cacheOf h).size), s.committed r) := by
  have hnonneg : (List.range s.numPages).any (fun page => s.candidateRefCounts r page < 0) =
      false := by
    rw [List.any_eq_false]
    intro p _
    rw [ho.candidateRefCounts_eq hs hc]
    simpa using tableCount_nonneg _ _ _
  simp [commitReservation, hnonneg, finishReservation,
    decrementEach_spec _ ho.pinned_nodup ho.pinned_pos, committed]

/-- Every layer of a reservation is staged: what `commit` checks before it
evaluates. -/
def AllStaged (s : PagedKVCacheBackend ρ κ) (r : PagedBatchReservation κ) : Prop :=
  ∀ layer < s.numLayers, (r.stagedKeys layer).isSome ∧ (r.stagedValues layer).isSome

instance : DecidablePred s.AllStaged := fun _ => inferInstanceAs (Decidable (∀ _, _))

/-- A commit either raises before it reaches the store, or hands it a reservation
with every layer staged. -/
theorem commit_cases (s : PagedKVCacheBackend ρ κ) (r : PagedBatchReservation κ)
    {evalError : Option PyError} (heval : ∀ e ∈ evalError, ¬ BecameNegative e) :
    (∃ e, ¬ BecameNegative e ∧ s.commit r evalError = (.error e, r, s)) ∨
    (evalError = none ∧ r.finished = false ∧ s.AllStaged r) := by
  rw [commit.eq_def]
  split
  case isTrue => exact .inl ⟨_, by decide, rfl⟩
  case isFalse hfin =>
    split
    case isTrue => exact .inl ⟨_, by decide, rfl⟩
    case isFalse hstaged =>
      cases evalError with
      | some e => exact .inl ⟨e, heval e rfl, rfl⟩
      | none =>
          refine .inr ⟨rfl, by simpa using hfin, fun layer hlayer => ?_⟩
          simp only [List.any_eq_true, List.mem_range, not_exists, not_and, Bool.or_eq_true,
            not_or] at hstaged
          have hlayers := hstaged layer hlayer
          simp only [Bool.not_eq_true, Option.isNone_eq_false_iff] at hlayers
          exact hlayers

/-- A commit with every layer staged, whose dead caches keep their tables, goes
through. -/
theorem commit_eq (hs : s.Wf) (ho : s.Outstanding r) (hstaged : s.AllStaged r)
    (hc : s.Committable r) :
    s.commit r none =
      (.ok (r.requestCaches.map fun h => ((s.committed r).cacheOf h).size),
        { r with finished := true }, s.committed r) := by
  have hall : (List.range s.numLayers).any (fun layer =>
      (r.stagedKeys layer).isNone || (r.stagedValues layer).isNone) = false := by
    rw [List.any_eq_false]
    intro layer hlayer
    have := hstaged layer (List.mem_range.mp hlayer)
    simp only [← Option.not_isSome, this.1, this.2]
    decide
  simp [commit, ho.not_finished, hall, commitReservation_eq hs ho hc]

/-- Which pages are free after a commit. -/
theorem mem_freePages_committed (hs : s.Wf) (p : Page) :
    p ∈ (s.committed r).freePages ↔ (p ∈ s.freePages ∧ p ∉ r.reservedPages) ∨
      (p < s.numPages ∧ s.candidateRefCounts r p = 0 ∧ s.pinCounts p = 0 ∧
        p ∉ r.reservedPages) := by
  rw [committed, mem_sortPages,
    (collectFreed_spec s r (s.candidateRefCounts r) hs.free_nodup.diff).2,
    hs.free_nodup.mem_sdiff_iff]

/-- A page outside the reservation keeps having no references. -/
theorem Outstanding.candidateRefCounts_of_free (ho : s.Outstanding r) (hs : s.Wf)
    (hc : s.Committable r) {p : Page} (hzero : s.refCounts p = 0)
    (hnot : p ∉ r.reservedPages) : s.candidateRefCounts r p = 0 := by
  rw [ho.candidateRefCounts_eq hs hc, tableCount_eq_zero_iff]
  intro h hh hp
  rcases ho.shaped.installTables_cases s.cacheOf h with ⟨change, hchange, rfl, heq⟩ | ⟨-, heq⟩ <;> rw [heq] at hp
  · exact ((ho.candidate change hchange hh).mem p hp).elim (hs.notMem_table hzero hh) hnot
  · exact hs.notMem_table hzero hh hp

/-- **A commit keeps the page-table invariant** when its dead caches keep their
tables. -/
theorem wf_committed (hs : s.Wf) (ho : s.Outstanding r) (hc : s.Committable r) :
    (s.committed r).Wf := by
  have hreserved_lt : ∀ p ∈ r.reservedPages, p < s.numPages := fun p hp =>
    hs.free_lt p (hs.reserved_free p (ho.reserved_sub p hp))
  refine {
    pageSize_pos := hs.pageSize_pos
    fresh := hs.fresh
    ref_eq := fun p => ho.candidateRefCounts_eq hs hc p
    table_length := ?_
    table_nodup := ?_
    table_lt := ?_
    free_sorted := pairwise_sortPages
      (collectFreed_spec s r (s.candidateRefCounts r) hs.free_nodup.diff).1
    free_ref := ?_
    free_lt := ?_
    reserved_free := ?_
    pin_nonneg := (wf_aborted hs ho).pin_nonneg }
  · intro h hh
    rcases ho.shaped.installTables_cases s.cacheOf h with ⟨change, hchange, rfl, heq⟩ | ⟨-, heq⟩ <;>
      simp only [committed, heq]
    · exact (ho.candidate change hchange hh).length_eq
    · exact hs.table_length h hh
  · intro h hh
    rcases ho.shaped.installTables_cases s.cacheOf h with ⟨change, hchange, rfl, heq⟩ | ⟨-, heq⟩ <;>
      simp only [committed, heq]
    · exact (ho.candidate change hchange hh).nodup
    · exact hs.table_nodup h hh
  · intro h p hp
    rcases ho.shaped.installTables_cases s.cacheOf h with ⟨change, hchange, rfl, heq⟩ | ⟨-, heq⟩ <;>
      simp only [committed, heq] at hp
    · rcases hc change hchange with hh | hsame
      · exact ((ho.candidate change hchange hh).mem p hp).elim (hs.table_lt _ p)
          (hreserved_lt p)
      · exact hs.table_lt _ p (hsame ▸ hp)
    · exact hs.table_lt h p hp
  · intro p hp
    rcases (mem_freePages_committed hs p).mp hp with ⟨hfree, hnot⟩ | ⟨-, hzero, -⟩
    · exact ho.candidateRefCounts_of_free hs hc (hs.free_ref p hfree) hnot
    · exact hzero
  · intro p hp
    rcases (mem_freePages_committed hs p).mp hp with ⟨hfree, -⟩ | ⟨hlt, -⟩
    · exact hs.free_lt p hfree
    · exact hlt
  · intro p hp
    obtain ⟨hres, hnot⟩ := Finset.mem_sdiff.mp hp
    exact (mem_freePages_committed hs p).mpr
      (.inl ⟨hs.reserved_free p hres, fun h => hnot (List.mem_toFinset.mpr h)⟩)

/-- `p` is in a block table after `r` commits: in the table of a live cache outside
the reservation, or in the candidate table of a live cache of it. -/
def HeldAfter (s : PagedKVCacheBackend ρ κ) (r : PagedBatchReservation κ) (p : Page) : Prop :=
  (∃ h ∈ s.caches, h ∉ r.requestCaches ∧ p ∈ (s.cacheOf h).blockTable) ∨
    ∃ change ∈ r.changes, change.1.1 ∈ s.caches ∧ p ∈ change.2

instance (r : PagedBatchReservation κ) : DecidablePred (s.HeldAfter r) := fun _ =>
  inferInstanceAs (Decidable ((∃ h ∈ s.caches, _) ∨ ∃ change ∈ r.changes, _))

/-- The pages a commit leaves without a reference are those it takes out of every
table. -/
theorem Outstanding.candidateRefCounts_eq_zero_iff (ho : s.Outstanding r) (hs : s.Wf)
    (hc : s.Committable r) (p : Page) :
    s.candidateRefCounts r p = 0 ↔ ¬ s.HeldAfter r p := by
  have hnodup : (r.changes.map fun change => change.1.1).Nodup := by
    rw [ho.shaped.changes_handles]; exact ho.nodup
  rw [ho.candidateRefCounts_eq hs hc, tableCount_eq_zero_iff]
  constructor
  · rintro hnone (⟨h, hh, hnot, hp⟩ | ⟨change, hchange, hh, hp⟩)
    · refine hnone h hh ?_
      rwa [installTables_of_notMem _ (by rwa [ho.shaped.changes_handles])]
    · refine hnone _ hh ?_
      rwa [installTables_of_mem _ hnodup hchange]
  · intro hnot h hh hp
    rcases ho.shaped.installTables_cases s.cacheOf h with ⟨change, hchange, rfl, heq⟩ | ⟨hout, heq⟩ <;>
      rw [heq] at hp
    · exact hnot (.inr ⟨change, hchange, hh, hp⟩)
    · exact hnot (.inl ⟨h, hh, hout, hp⟩)

/-! ## `reset` -/

/-- A store emptied by `reset`.  The heap keeps the dead objects. -/
def emptied (s : PagedKVCacheBackend ρ κ) (resetCounters : Bool) : PagedKVCacheBackend ρ κ :=
  { s with
    caches := ∅
    freePages := List.range s.numPages
    refCounts := fun _ => 0
    allocationFailures := if resetCounters then 0 else s.allocationFailures }

theorem reset_cases (s : PagedKVCacheBackend ρ κ) (resetCounters : Bool) :
    (∃ e, ¬ BecameNegative e ∧ s.reset resetCounters = (.error e, s)) ∨
    (s.reservedPages = ∅ ∧ s.reset resetCounters = (.ok (), s.emptied resetCounters)) := by
  rw [reset]
  split
  case isTrue => exact .inl ⟨_, by decide, rfl⟩
  case isFalse h => exact .inr ⟨not_not.mp fun hne => h (.inl hne), rfl⟩

/-- `reset` is refused while a reservation is open. -/
theorem Outstanding.reset_refused (ho : s.Outstanding r) (resetCounters : Bool) :
    s.reset resetCounters =
      (.error (.runtimeError "cannot reset KV cache while pages are reserved or pinned"), s) := by
  rw [reset, if_pos]
  rcases ho.busy with ⟨p, hp⟩ | ⟨p, hp, hlt⟩
  · left
    intro hempty
    have := ho.reserved_sub p hp
    simp [hempty] at this
  · right
    have := ho.pinned_pos p hp
    exact List.any_eq_true.mpr ⟨p, List.mem_range.mpr hlt, by simp; omega⟩

theorem wf_emptied (hs : s.Wf) (hres : s.reservedPages = ∅) (resetCounters : Bool) :
    (s.emptied resetCounters).Wf where
  pageSize_pos := hs.pageSize_pos
  fresh := by simp [emptied]
  ref_eq := by simp [emptied, tableCount]
  table_length := by simp [emptied]
  table_nodup := by simp [emptied]
  table_lt := hs.table_lt
  free_sorted := List.pairwise_lt_range
  free_ref := fun _ _ => rfl
  free_lt := fun p hp => List.mem_range.mp hp
  reserved_free := by simp [emptied, hres]
  pin_nonneg := hs.pin_nonneg

/-! ## Construction -/

/-- A store just built is well formed, with nothing reserved or pinned. -/
theorem wf_postInit {config : PagedKVConfig} {zero : κ} {noRequest : ρ}
    (h : postInit config zero noRequest = .ok s) :
    s.Wf ∧ s.reservedPages = ∅ ∧ (∀ p, s.pinCounts p = 0) ∧ s.caches = ∅ ∧
      s.freePages = List.range s.numPages := by
  rw [postInit] at h
  split at h
  · cases h
  case isFalse hsize =>
    split at h
    · cases h
    split at h
    · cases h
    simp only at h
    split at h
    · cases h
    obtain rfl := Except.ok.inj h
    have hpos : 0 < config.pageSize := by
      by_contra hzero
      simp at hsize
      omega
    refine ⟨⟨hpos, by simp, by simp [tableCount], by simp, by simp, by simp,
      List.pairwise_lt_range, fun _ _ => rfl, fun p hp => List.mem_range.mp hp, by simp,
      fun _ => le_rfl⟩, rfl, fun _ => rfl, rfl, rfl⟩

end PagedKVCacheBackend
end MlxRuntime
