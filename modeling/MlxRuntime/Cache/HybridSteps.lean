import MlxRuntime.Cache.HybridStore

/-!
# Every call keeps the store in step with its history

One lemma for each call, and from them the step lemma of the simulation.  A call on a
reservation changes that reservation only, so what the others have staged stays right:
no other open reservation names its caches.

## Main definitions

* `follows_step` — the step lemma.
* `Tracks.committed_of_mem` — what a commit leaves of a request of its batch.
-/

namespace MlxRuntime.HybridStore

variable {ρ κ χ ι ω : Type} [Zero χ] [Mul χ]
  {model : ℕ → Option (Lfm2ShortConv ι χ ω)}
  {w : HybridStore ρ κ χ} {s s' : HybridPagedKVCacheBackend ρ κ χ} {t : ConvHistory χ}
  {inputs : Handle → ℕ → List χ} {r r' : HybridBatchReservation κ χ} {b : PendingInputs χ}
  {m : Lfm2ShortConv ι χ ω} {layer : ℕ}

/-! ## Calls on the store -/

omit [Zero χ] [Mul χ] in
/-- A call that leaves the store and its reservation as they were. -/
theorem set_same {i : ℕ} (hi : w.reservations[i]? = some r) :
    (⟨w.backend, w.reservations.set i r⟩ : HybridStore ρ κ χ) = w := by
  obtain ⟨hlt, hget⟩ := List.getElem?_eq_some_iff.mp hi
  rw [← hget, List.set_getElem_self]

theorem follows_create (h : Follows model w t) (requestId : ρ) :
    Follows model (step model w (.create requestId)).2
      (t.step model (.create requestId : HybridOp ρ κ χ ι)
        (step model w (.create requestId)).1) := by
  rw [step, HybridPagedKVCacheBackend.create, PagedKVCacheBackend.create_eq]
  exact h.addCache requestId [] 0 (fun _ _ _ _ => rfl) fun _ _ _ _ => rfl

theorem follows_fork (h : Follows model w t) (handle : Handle) (requestId : ρ)
    (length : Option ℤ) (hok : w.Exclusive (.fork handle requestId length : HybridOp ρ κ χ ι)) :
    Follows model (step model w (.fork handle requestId length)).2
      (t.step model (.fork handle requestId length : HybridOp ρ κ χ ι)
        (step model w (.fork handle requestId length)).1) := by
  rw [step, HybridPagedKVCacheBackend.fork]
  rcases w.backend.toPagedKVCacheBackend.fork_cases handle requestId length with
    ⟨e, -, heq⟩ | ⟨hlive, -, heq⟩ <;> rw [heq]
  · exact h
  · have hwhole : w.backend.forkLength handle length = (w.backend.cacheOf handle).length := by
      cases length with
      | none => exact Int.toNat_natCast _
      | some n =>
          obtain rfl := hok n rfl
          exact Int.toNat_natCast _
    have htracks := h.tracks handle (h.fresh handle hlive)
    rw [hwhole]
    exact h.addCache requestId _ _ htracks.length_eq htracks.state_eq

theorem follows_release (h : Follows model w t) (handle : Option Handle) :
    Follows model (step model w (.release handle)).2
      (t.step model (.release handle : HybridOp ρ κ χ ι) (step model w (.release handle)).1) := by
  obtain ⟨caches, refs, free, heq, hsub, -⟩ :=
    w.backend.toPagedKVCacheBackend.release_cases handle
  rw [step, HybridPagedKVCacheBackend.release]
  dsimp only [ConvHistory.step]
  rw [heq]
  exact h.of_backend (fun x hx => h.fresh x (hsub hx)) le_rfl rfl (fun _ _ => rfl)
    fun x hx => (h.tracks x hx).frame rfl rfl rfl rfl

omit [Zero χ] [Mul χ] in
/-- What stands at a place of a list with one more entry. -/
theorem getElem?_concat_cases {α : Type} {l : List α} {a x : α} {i : ℕ}
    (h : (l ++ [a])[i]? = some x) : l[i]? = some x ∨ i = l.length ∧ x = a := by
  rcases lt_or_ge i l.length with hlt | hge
  · exact .inl (by rwa [List.getElem?_append_left hlt] at h)
  · rw [List.getElem?_append_right hge, List.getElem?_singleton] at h
    split at h
    case isTrue hzero => exact .inr ⟨by omega, (Option.some.inj h).symm⟩
    case isFalse => cases h

/-- A new reservation names no cache of another open one and has staged nothing. -/
theorem follows_reserveBatch (h : Follows model w t) (caches : List Handle)
    (appendLengths : List ℕ)
    (hok : w.Exclusive (.reserveBatch caches appendLengths : HybridOp ρ κ χ ι)) :
    Follows model (step model w (.reserveBatch caches appendLengths)).2
      (t.step model (.reserveBatch caches appendLengths : HybridOp ρ κ χ ι)
        (step model w (.reserveBatch caches appendLengths)).1) := by
  rw [step, HybridPagedKVCacheBackend.reserveBatch]
  rcases w.backend.toPagedKVCacheBackend.reserveBatch_cases caches appendLengths with
    ⟨e, n, -, heq⟩ | ⟨q, changes, hq, heq⟩ <;> rw [heq]
  · exact h.of_backend h.fresh le_rfl rfl (fun _ _ => rfl)
      fun x hx => (h.tracks x hx).frame rfl rfl rfl rfl
  · have hnew := hq.eq_new
    have hcaches : q.requestCaches = caches := by rw [hnew]; rfl
    have hopen : q.finished = false := by rw [hnew]; rfl
    dsimp only [ConvHistory.step]
    refine ⟨h.fresh, fun p => ?_, fun x hx => (h.tracks x hx).frame rfl rfl rfl rfl, ?_, ?_, ?_⟩
    · rw [openPins_append _ hopen]
      dsimp only [PagedKVCacheBackend.reservedFor]
      rw [h.pins]
      split <;> simp
    · simp [h.pending_length]
    · intro i r b hr hb hropen
      rcases getElem?_concat_cases hr with hr | ⟨rfl, rfl⟩
      · have hlt := (List.getElem?_eq_some_iff.mp hr).1
        rw [List.getElem?_append_left (h.pending_length ▸ hlt)] at hb
        exact (h.gathers i r b hr hb hropen).frame le_rfl fun _ _ => rfl
      · rw [← h.pending_length, List.getElem?_concat_length] at hb
        obtain rfl := Option.some.inj hb
        exact {
          requests := by rw [hnew]; rfl
          shaped := ⟨by rw [hcaches]; exact hq.nodup, by rw [hnew]; exact hq.length_eq.symm,
            by rw [hq.tables_length, hcaches]⟩
          appends_pos := by rw [hnew]; exact hq.appends_pos
          created := fun x hx => (hok x (hcaches ▸ hx)).1
          pinned_nodup := by rw [hnew]; exact nodup_sortedSet _
          keys := fun _ _ _ => by rw [hnew]; rfl
          layers := fun _ _ _ => .nothing }
    · intro i j r r' hr hr' hij hropen hropen' x hx hx'
      rcases getElem?_concat_cases hr with hr | ⟨rfl, rfl⟩ <;>
        rcases getElem?_concat_cases hr' with hr' | ⟨rfl, rfl⟩
      · exact h.apart i j r r' hr hr' hij hropen hropen' x hx hx'
      · exact (hok x (hcaches ▸ hx')).2 r (List.mem_of_getElem? hr) hropen hx
      · exact (hok x (hcaches ▸ hx)).2 r' (List.mem_of_getElem? hr') hropen' hx'
      · exact hij rfl

/-! ## Calls on a reservation -/

/-- Preparing a state changes nothing. -/
theorem follows_prepareConvState (h : Follows model w t) (i layer : ℕ) (values : List (List χ))
    (cacheSize : ℕ) :
    Follows model (step model w (.prepareConvState i layer values cacheSize)).2
      (t.step model (.prepareConvState i layer values cacheSize : HybridOp ρ κ χ ι)
        (step model w (.prepareConvState i layer values cacheSize)).1) := by
  dsimp only [ConvHistory.step]
  rw [step, onReservation]
  cases hi : w.reservations[i]? with
  | none => exact h
  | some r =>
      dsimp only
      rw [set_same hi]
      exact h

/-- A convolution layer stages the slices of its combined rows. -/
theorem follows_shortConv (h : Follows model w t) (i layer : ℕ) (x : List (List ι))
    (hok : w.Exclusive (.shortConv i layer x)) :
    Follows model (step model w (.shortConv i layer x)).2
      (t.step model (.shortConv i layer x : HybridOp ρ κ χ ι)
        (step model w (.shortConv i layer x)).1) := by
  rw [step]
  cases hm : model layer with
  | none => exact h
  | some m =>
      dsimp only
      rw [onReservation]
      cases hi : w.reservations[i]? with
      | none => exact h
      | some r =>
          dsimp only
          rcases call_cases m w.backend r layer x with
            ⟨e, heq⟩ | ⟨output, combined, hprep, hopen, hlayer, heq⟩ <;> rw [heq]
          · dsimp only
            rw [set_same hi]
            exact h
          · have hfits : Fits r x := hok r hi
            dsimp only [ConvHistory.step, HybridReply.ofResult]
            refine h.set hi hopen ?_ ?_ ?_ ?_ ?_ ?_ ?_ ?_ ?_ ?_
            · exact h.fresh
            · rfl
            · exact fun p => by simp [hopen]
            · rfl
            · rfl
            · exact fun y hy => h.tracks y hy
            · exact fun _ _ => rfl
            · exact List.length_modify _ _ _
            · exact fun j hij => by simp [hij]
            · intro _ b hb
              rw [List.getElem?_modify_eq] at hb
              obtain ⟨b, hpending, rfl⟩ := Option.map_eq_some_iff.mp hb
              have hg := h.gathers i r b hi hpending hopen
              have htracks : ∀ y ∈ r.requestCaches, Tracks model w.backend t.inputs y :=
                fun y hy => h.tracks y (hg.created y hy)
              refine { hg with layers := fun layer' m' hm' => ?_ }
              by_cases hsame : layer' = layer
              · subst hsame
                obtain rfl : m = m' := Option.some.inj (hm.symm.trans hm')
                dsimp only [PendingInputs.stage]
                rw [Function.update_self, Function.update_self, hm]
                have hstaged :=
                  stagedLayer_slices htracks hg.shaped hlayer hm (fits_gated hfits) hprep
                exact hstaged.congr rfl rfl
              · dsimp only [PendingInputs.stage]
                rw [Function.update_of_ne hsame, Function.update_of_ne hsame]
                exact (hg.layers layer' m' hm').congr rfl rfl

/-- An attention layer stages no state. -/
theorem follows_stageLayer (h : Follows model w t) (i layer : ℕ) (keys values : KVTensor κ) :
    Follows model (step model w (.stageLayer i layer keys values)).2
      (t.step model (.stageLayer i layer keys values : HybridOp ρ κ χ ι)
        (step model w (.stageLayer i layer keys values)).1) := by
  dsimp only [ConvHistory.step]
  rw [step]
  cases hm : model layer with
  | some m => exact h
  | none =>
      dsimp only
      rw [onReservation]
      cases hi : w.reservations[i]? with
      | none => exact h
      | some r =>
          dsimp only
          rw [HybridPagedKVCacheBackend.stageLayer]
          split_ifs
          · rw [set_same hi]
            exact h
          · rw [set_same hi]
            exact h
          · rcases w.backend.toPagedKVCacheBackend.stageLayer_cases r.toPagedBatchReservation layer
              keys values with ⟨e, -, heq⟩ | ⟨hstages, heq⟩ <;> rw [heq]
            · rw [set_same hi]
              exact h
            · have hopen := hstages.not_finished
              refine h.set hi hopen ?_ ?_ ?_ ?_ ?_ ?_ ?_ ?_ ?_ ?_
              · exact h.fresh
              · rfl
              · exact fun p => by simp [PagedKVCacheBackend.copiedFor,
                  PagedKVCacheBackend.stagedWith, hopen]
              · rfl
              · rfl
              · exact fun y hy => (h.tracks y hy).frame rfl rfl rfl rfl
              · exact fun _ _ => rfl
              · rfl
              · exact fun _ _ => rfl
              · intro _ b hb
                have hg := h.gathers i r b hi hb hopen
                refine ⟨hg.requests, ⟨hg.shaped.nodup, hg.shaped.appends_length,
                  hg.shaped.tables_length⟩, hg.appends_pos, hg.created, hg.pinned_nodup,
                  fun layer' m hm' => ?_,
                  fun layer' m hm' => (hg.layers layer' m hm').congr rfl rfl⟩
                have hne : layer' ≠ layer := by
                  rintro rfl
                  rw [hm] at hm'
                  cases hm'
                exact (Function.update_of_ne hne _ _).trans (hg.keys layer' m hm')

/-- An abort drops what was staged. -/
theorem follows_abort (h : Follows model w t) (i : ℕ) :
    Follows model (step model w (.abort i)).2
      (t.step model (.abort i : HybridOp ρ κ χ ι) (step model w (.abort i)).1) := by
  dsimp only [ConvHistory.step]
  rw [step, onReservation]
  cases hi : w.reservations[i]? with
  | none => exact h
  | some r =>
      dsimp only
      rw [HybridPagedKVCacheBackend.abort, PagedKVCacheBackend.abort]
      cases hopen : r.finished with
      | true =>
          dsimp only
          rw [if_pos rfl, set_same hi]
          exact h
      | false =>
          obtain ⟨b, hb⟩ := h.exists_pending hi
          have hg := h.gathers i r b hi hb hopen
          rw [PagedKVCacheBackend.finishReservation_eq hg.pinned_nodup (h.pinned_pos hi hopen)]
          refine h.set hi hopen ?_ ?_ ?_ ?_ ?_ ?_ ?_ ?_ ?_ ?_
          · exact h.fresh
          · rfl
          · intro p
            simp only [Bool.false_eq_true, if_false, PagedKVCacheBackend.aborted, true_and]
            split <;> simp
          · rfl
          · rfl
          · exact fun y hy => (h.tracks y hy).frame rfl rfl rfl rfl
          · exact fun _ _ => rfl
          · rfl
          · exact fun _ _ => rfl
          · exact fun hfin => absurd hfin (by simp)

omit [Mul χ] in
/-- The request at a place of the batch, with what it appends. -/
theorem Gathers.exists_append {next : Handle} (hg : Gathers model next inputs r b) {i : ℕ}
    {h : Handle} (hi : r.requestCaches[i]? = some h) : ∃ append, 0 < append ∧
      r.appendLengths[i]? = some append ∧ b.requests[i]? = some (h, append) ∧
      ∃ change ∈ r.changes, change.1 = (h, append) := by
  have hlt := (List.getElem?_eq_some_iff.mp hi).1
  obtain ⟨append, happend⟩ : ∃ append, r.appendLengths[i]? = some append :=
    ⟨_, List.getElem?_eq_getElem (hg.shaped.appends_length ▸ hlt)⟩
  obtain ⟨table, htable⟩ : ∃ table, r.candidateTables[i]? = some table :=
    ⟨_, List.getElem?_eq_getElem (hg.shaped.tables_length ▸ hlt)⟩
  have hzip : (r.requestCaches.zip r.appendLengths)[i]? = some (h, append) :=
    List.getElem?_zip_eq_some.mpr ⟨hi, happend⟩
  refine ⟨append, Nat.pos_of_ne_zero ?_, happend, hg.requests ▸ hzip, ((h, append), table), ?_, rfl⟩
  · rintro rfl
    exact hg.appends_pos (List.mem_of_getElem? happend)
  · exact List.mem_of_getElem? (List.getElem?_zip_eq_some.mpr ⟨hzip, htable⟩)

omit [Zero χ] [Mul χ] in
/-- A commit makes a request as much longer as it appends. -/
theorem length_committed (hshaped : r.toPagedBatchReservation.Shaped) {h : Handle} {append : ℕ}
    (hchange : ∃ change ∈ r.changes, change.1 = (h, append)) :
    ((committed s r).cacheOf h).length = (s.cacheOf h).length + append := by
  obtain ⟨change, hchange, hfst⟩ := hchange
  have hinstalled := PagedKVCacheBackend.installTables_of_mem s.cacheOf
    (by rw [hshaped.changes_handles]; exact hshaped.nodup) hchange
  rw [hfst] at hinstalled
  exact congrArg PagedRequestCache.length hinstalled

omit [Zero χ] [Mul χ] in
/-- A commit leaves every other cache as it was. -/
theorem cacheOf_committed (hshaped : r.toPagedBatchReservation.Shaped) {h : Handle}
    (hnot : h ∉ r.requestCaches) : (committed s r).cacheOf h = s.cacheOf h :=
  PagedKVCacheBackend.installTables_of_notMem s.cacheOf
    (by rw [hshaped.changes_handles]; exact hnot)

omit [Mul χ] in
/-- **What a commit leaves of a request of its batch**: as many more positions as it
appends, the inputs of those positions, and the last of all inputs for state. -/
theorem Tracks.committed_of_mem {next : Handle} {h : Handle} (ht : Tracks model s inputs h)
    (hg : Gathers model next inputs r b)
    (hops : ∀ layer < s.numLayers, r.stagedKeys layer = none → (r.stagedStates layer).isSome)
    (hmem : h ∈ r.requestCaches) : Tracks model (committed s r) (b.appendTo inputs) h := by
  obtain ⟨i, hi⟩ := List.mem_iff_getElem?.mp hmem
  obtain ⟨append, hpos, happend, hrequest, hchange⟩ := hg.exists_append hi
  have hhandles : b.requests.map Prod.fst = r.requestCaches := by
    rw [hg.requests, List.map_fst_zip (by rw [hg.shaped.appends_length])]
  have hinputs : b.appendTo inputs h = b.extended ((h, append), i) (inputs h) :=
    PendingInputs.appendTo_of_mem (hhandles ▸ hg.shaped.nodup) hrequest
  have hcache : ((committed s r).cacheOf h).length = (s.cacheOf h).length + append :=
    length_committed hg.shaped hchange
  -- A convolution layer has staged its rows, and the states that follow from them.
  have hlayer : ∀ layer < s.numLayers, ∀ m, model layer = some m → ∃ row : List χ,
      append ≤ row.length ∧ b.appendTo inputs h layer = inputs h layer ++ row.take append ∧
      (committed s r).convStates h layer =
        some (lastPadded (m.cacheSize - 1) 0 (inputs h layer ++ row.take append)) := by
    intro layer hlayer m hm
    have hstaged := hg.layers layer m hm
    have hsome := hops layer hlayer (hg.keys layer m hm)
    generalize hrows : b.staged layer = staged at hstaged
    generalize hstates : r.stagedStates layer = states at hstaged hsome
    cases hstaged with
    | nothing => simp at hsome
    | @states rows states hfits hlength heq =>
        have hlt : i < rows.length := hfits.1 ▸ (List.getElem?_eq_some_iff.mp hi).1
        have hrow : rows[i]? = some rows[i] := List.getElem?_eq_getElem hlt
        refine ⟨rows[i], hfits.append_le happend hrow, ?_, ?_⟩
        · rw [hinputs, PendingInputs.extended, hrows]
          simp only [List.getD_eq_getElem?_getD, hrow, Option.getD_some]
        · exact HybridPagedKVCacheBackend.installStates_of_mem hg.shaped.nodup List.nodup_range
            (List.mem_range.mpr hlayer) hstates hlength hi (heq i h append _ hi happend hrow)
  refine ⟨fun layer hlt m hm => ?_, fun layer hlt m hm => ?_⟩
  · obtain ⟨row, hle, hnew, -⟩ := hlayer layer hlt m hm
    rw [hnew, hcache, List.length_append, List.length_take_of_le hle, ht.length_eq layer hlt m hm]
  · obtain ⟨row, -, hnew, hstate⟩ := hlayer layer hlt m hm
    rw [hstate, hnew, hcache, if_neg (by omega)]

omit [Mul χ] in
/-- A commit leaves the state of every other cache as it was. -/
theorem Tracks.committed_of_notMem {next : Handle} {h : Handle} (ht : Tracks model s inputs h)
    (hg : Gathers model next inputs r b) (hnot : h ∉ r.requestCaches) :
    Tracks model (committed s r) (b.appendTo inputs) h := by
  refine ht.frame rfl (by rw [cacheOf_committed hg.shaped hnot])
    (HybridPagedKVCacheBackend.installStates_of_notMem hnot)
    (PendingInputs.appendTo_of_notMem ?_)
  rw [hg.requests, List.map_fst_zip (by rw [hg.shaped.appends_length])]
  exact hnot

/-- A commit appends to the inputs of its requests. -/
theorem follows_commit (h : Follows model w t) (i : ℕ) (evalError : Option String) :
    Follows model (step model w (.commit i evalError)).2
      (t.step model (.commit i evalError : HybridOp ρ κ χ ι)
        (step model w (.commit i evalError)).1) := by
  rw [step, onReservation]
  cases hi : w.reservations[i]? with
  | none => exact h
  | some r =>
      dsimp only
      obtain ⟨b, hb⟩ := h.exists_pending hi
      rcases commit_cases w.backend r (fun hopen => (h.gathers i r b hi hb hopen).pinned_nodup)
        (h.pinned_pos hi) (evalError.map .external) with
          ⟨e, heq⟩ | ⟨-, hopen, hops, heq⟩ <;> rw [heq]
      · dsimp only
        rw [set_same hi]
        exact h
      · have hg := h.gathers i r b hi hb hopen
        dsimp only [ConvHistory.step, HybridReply.ofResult]
        rw [hb]
        refine h.set hi hopen ?_ ?_ ?_ ?_ ?_ ?_ ?_ ?_ ?_ ?_
        · exact h.fresh
        · rfl
        · intro p
          simp only [committed, PagedKVCacheBackend.committed, true_and]
          split <;> simp
        · rfl
        · rfl
        · intro x hx
          by_cases hmem : x ∈ r.requestCaches
          · exact (h.tracks x hx).committed_of_mem hg hops hmem
          · exact (h.tracks x hx).committed_of_notMem hg hmem
        · intro x hx
          refine PendingInputs.appendTo_of_notMem ?_
          rwa [hg.requests, List.map_fst_zip (by rw [hg.shaped.appends_length])]
        · rfl
        · exact fun _ _ => rfl
        · exact fun hfin => absurd hfin (by simp)

/-! ## The step lemma -/

/-- **The step lemma.** Every guarded call keeps the store in step with its history. -/
theorem follows_step (h : Follows model w t) {op : HybridOp ρ κ χ ι} (hok : w.Exclusive op) :
    Follows model (step model w op).2 (t.step model op (step model w op).1) := by
  cases op with
  | create requestId => exact follows_create h requestId
  | fork handle requestId length => exact follows_fork h handle requestId length hok
  | release handle => exact follows_release h handle
  | reserveBatch caches appendLengths => exact follows_reserveBatch h caches appendLengths hok
  | prepareConvState i layer values cacheSize =>
      exact follows_prepareConvState h i layer values cacheSize
  | shortConv i layer x => exact follows_shortConv h i layer x hok
  | stageLayer i layer keys values => exact follows_stageLayer h i layer keys values
  | commit i evalError => exact follows_commit h i evalError
  | abort i => exact follows_abort h i

omit [Mul χ] in
theorem follows_ofConfig {config : PagedKVConfig} {zero : κ} {noRequest : ρ}
    (h : ofConfig config zero noRequest = .ok w) : Follows model w ConvHistory.empty := by
  rw [ofConfig, HybridPagedKVCacheBackend.postInit] at h
  cases hpost : PagedKVCacheBackend.postInit config zero noRequest with
  | error e => simp [hpost, Except.map] at h
  | ok s =>
      obtain rfl : HybridStore.mk ⟨s, fun _ _ => none⟩ [] = w := by
        simpa [hpost, Except.map] using h
      obtain ⟨-, -, hpins, hcaches, -⟩ := PagedKVCacheBackend.wf_postInit hpost
      have hnext : s.nextHandle = 0 := by
        rw [PagedKVCacheBackend.postInit] at hpost
        dsimp only at hpost
        split_ifs at hpost
        rw [← Except.ok.inj hpost]
      refine ⟨by simp [hcaches], fun p => by simp [hpins, openPins], ?_, rfl, ?_, ?_⟩
      · exact fun x hx => absurd hx (by simp [hnext])
      · exact fun i r b hr => absurd hr (by simp)
      · exact fun i j r r' hr => absurd hr (by simp)

end MlxRuntime.HybridStore
