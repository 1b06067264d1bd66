import MlxRuntime.Cache.Bounds
import MlxRuntime.Executor.Prepare

/-!
# What dispatching and resolving a step leave

A dispatched step holds the one reservation of its kept requests.  Everything the
model and the sampler do in between touches the contents of the pools only, so an
abort gives the store back as it was and a commit installs the candidate tables.

## Main definitions

* `Accepts` — the checks of `_preflight_cache`.
* `Dispatches` — everything the dispatch of a prepared step can do.
* `InFlight` — a step in flight, with the store its batch was prepared on.
* `resolveBatch_cases`, `discardBatch_of_inFlight` — its two ends.
-/

namespace MlxRuntime.MlxGenerationExecutor

open PagedKVCacheBackend (InBounds Holds StagedFrom Reserves)

variable {ρ κ L : Type} {s s' start : PagedKVCacheBackend ρ κ} {r : PagedBatchReservation κ}

/-! ## The checks of a request -/

/-- The checks of `_preflight_cache`. -/
structure Accepts (s : PagedKVCacheBackend ρ κ) (request : ExecutionRequest ρ)
    (cache : Handle) : Prop where
  handle_eq : request.cacheHandle = some cache
  live : cache ∈ s.caches
  owned : (s.cacheOf cache).requestId = request.requestId
  positions_eq : request.positions =
    (List.range request.tokenIds.length).map ((s.cacheOf cache).size + ·)
  decodes : request.phase = .decode → request.tokenIds.length = 1 ∧ (s.cacheOf cache).size ≠ 0
  prefills : request.phase = .prefill → request.tokenIds.length ≠ 0

theorem preflightCache_eq_ok [DecidableEq ρ] {request : ExecutionRequest ρ} {cache : Handle} :
    preflightCache s request = .ok cache ↔ Accepts s request cache := by
  constructor
  · intro h
    simp only [preflightCache] at h
    split at h
    · cases h
    case isFalse hdecode =>
    split at h
    · cases h
    case isFalse hprefill =>
    split at h
    · cases h
    case h_2 handle hget =>
    split at h
    · cases h
    case isFalse hstate =>
    split at h
    · cases h
    case isFalse hpositions =>
    obtain rfl : handle = cache := Except.ok.inj h
    rw [PagedKVCacheBackend.get.eq_def] at hget
    split at hget
    · cases hget
    case h_2 handle' hhandle =>
    split at hget
    · cases hget
    case isFalse hlive =>
    split at hget
    · cases hget
    case isFalse howned =>
    obtain rfl : handle' = handle := Except.ok.inj hget
    rw [not_not] at hlive howned hpositions
    exact ⟨hhandle, hlive, howned, hpositions,
      fun hphase => ⟨by_contra fun hne => hdecode ⟨hphase, hne⟩, fun hne => hstate ⟨hphase, hne⟩⟩,
      fun hphase hne => hprefill ⟨hphase, hne⟩⟩
  · intro h
    have hget : s.get request.cacheHandle request.requestId = .ok cache := by
      simp [PagedKVCacheBackend.get, h.handle_eq, h.live, h.owned]
    simp only [preflightCache, hget]
    rw [if_neg fun hc => hc.2 (h.decodes hc.1).1, if_neg fun hc => h.prefills hc.1 hc.2,
      if_neg fun hc => (h.decodes hc.1).2 hc.2, if_neg (not_not.mpr h.positions_eq)]

theorem Accepts.tokens_pos {request : ExecutionRequest ρ} {cache : Handle}
    (h : Accepts s request cache) : 0 < request.tokenIds.length := by
  cases hphase : request.phase with
  | prefill => exact Nat.pos_of_ne_zero (h.prefills hphase)
  | decode => rw [(h.decodes hphase).1]; exact Nat.one_pos

/-! ## The batch of a prepared step -/

namespace Prepares

variable [DecidableEq ρ] {batch : ExecutionBatch ρ} {prepared : PreparedStep ρ}
  {kept : List (ValidRequest ρ)}

theorem accepts (h : Prepares s batch prepared kept) {v : ValidRequest ρ} (hv : v ∈ kept) :
    Accepts s v.request v.cache := preflightCache_eq_ok.mp (h.kept_valid v hv).2.1

/-- Different kept requests have different caches. -/
theorem caches_nodup (h : Prepares s batch prepared kept) :
    (kept.map ValidRequest.cache).Nodup := by
  refine List.Nodup.map_on (fun v hv w hw heq => ?_) h.kept_nodup.of_map
  have hid : v.request.requestId = w.request.requestId := by
    rw [← (h.accepts hv).owned, ← (h.accepts hw).owned, heq]
  have hindex : ∀ u ∈ kept, (batch.requests.map ExecutionRequest.requestId)[u.sourceIndex]? =
      some u.request.requestId := by
    intro u hu
    rw [List.getElem?_map, (h.kept_valid u hu).1]
    rfl
  have hlt : v.sourceIndex < (batch.requests.map ExecutionRequest.requestId).length :=
    (List.getElem?_eq_some_iff.mp (hindex v hv)).1
  have hsame := (List.getElem?_inj hlt h.ids_nodup).mp
    ((hindex v hv).trans (hid ▸ (hindex w hw).symm))
  exact List.inj_on_of_nodup_map h.kept_nodup hv hw hsame

/-- The kept requests can be reserved. -/
theorem exists_reserves (h : Prepares s batch prepared kept) (hne : kept ≠ []) :
    ∃ r changes, s.Reserves (kept.map ValidRequest.cache) (kept.map ValidRequest.tokenLength)
        changes r ∧
      s.reserveBatch (kept.map ValidRequest.cache) (kept.map ValidRequest.tokenLength) =
        (.ok r, s.reservedFor r) := by
  rcases s.reserveBatch_cases (kept.map ValidRequest.cache) (kept.map ValidRequest.tokenLength)
    with ⟨e, n, -, heq⟩ | ⟨r, changes, hr, heq⟩
  · exfalso
    obtain ⟨tables, htables⟩ := h.fits
    have hpos : 0 ∉ kept.map ValidRequest.tokenLength := by
      intro hmem
      obtain ⟨v, hv, hzero⟩ := List.mem_map.mp hmem
      have := (h.accepts hv).tokens_pos
      rw [← (h.kept_valid v hv).2.2.1] at this
      omega
    rw [PagedKVCacheBackend.reserveBatch, if_neg (by simpa using hne),
      if_neg (not_not.mpr h.caches_nodup), if_neg hpos, List.zip_map', htables] at heq
    cases (Prod.mk.inj heq).1
  · exact ⟨r, changes, hr, heq⟩

theorem allocationFailed (h : Prepares s batch prepared kept) (n : ℕ) :
    Prepares (s.allocationFailed n) batch prepared kept := by
  have htables : ∀ (xs : List (Handle × ℕ)) (available : List Page),
      (s.allocationFailed n).candidateTables xs available = s.candidateTables xs available := by
    intro xs
    induction xs with
    | nil => exact fun _ => rfl
    | cons x xs ih =>
        intro available
        rw [PagedKVCacheBackend.candidateTables, PagedKVCacheBackend.candidateTables]
        simp only [ih]
        rfl
  refine { h with fits := ?_, kept_valid := h.kept_valid, rejected := ?_ }
  · intro i request hreq hnot
    obtain ⟨x, hx, hrejected⟩ := h.rejected i request hreq hnot
    refine ⟨x, hx, ?_⟩
    cases hrejected with
    | invalid hcheck => exact .invalid (s := s.allocationFailed n) hcheck
    | exhausted hcheck => exact .exhausted (s := s.allocationFailed n) hcheck
  · obtain ⟨tables, hfits⟩ := h.fits
    exact ⟨tables, (htables _ _).trans hfits⟩

end Prepares

theorem buildLayout_eq {kept : List (ValidRequest ρ)} {layout : BatchLayout ρ}
    (h : buildLayout kept = .ok layout) :
    layout.requests = kept.map ValidRequest.request ∧
      layout.sourceIndices = kept.map ValidRequest.sourceIndex ∧
      layout.requestCaches = kept.map ValidRequest.cache ∧
      layout.tokenLengths = kept.map ValidRequest.tokenLength := by
  simp only [buildLayout] at h
  split at h
  · cases h
  · obtain rfl := Except.ok.inj h
    exact ⟨rfl, rfl, rfl, rfl⟩

/-! ## The model and the sampler -/

theorem stagedFrom_runModel (s : PagedKVCacheBackend ρ κ) (r : PagedBatchReservation κ)
    (call : ModelCall κ L) :
    StagedFrom s r (runModel s r call).2.1 (runModel s r call).2.2 := by
  induction call generalizing s r with
  | logits out => exact .refl
  | raises error => exact .refl
  | stageLayer layer keys values next ih =>
      exact (PagedKVCacheBackend.stagedFrom_stageLayer s r layer keys values).trans (ih _ _ _)

theorem stagedFrom_of_forward {model : MlxModel κ L} {layout : BatchLayout ρ}
    {faults : StepFaults} {result : Except PyError (List Token)} {r' : PagedBatchReservation κ}
    (h : forward model s r layout faults = (result, r', s')) : StagedFrom s r r' s' := by
  have hstaged := stagedFrom_runModel s r (model.call layout.inputIds layout.positions
    ⟨layout.forwardMode, layout.tokenLengths, layout.cacheLengths, some "causal", r⟩)
  simp only [forward] at h
  split at h
  case h_1 hrun =>
    rw [hrun] at hstaged
    obtain ⟨-, rfl, rfl⟩ : _ ∧ _ ∧ _ := by simpa using h
    exact hstaged
  case h_2 hrun =>
    rw [hrun] at hstaged
    split at h <;> (obtain ⟨-, rfl, rfl⟩ : _ ∧ _ ∧ _ := by simpa using h) <;> exact hstaged

theorem length_of_forward {model : MlxModel κ L} {layout : BatchLayout ρ}
    {faults : StepFaults} {tokens : List Token} {rest : PagedBatchReservation κ ×
      PagedKVCacheBackend ρ κ}
    (h : forward model s r layout faults = (.ok tokens, rest)) :
    tokens.length = layout.tokenLengths.length := by
  simp only [forward] at h
  split at h
  · simp at h
  · split at h
    · simp at h
    · obtain ⟨h, -⟩ := Prod.mk.inj h
      obtain rfl := Except.ok.inj h
      simp [sampleLastLogits]

/-! ## Steps in flight -/

/-- `s` is `start` as far as reservations, tables and lengths go. -/
structure RolledBack (start s : PagedKVCacheBackend ρ κ) : Prop where
  reserved_eq : s.reservedPages = start.reservedPages
  pins_eq : s.pinCounts = start.pinCounts
  cacheOf_eq : ∀ h < start.nextHandle, s.cacheOf h = start.cacheOf h

/-- The reservation of `step`, made on `start`, is still open on `s`. -/
structure InFlight [DecidableEq ρ] (start : PagedKVCacheBackend ρ κ) (batch : ExecutionBatch ρ)
    (kept : List (ValidRequest ρ)) (step : InFlightStep ρ κ) (s : PagedKVCacheBackend ρ κ) :
    Prop where
  prepares : Prepares start batch step.prepared kept
  in_bounds : start.InBounds
  built : buildLayout kept = .ok step.layout
  tokens_length : step.nextTokens.length = kept.length
  caches_eq : step.reservation.requestCaches = kept.map ValidRequest.cache
  appends_eq : step.reservation.appendLengths = kept.map ValidRequest.tokenLength
  holds : s.Holds step.reservation
  aborted : RolledBack start (s.aborted step.reservation)
  next_le : start.nextHandle ≤ s.nextHandle

/-- What a store may do while a step is in flight. -/
theorem InFlight.frame [DecidableEq ρ] {batch : ExecutionBatch ρ} {kept : List (ValidRequest ρ)}
    {step : InFlightStep ρ κ} (h : InFlight start batch kept step s)
    (hholds : s'.Holds step.reservation) (hreserved : s'.reservedPages = s.reservedPages)
    (hpins : s'.pinCounts = s.pinCounts) (hnext : s.nextHandle ≤ s'.nextHandle)
    (hcache : ∀ h < s.nextHandle, s'.cacheOf h = s.cacheOf h) :
    InFlight start batch kept step s' := by
  refine { h with holds := hholds, aborted := ⟨?_, ?_, ?_⟩, next_le := h.next_le.trans hnext }
  · simpa [PagedKVCacheBackend.aborted, hreserved] using h.aborted.reserved_eq
  · simpa [PagedKVCacheBackend.aborted, hpins] using h.aborted.pins_eq
  · intro x hx
    exact (hcache x (lt_of_lt_of_le hx h.next_le)).trans (h.aborted.cacheOf_eq x hx)

/-- The state between a reservation and its end. -/
theorem aborted_of_stagedFrom {caches : List Handle} {appendLengths : List ℕ}
    {changes : List PagedKVCacheBackend.TableChange} {r' : PagedBatchReservation κ}
    (h : start.Reserves caches appendLengths changes r)
    (hstaged : StagedFrom (start.reservedFor r) r r' s) :
    RolledBack start (s.aborted r') := by
  have hundo := PagedKVCacheBackend.aborted_reservedFor h
  have hreserved : ((start.reservedFor r).aborted r).reservedPages = start.reservedPages := by
    rw [hundo]
  have hpins : ((start.reservedFor r).aborted r).pinCounts = start.pinCounts := by rw [hundo]
  rw [hstaged.store, hstaged.reservation]
  exact ⟨hreserved, hpins, fun _ _ => rfl⟩

/-- A raise between the reservation of a step and the handler that would abort it. -/
def Strands [DecidableEq ρ] (overlapped : Bool) (model : MlxModel κ L)
    (start : PagedKVCacheBackend ρ κ) (prepared : PreparedStep ρ) (faults : StepFaults) : Prop :=
  ∃ layout, prepared.layout = some layout ∧
    (faults.reservationArrays.isSome ∨ faults.contexts.isSome ∨
      overlapped ∧ faults.asyncEval.isSome ∧
        ∃ r s tokens rest, start.reserveBatch layout.requestCaches layout.tokenLengths = (.ok r, s) ∧
          forward model s r layout faults = (.ok tokens, rest))

/-- Everything the dispatch of a prepared step can do, with when it strands its
reservation. -/
inductive Dispatches [DecidableEq ρ] (strands : Prop) (start : PagedKVCacheBackend ρ κ)
    (batch : ExecutionBatch ρ) (kept : List (ValidRequest ρ)) :
    Except PyError (InFlightStep ρ κ) → PagedKVCacheBackend ρ κ → Prop
  | rolledBack (hno : ¬ strands) (e : PyError) {s : PagedKVCacheBackend ρ κ}
      (h : RolledBack start s) : Dispatches strands start batch kept (.error e) s
  | stranded (hyes : strands) (e : PyError) {s : PagedKVCacheBackend ρ κ}
      (hheld : s.reservedPages ≠ start.reservedPages ∨ s.pinCounts ≠ start.pinCounts)
      (hcache : ∀ h < start.nextHandle, s.cacheOf h = start.cacheOf h) :
      Dispatches strands start batch kept (.error e) s
  | inFlight (hno : ¬ strands) {step : InFlightStep ρ κ} {s : PagedKVCacheBackend ρ κ}
      (h : InFlight start batch kept step s) :
      Dispatches strands start batch kept (.ok step) s

section Dispatch

variable [DecidableEq ρ] {batch : ExecutionBatch ρ} {prepared : PreparedStep ρ}
  {kept : List (ValidRequest ρ)} {model : MlxModel κ L}

/-- The ways through `dispatch_batch`, with the state at each end. -/
inductive DispatchPath (model : MlxModel κ L) (start : PagedKVCacheBackend ρ κ)
    (prepared : PreparedStep ρ) (kept : List (ValidRequest ρ)) (faults : StepFaults) : Prop
  | nothing (hlayout : prepared.layout = none) {e : PyError}
      (heq : dispatchBatch model start prepared faults = (.error e, start))
  | reserved {layout : BatchLayout ρ} {r : PagedBatchReservation κ}
      {changes : List PagedKVCacheBackend.TableChange}
      (hlayout : prepared.layout = some layout)
      (hr : start.Reserves (kept.map ValidRequest.cache) (kept.map ValidRequest.tokenLength)
        changes r)
      (hfault : faults.reservationArrays.isSome ∨ faults.contexts.isSome) {e : PyError}
      (heq : dispatchBatch model start prepared faults = (.error e, start.reservedFor r))
  | ran {layout : BatchLayout ρ} {r r' : PagedBatchReservation κ}
      {changes : List PagedKVCacheBackend.TableChange} {s' : PagedKVCacheBackend ρ κ}
      {result : Except PyError (List Token)}
      (hlayout : prepared.layout = some layout) (hbuilt : buildLayout kept = .ok layout)
      (hr : start.Reserves (kept.map ValidRequest.cache) (kept.map ValidRequest.tokenLength)
        changes r)
      (hreserve : start.reserveBatch layout.requestCaches layout.tokenLengths =
        (.ok r, start.reservedFor r))
      (hfault : faults.reservationArrays = none ∧ faults.contexts = none)
      (heq : dispatchBatch model start prepared faults =
        match result with
        | .error e => (.error (abortThen s' r'
            (.batchExecutionError "MODEL_EXECUTION_FAILED" e.message)).1, s'.aborted r')
        | .ok tokens => (.ok ⟨prepared, layout, r', tokens⟩, s'))
      (hforward : forward model (start.reservedFor r) r layout faults = (result, r', s'))

theorem created_of_prepares (hs : start.InBounds) (hp : Prepares start batch prepared kept) :
    ∀ h ∈ kept.map ValidRequest.cache, h < start.nextHandle := by
  intro h hh
  obtain ⟨v, hv, rfl⟩ := List.mem_map.mp hh
  exact hs.fresh _ (hp.accepts hv).live

/-- **`dispatch_batch`** takes one of these ways. -/
theorem dispatchPath (model : MlxModel κ L) (hs : start.InBounds)
    (hp : Prepares start batch prepared kept) (faults : StepFaults) :
    DispatchPath model start prepared kept faults := by
  rcases hp.layout with ⟨-, hnone⟩ | ⟨hne, layout, hlayout, hbuilt⟩
  · exact .nothing hnone (by rw [dispatchBatch, hnone])
  · obtain ⟨r, changes, hr, heq⟩ := hp.exists_reserves hne
    obtain ⟨-, -, hcaches, hlengths⟩ := buildLayout_eq hbuilt
    rw [← hcaches, ← hlengths] at heq
    cases harrays : faults.reservationArrays with
    | some message =>
        exact .reserved hlayout hr (.inl (by simp [harrays]))
          (by simp [dispatchBatch, hlayout, reserve, heq, harrays]; rfl)
    | none =>
      cases hcontexts : faults.contexts with
      | some message =>
          exact .reserved hlayout hr (.inr (by simp [hcontexts]))
            (by simp [dispatchBatch, hlayout, reserve, heq, harrays, hcontexts]; rfl)
      | none =>
        rcases hforward : forward model (start.reservedFor r) r layout faults with ⟨result, r', s'⟩
        have hholds := (stagedFrom_of_forward hforward).holds (PagedKVCacheBackend.holds_reservedFor hs hr
          (created_of_prepares hs hp))
        refine .ran hlayout hbuilt hr heq ⟨harrays, hcontexts⟩ ?_ hforward
        cases result with
        | error e =>
            simp [dispatchBatch, hlayout, reserve, heq, harrays, hcontexts, hforward, abortThen,
              PagedKVCacheBackend.abort_of_holds hholds]
        | ok tokens =>
            simp [dispatchBatch, hlayout, reserve, heq, harrays, hcontexts, hforward]

omit [DecidableEq ρ] in
theorem RolledBack.refl (s : PagedKVCacheBackend ρ κ) : RolledBack s s :=
  ⟨rfl, rfl, fun _ _ => rfl⟩

theorem inFlight_of_forward {layout : BatchLayout ρ} {r' : PagedBatchReservation κ}
    {changes : List PagedKVCacheBackend.TableChange} {faults : StepFaults} {tokens : List Token}
    (hs : start.InBounds) (hp : Prepares start batch prepared kept)
    (hbuilt : buildLayout kept = .ok layout)
    (hr : start.Reserves (kept.map ValidRequest.cache) (kept.map ValidRequest.tokenLength)
      changes r)
    (hforward : forward model (start.reservedFor r) r layout faults = (.ok tokens, r', s)) :
    InFlight start batch kept ⟨prepared, layout, r', tokens⟩ s := by
  have hstaged := stagedFrom_of_forward hforward
  have hholds := hstaged.holds (PagedKVCacheBackend.holds_reservedFor hs hr
    (created_of_prepares hs hp))
  refine ⟨hp, hs, hbuilt, ?_, ?_, ?_, hholds, aborted_of_stagedFrom hr hstaged, ?_⟩
  · rw [length_of_forward hforward, (buildLayout_eq hbuilt).2.2.2, List.length_map]
  · rw [hstaged.reservation, hr.eq_new]
    rfl
  · rw [hstaged.reservation, hr.eq_new]
    rfl
  · rw [hstaged.store]
    exact le_rfl

/-- **`MlxGenerationExecutor.dispatch_batch`** rolls back, strands its reservation or
leaves it in flight. -/
theorem dispatches_base (model : MlxModel κ L) (hs : start.InBounds)
    (hp : Prepares start batch prepared kept) (faults : StepFaults) :
    Dispatches (Strands false model start prepared faults) start batch kept
      (dispatchBatch model start prepared faults).1
      (dispatchBatch model start prepared faults).2 := by
  cases dispatchPath model hs hp faults with
  | nothing hlayout heq =>
      rw [heq]
      refine .rolledBack ?_ _ (.refl _)
      rintro ⟨layout, hsome, -⟩
      rw [hlayout] at hsome
      cases hsome
  | reserved hlayout hr hfault heq =>
      rw [heq]
      refine .stranded ⟨_, hlayout, ?_⟩ _ (PagedKVCacheBackend.reservedFor_ne hs hr)
        fun _ _ => rfl
      exact hfault.imp_right .inl
  | @ran layout r r' changes s' result hlayout hbuilt hr hreserve hfault heq hforward =>
      have hno : ¬ Strands false model start prepared faults := by
        rintro ⟨layout', -, harrays | hcontexts | ⟨hover, -⟩⟩
        · simp [hfault.1] at harrays
        · simp [hfault.2] at hcontexts
        · cases hover
      rw [heq]
      cases result with
      | error e =>
          exact .rolledBack hno _ (aborted_of_stagedFrom hr (stagedFrom_of_forward hforward))
      | ok tokens => exact .inFlight hno (inFlight_of_forward hs hp hbuilt hr hforward)

/-- **`MlxOverlapGenerationExecutor.dispatch_batch`** does too. -/
theorem dispatches_overlap (model : MlxModel κ L) (hs : start.InBounds)
    (hp : Prepares start batch prepared kept) (faults : StepFaults) :
    Dispatches (Strands true model start prepared faults) start batch kept
      (MlxOverlapGenerationExecutor.dispatchBatch model start prepared faults).1
      (MlxOverlapGenerationExecutor.dispatchBatch model start prepared faults).2 := by
  rw [MlxOverlapGenerationExecutor.dispatchBatch]
  cases dispatchPath model hs hp faults with
  | nothing hlayout heq =>
      rw [heq]
      refine .rolledBack ?_ _ (.refl _)
      rintro ⟨layout, hsome, -⟩
      rw [hlayout] at hsome
      cases hsome
  | reserved hlayout hr hfault heq =>
      rw [heq]
      refine .stranded ⟨_, hlayout, ?_⟩ _ (PagedKVCacheBackend.reservedFor_ne hs hr)
        fun _ _ => rfl
      exact hfault.imp_right .inl
  | @ran layout r r' changes s' result hlayout hbuilt hr hreserve hfault heq hforward =>
      have hstaged := stagedFrom_of_forward hforward
      -- The reservation is the one the layout gets, so the model's answer is this one.
      have hstrands : Strands true model start prepared faults ↔
          faults.asyncEval.isSome ∧ ∃ tokens, result = .ok tokens := by
        constructor
        · rintro ⟨layout', hlayout', harrays | hcontexts | ⟨-, hasync, r'', s'', tokens, rest,
            hreserve', hforward'⟩⟩
          · simp [hfault.1] at harrays
          · simp [hfault.2] at hcontexts
          · obtain rfl := Option.some.inj (hlayout.symm.trans hlayout')
            obtain ⟨hr', hs'⟩ := Prod.mk.inj (hreserve.symm.trans hreserve')
            obtain rfl := Except.ok.inj hr'
            obtain rfl := hs'
            exact ⟨hasync, tokens, congrArg Prod.fst (hforward.symm.trans hforward')⟩
        · rintro ⟨hasync, tokens, rfl⟩
          exact ⟨layout, hlayout, .inr (.inr ⟨rfl, hasync, r, _, tokens, _, hreserve, hforward⟩)⟩
      rw [heq]
      cases result with
      | error e =>
          refine .rolledBack ?_ _ (aborted_of_stagedFrom hr hstaged)
          rw [hstrands]
          simp
      | ok tokens =>
          cases hasync : faults.asyncEval with
          | some message =>
              refine .stranded (hstrands.mpr ⟨by simp [hasync], tokens, rfl⟩) _ ?_ ?_
              · dsimp only
                rw [hstaged.store]
                exact PagedKVCacheBackend.reservedFor_ne hs hr
              · dsimp only
                rw [hstaged.store]
                exact fun _ _ => rfl
          | none =>
              refine .inFlight ?_ (inFlight_of_forward hs hp hbuilt hr hforward)
              rw [hstrands]
              simp [hasync]

/-- What no executor step changes, and what it keeps. -/
structure Steady (start s : PagedKVCacheBackend ρ κ) : Prop where
  in_bounds : s.InBounds
  caches_eq : s.caches = start.caches
  nextHandle_eq : s.nextHandle = start.nextHandle
  requestId_eq : ∀ h, (s.cacheOf h).requestId = (start.cacheOf h).requestId

theorem steady_dispatchBatch (model : MlxModel κ L) (hs : start.InBounds)
    (hp : Prepares start batch prepared kept) (faults : StepFaults) :
    Steady start (dispatchBatch model start prepared faults).2 := by
  cases dispatchPath model hs hp faults with
  | nothing _ heq => rw [heq]; exact ⟨hs, rfl, rfl, fun _ => rfl⟩
  | reserved _ _ _ heq => rw [heq]; exact ⟨hs.reservedFor, rfl, rfl, fun _ => rfl⟩
  | @ran layout r r' changes s' result hlayout hbuilt hr hreserve hfault heq hforward =>
      have hstaged := stagedFrom_of_forward hforward
      have hholds := hstaged.holds (PagedKVCacheBackend.holds_reservedFor hs hr
        (created_of_prepares hs hp))
      have hbounds := hstaged.inBounds hs.reservedFor
      rw [heq]
      cases result with
      | error e =>
          refine ⟨hholds.inBounds_aborted hbounds, ?_, ?_, ?_⟩ <;> dsimp only <;>
            rw [hstaged.store] <;> first | rfl | exact fun _ => rfl
      | ok tokens =>
          refine ⟨hbounds, ?_, ?_, ?_⟩ <;> dsimp only <;>
            rw [hstaged.store] <;> first | rfl | exact fun _ => rfl

omit [DecidableEq ρ] in
/-- The overlap class leaves the store its base class leaves. -/
theorem overlap_dispatchBatch_snd (model : MlxModel κ L) (s : PagedKVCacheBackend ρ κ)
    (prepared : PreparedStep ρ) (faults : StepFaults) :
    (MlxOverlapGenerationExecutor.dispatchBatch model s prepared faults).2 =
      (dispatchBatch model s prepared faults).2 := by
  rw [MlxOverlapGenerationExecutor.dispatchBatch]
  rcases dispatchBatch model s prepared faults with ⟨result, s'⟩
  cases result with
  | error e => rfl
  | ok step => cases faults.asyncEval <;> rfl

end Dispatch

/-! ## The end of a step -/

theorem requireResults_eq_ok {results : List (Option (StepRequestResult ρ))}
    {xs : List (StepRequestResult ρ)} :
    requireResults results = .ok xs ↔ results = xs.map some := by
  induction results generalizing xs with
  | nil => cases xs <;> simp [requireResults]
  | cons result results ih =>
      cases result with
      | none => cases xs <;> simp [requireResults]
      | some x =>
          rw [requireResults]
          cases htail : requireResults results with
          | error e =>
              simp only [Except.map, reduceCtorEq, false_iff]
              rintro heq
              cases xs with
              | nil => simp at heq
              | cons y ys =>
                  simp only [List.map_cons, List.cons.injEq] at heq
                  rw [ih.mpr heq.2] at htail
                  cases htail
          | ok ys =>
              have := ih.mp htail
              cases xs with
              | nil => simp [Except.map]
              | cons y ys' => simp [Except.map, this, List.map_inj_right]

theorem exists_requireResults {results : List (Option (StepRequestResult ρ))}
    (h : ∀ result ∈ results, result ≠ none) : ∃ xs, requireResults results = .ok xs := by
  induction results with
  | nil => exact ⟨[], rfl⟩
  | cons result results ih =>
      obtain ⟨x, rfl⟩ := Option.ne_none_iff_exists'.mp (h result List.mem_cons_self)
      obtain ⟨xs, hxs⟩ := ih fun r hr => h r (List.mem_cons_of_mem _ hr)
      exact ⟨x :: xs, by rw [requireResults, hxs]; rfl⟩

/-- The result of the committed request at index `j` of the kept ones. -/
def committedResult (v : ValidRequest ρ) (cacheLength : ℕ) (token : Token) :
    StepRequestResult ρ where
  requestId := v.request.requestId
  phase := v.request.phase
  tokenIds := v.request.tokenIds
  cacheHandle := v.request.cacheHandle
  cacheLength := cacheLength
  nextTokenId := some token

/-- `x` answers `request` in the result of a step prepared on `start` that left `s`:
the request ran and its cache has grown, or it was rejected. -/
inductive Answers (start s : PagedKVCacheBackend ρ κ) [DecidableEq ρ]
    (kept : List (ValidRequest ρ)) (tokens : List Token) (i : ℕ) (request : ExecutionRequest ρ) :
    StepRequestResult ρ → Prop
  | ran {j : ℕ} {v : ValidRequest ρ} {token : Token} (hj : kept[j]? = some v)
      (hi : v.sourceIndex = i) (hreq : v.request = request) (htoken : tokens[j]? = some token) :
      Answers start s kept tokens i request
        (committedResult v (s.cacheOf v.cache).size token)
  | rejected {x : StepRequestResult ρ} (hi : i ∉ kept.map ValidRequest.sourceIndex)
      (h : Rejected start request x) : Answers start s kept tokens i request x

/-- The committed results are written to the places of the kept requests. -/
theorem orderResults_eq {step : InFlightStep ρ κ} {kept : List (ValidRequest ρ)}
    (hrequests : step.layout.requests = kept.map ValidRequest.request)
    (hindices : step.layout.sourceIndices = kept.map ValidRequest.sourceIndex)
    (size : Handle → ℕ) :
    orderResults step (kept.map fun v => size v.cache) =
      place step.prepared.orderedResults ((kept.zip step.nextTokens).map fun x =>
        (x.1.sourceIndex, some (committedResult x.1 (size x.1.cache) x.2))) := by
  rw [orderResults, hrequests, hindices]
  generalize step.prepared.orderedResults = results
  generalize step.nextTokens = tokens
  clear hrequests hindices
  induction kept generalizing tokens results with
  | nil => rfl
  | cons v kept ih =>
      cases tokens with
      | nil => rfl
      | cons token tokens => exact ih _ _

theorem mem_requestCaches_lt [DecidableEq ρ] {batch : ExecutionBatch ρ}
    {kept : List (ValidRequest ρ)} {step : InFlightStep ρ κ}
    (h : InFlight start batch kept step s) {v : ValidRequest ρ} (hv : v ∈ kept) :
    v.cache < start.nextHandle :=
  created_of_prepares h.in_bounds h.prepares _ (List.mem_map_of_mem hv)

/-- Every place of a resolved step has its answer. -/
theorem answers_of_inFlight [DecidableEq ρ] {batch : ExecutionBatch ρ}
    {kept : List (ValidRequest ρ)} {step : InFlightStep ρ κ}
    (h : InFlight start batch kept step s) (t : PagedKVCacheBackend ρ κ) :
    ∃ xs, requireResults (orderResults step
        (step.reservation.requestCaches.map fun c => (t.cacheOf c).size)) = .ok xs ∧
      xs.length = batch.requests.length ∧
      ∀ i request, batch.requests[i]? = some request →
        ∃ x, xs[i]? = some x ∧ Answers start t kept step.nextTokens i request x := by
  obtain ⟨hrequests, hindices, -, -⟩ := buildLayout_eq h.built
  have hsizes : step.reservation.requestCaches.map (fun c => (t.cacheOf c).size) =
      kept.map fun v => (t.cacheOf v.cache).size := by
    rw [h.caches_eq, List.map_map]
    rfl
  rw [hsizes, orderResults_eq hrequests hindices fun c => (t.cacheOf c).size]
  generalize hwrites : (kept.zip step.nextTokens).map _ = writes
  have hfst : writes.map Prod.fst = kept.map ValidRequest.sourceIndex := by
    have hcomp : writes.map Prod.fst =
        ((kept.zip step.nextTokens).map Prod.fst).map ValidRequest.sourceIndex := by
      rw [← hwrites, List.map_map, List.map_map]
      rfl
    rw [hcomp, List.map_fst_zip (by rw [h.tokens_length])]
  have hplace : ∀ i request, batch.requests[i]? = some request →
      ∃ x, (place step.prepared.orderedResults writes)[i]? = some (some x) ∧
        Answers start t kept step.nextTokens i request x := by
    intro i request hreq
    have hlt : i < step.prepared.orderedResults.length := by
      rw [h.prepares.results_length]
      exact (List.getElem?_eq_some_iff.mp hreq).1
    by_cases hi : i ∈ kept.map ValidRequest.sourceIndex
    · obtain ⟨v, hv, rfl⟩ := List.mem_map.mp hi
      obtain ⟨j, hj, hjv⟩ := List.getElem_of_mem hv
      have htoken : step.nextTokens[j]? =
          some (step.nextTokens.get ⟨j, by rw [h.tokens_length]; exact hj⟩) :=
        List.getElem?_eq_getElem _
      refine ⟨_, getElem?_place_of_mem (hfst ▸ h.prepares.kept_nodup) hlt ?_,
        .ran (List.getElem?_eq_some_iff.mpr ⟨hj, hjv⟩) rfl ?_ htoken⟩
      · rw [← hwrites, List.mem_map]
        refine ⟨(v, _), List.mem_iff_getElem?.mpr ⟨j, ?_⟩, rfl⟩
        rw [List.getElem?_zip_eq_some]
        exact ⟨List.getElem?_eq_some_iff.mpr ⟨hj, hjv⟩, htoken⟩
      · exact Option.some.inj ((h.prepares.kept_valid v hv).1.symm.trans hreq)
    · obtain ⟨x, hx, hrejected⟩ := h.prepares.rejected i request hreq hi
      refine ⟨x, ?_, .rejected hi hrejected⟩
      rw [getElem?_place_of_notMem (hfst ▸ hi), hx]
  -- No place is left open.
  obtain ⟨xs, hxs⟩ : ∃ xs, requireResults (place step.prepared.orderedResults writes) = .ok xs := by
    refine exists_requireResults fun o ho => ?_
    obtain ⟨i, hi, rfl⟩ := List.getElem_of_mem ho
    rw [length_place, h.prepares.results_length] at hi
    obtain ⟨x, hx, -⟩ := hplace i batch.requests[i] (List.getElem?_eq_getElem hi)
    rw [(List.getElem?_eq_some_iff.mp hx).2]
    exact Option.some_ne_none x
  have hall := requireResults_eq_ok.mp hxs
  refine ⟨xs, hxs, ?_, ?_⟩
  · have := congrArg List.length hall
    rw [length_place, List.length_map, h.prepares.results_length] at this
    exact this.symm
  · intro i request hreq
    obtain ⟨x, hx, hanswer⟩ := hplace i request hreq
    refine ⟨x, ?_, hanswer⟩
    rw [hall, List.getElem?_map] at hx
    simpa using hx

section Commit

variable [DecidableEq ρ] {batch : ExecutionBatch ρ} {kept : List (ValidRequest ρ)}
  {step : InFlightStep ρ κ}

/-- A commit makes the cache of a kept request longer by its tokens. -/
theorem InFlight.committed_length (h : InFlight start batch kept step s) {v : ValidRequest ρ}
    (hv : v ∈ kept) : ((s.committed step.reservation).cacheOf v.cache).length =
      (start.cacheOf v.cache).length + v.request.tokenIds.length := by
  have hstart : s.cacheOf v.cache = start.cacheOf v.cache :=
    h.aborted.cacheOf_eq _ (mem_requestCaches_lt h hv)
  rcases h.holds.shaped.installTables_cases s.cacheOf v.cache with
    ⟨change, hchange, hcache, heq⟩ | ⟨hnot, -⟩
  · have hmem : change.1 ∈ kept.map fun w => (w.cache, w.tokenLength) := by
      have := (List.of_mem_zip hchange).1
      rwa [h.caches_eq, h.appends_eq, List.zip_map'] at this
    obtain ⟨w, hw, hwchange⟩ := List.mem_map.mp hmem
    obtain rfl : w = v := List.inj_on_of_nodup_map h.prepares.caches_nodup hw hv
      ((congrArg Prod.fst hwchange).trans hcache)
    rw [← (h.prepares.kept_valid w hw).2.2.1]
    simp only [PagedKVCacheBackend.committed, heq, ← hwchange, hstart]
  · exact absurd (by rw [h.caches_eq]; exact List.mem_map_of_mem hv) hnot

/-- It changes no other cache. -/
theorem InFlight.committed_of_notMem (h : InFlight start batch kept step s) {c : Handle}
    (hc : c < start.nextHandle) (hnot : c ∉ kept.map ValidRequest.cache) :
    (s.committed step.reservation).cacheOf c = start.cacheOf c := by
  rcases h.holds.shaped.installTables_cases s.cacheOf c with ⟨change, hchange, rfl, -⟩ | ⟨-, heq⟩
  · rw [← h.caches_eq] at hnot
    exact absurd (List.of_mem_zip (List.of_mem_zip hchange).1).1 hnot
  · exact heq.trans (h.aborted.cacheOf_eq c hc)

end Commit

theorem abortThen_of_holds (h : s.Holds r) (e : PyError) :
    abortThen s r e = (e, s.aborted r) := by
  simp only [abortThen, PagedKVCacheBackend.abort_of_holds h]

/-- **`resolve_batch`** aborts and raises, or commits and answers every request. -/
theorem resolveBatch_cases [DecidableEq ρ] {batch : ExecutionBatch ρ}
    {kept : List (ValidRequest ρ)} {step : InFlightStep ρ κ}
    (h : InFlight start batch kept step s) (faults : StepFaults) :
    (∃ e, resolveBatch s step faults = (.error e, s.aborted step.reservation)) ∨
    ∃ xs, resolveBatch s step faults = (.ok ⟨step.layout.forwardMode, xs,
        step.layout.requests.length, 1⟩, s.committed step.reservation) ∧
      xs.length = batch.requests.length ∧
      ∀ i request, batch.requests[i]? = some request → ∃ x, xs[i]? = some x ∧
        Answers start (s.committed step.reservation) kept step.nextTokens i request x := by
  rw [resolveBatch.eq_def]
  cases faults.eval with
  | some message =>
      exact .inl ⟨_, by dsimp only; rw [abortThen_of_holds h.holds]⟩
  | none =>
      rcases PagedKVCacheBackend.commit_of_holds h.holds (faults.commitEval.map .external) with
        ⟨e, heq⟩ | heq
      · exact .inl ⟨_, by rw [heq]; dsimp only; rw [abortThen_of_holds h.holds]⟩
      · obtain ⟨xs, hxs, hlength, hanswers⟩ :=
          answers_of_inFlight h (s.committed step.reservation)
        refine .inr ⟨xs, ?_, hlength, hanswers⟩
        simp only [heq, hxs, Except.map]

theorem Steady.trans {s'' : PagedKVCacheBackend ρ κ} (h : Steady s s') (h' : Steady s' s'') :
    Steady s s'' :=
  ⟨h'.in_bounds, h'.caches_eq.trans h.caches_eq, h'.nextHandle_eq.trans h.nextHandle_eq,
    fun c => (h'.requestId_eq c).trans (h.requestId_eq c)⟩

theorem steady_aborted (hs : s.InBounds) (h : s.Holds r) : Steady s (s.aborted r) :=
  ⟨h.inBounds_aborted hs, rfl, rfl, fun _ => rfl⟩

theorem steady_committed (hs : s.InBounds) (h : s.Holds r) : Steady s (s.committed r) :=
  ⟨h.inBounds_committed hs, rfl, rfl, fun _ =>
    PagedKVCacheBackend.installTables_requestId _ _ _⟩

theorem steady_resolveBatch [DecidableEq ρ] {batch : ExecutionBatch ρ}
    {kept : List (ValidRequest ρ)} {step : InFlightStep ρ κ} (hs : s.InBounds)
    (h : InFlight start batch kept step s) (faults : StepFaults) :
    Steady s (resolveBatch s step faults).2 := by
  rcases resolveBatch_cases h faults with ⟨e, heq⟩ | ⟨xs, heq, -⟩ <;> rw [heq]
  · exact steady_aborted hs h.holds
  · exact steady_committed hs h.holds

/-- **`discard_batch`** aborts, whatever it raises. -/
theorem discardBatch_of_holds {step : InFlightStep ρ κ} (h : s.Holds step.reservation)
    (faults : StepFaults) : (discardBatch s step faults).2 = s.aborted step.reservation := by
  rw [discardBatch, PagedKVCacheBackend.abort_of_holds h]
  cases faults.eval <;> rfl

end MlxRuntime.MlxGenerationExecutor
