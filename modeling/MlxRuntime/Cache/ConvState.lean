import MlxRuntime.Lib.Run
import MlxRuntime.Cache.HybridSteps

/-!
# Convolution states follow the committed tokens

What the convolution states are for: a request that arrives in chunks, in whatever
batches, is convolved as if it had arrived at once and alone.  The runs are those that
name no cache in two open reservations and fork whole caches only.

## Main definitions

* `Follows.step_lockstep` — a state changes by a commit only, together with the length.
* `SeesWhole` — the windows of a chunk are those of the whole.
* `convState_follows_committed` — both, after every run.
-/

namespace MlxRuntime.HybridStore

variable {ρ κ χ ι ω : Type} [Zero χ] [Mul χ]
  {model : ℕ → Option (Lfm2ShortConv ι χ ω)}
  {w : HybridStore ρ κ χ} {s s' : HybridPagedKVCacheBackend ρ κ χ} {t : ConvHistory χ}
  {inputs : Handle → ℕ → List χ} {r r' : HybridBatchReservation κ χ} {b : PendingInputs χ}
  {m : Lfm2ShortConv ι χ ω} {layer : ℕ}

/-! ## What one call changes -/

/-- **In lockstep.** A call leaves the states and the length of a cache as they were, or
is a commit of a batch it is in, which makes it longer. -/
theorem Follows.step_lockstep (h : Follows model w t) (op : HybridOp ρ κ χ ι) {x : Handle}
    (hx : x < w.backend.nextHandle) :
    ((step model w op).2.backend.convStates x = w.backend.convStates x ∧
      ((step model w op).2.backend.cacheOf x).length = (w.backend.cacheOf x).length) ∨
    ∃ i r lengths, op = .commit i none ∧ w.reservations[i]? = some r ∧ x ∈ r.requestCaches ∧
      (step model w op).1 = .lengths lengths ∧
      (w.backend.cacheOf x).length < ((step model w op).2.backend.cacheOf x).length := by
  have hne : x ≠ w.backend.nextHandle := ne_of_lt hx
  cases op with
  | create requestId =>
      rw [step, HybridPagedKVCacheBackend.create, PagedKVCacheBackend.create_eq]
      exact .inl ⟨Function.update_of_ne hne _ _,
        congrArg PagedRequestCache.length (Function.update_of_ne hne _ _)⟩
  | fork handle requestId length =>
      rw [step, HybridPagedKVCacheBackend.fork]
      rcases w.backend.toPagedKVCacheBackend.fork_cases handle requestId length with
        ⟨e, -, heq⟩ | ⟨-, -, heq⟩ <;> rw [heq]
      · exact .inl ⟨rfl, rfl⟩
      · exact .inl ⟨Function.update_of_ne hne _ _,
          congrArg PagedRequestCache.length (Function.update_of_ne hne _ _)⟩
  | release handle =>
      obtain ⟨caches, refs, free, heq, -⟩ :=
        w.backend.toPagedKVCacheBackend.release_cases handle
      rw [step, HybridPagedKVCacheBackend.release]
      dsimp only
      rw [heq]
      exact .inl ⟨rfl, rfl⟩
  | reserveBatch caches appendLengths =>
      rw [step, HybridPagedKVCacheBackend.reserveBatch]
      rcases w.backend.toPagedKVCacheBackend.reserveBatch_cases caches appendLengths with
        ⟨e, n, -, heq⟩ | ⟨q, changes, -, heq⟩ <;> rw [heq]
      · exact .inl ⟨rfl, rfl⟩
      · exact .inl ⟨rfl, rfl⟩
  | prepareConvState i layer values cacheSize =>
      rw [step, onReservation]
      cases w.reservations[i]? <;> exact .inl ⟨rfl, rfl⟩
  | shortConv i layer x =>
      rw [step]
      cases model layer with
      | none => exact .inl ⟨rfl, rfl⟩
      | some m =>
          dsimp only
          rw [onReservation]
          cases w.reservations[i]? <;> exact .inl ⟨rfl, rfl⟩
  | stageLayer i layer keys values =>
      rw [step]
      cases model layer with
      | some m => exact .inl ⟨rfl, rfl⟩
      | none =>
          dsimp only
          rw [onReservation]
          cases w.reservations[i]? with
          | none => exact .inl ⟨rfl, rfl⟩
          | some r =>
              dsimp only
              rw [HybridPagedKVCacheBackend.stageLayer]
              split_ifs
              · exact .inl ⟨rfl, rfl⟩
              · exact .inl ⟨rfl, rfl⟩
              · rcases w.backend.toPagedKVCacheBackend.stageLayer_cases r.toPagedBatchReservation
                  layer keys values with ⟨e, -, heq⟩ | ⟨-, heq⟩ <;> rw [heq]
                · exact .inl ⟨rfl, rfl⟩
                · exact .inl ⟨rfl, rfl⟩
  | commit i evalError =>
      rw [step, onReservation]
      cases hi : w.reservations[i]? with
      | none => exact .inl ⟨rfl, rfl⟩
      | some r =>
          dsimp only
          obtain ⟨b, hb⟩ := h.exists_pending hi
          rcases commit_cases w.backend r
            (fun hopen => (h.gathers i r b hi hb hopen).pinned_nodup) (h.pinned_pos hi)
            (evalError.map .external) with ⟨e, heq⟩ | ⟨hnone, hopen, hops, heq⟩ <;> rw [heq]
          · exact .inl ⟨rfl, rfl⟩
          · have hg := h.gathers i r b hi hb hopen
            by_cases hmem : x ∈ r.requestCaches
            · obtain ⟨j, hj⟩ := List.mem_iff_getElem?.mp hmem
              obtain ⟨append, hpos, -, -, hchange⟩ := hg.exists_append hj
              obtain rfl : evalError = none := by simpa using hnone
              refine .inr ⟨i, r, _, rfl, hi, hmem, rfl, ?_⟩
              dsimp only
              rw [length_committed hg.shaped hchange]
              omega
            · refine .inl ⟨HybridPagedKVCacheBackend.installStates_of_notMem hmem, ?_⟩
              dsimp only
              rw [cacheOf_committed hg.shaped hmem]
  | abort i =>
      rw [step, onReservation]
      cases hi : w.reservations[i]? with
      | none => exact .inl ⟨rfl, rfl⟩
      | some r =>
          dsimp only
          rw [HybridPagedKVCacheBackend.abort, PagedKVCacheBackend.abort]
          cases hopen : r.finished with
          | true => exact .inl ⟨rfl, rfl⟩
          | false =>
              obtain ⟨b, hb⟩ := h.exists_pending hi
              have hg := h.gathers i r b hi hb hopen
              rw [PagedKVCacheBackend.finishReservation_eq hg.pinned_nodup (h.pinned_pos hi hopen)]
              exact .inl ⟨rfl, rfl⟩

/-! ## Chunked and whole -/

/-- A request alone and unchunked: a fresh store, its cache, and one reservation of its
`n` positions. -/
def Alone (model : ℕ → Option (Lfm2ShortConv ι χ ω)) (n : ℕ)
    (s : HybridPagedKVCacheBackend ρ κ χ) (r : HybridBatchReservation κ χ) : Prop :=
  ∃ (config : PagedKVConfig) (zero : κ) (noRequest requestId : ρ) (w : HybridStore ρ κ χ),
    ofConfig config zero noRequest = .ok w ∧
      Run.exec (step model) w [.create requestId, .reserveBatch [0] [n]] = ⟨s, [r]⟩

/-- The windows that a convolution layer sees at the valid positions of an open
reservation are those it sees when each request runs alone over all its inputs. -/
def SeesWhole (model : ℕ → Option (Lfm2ShortConv ι χ ω)) (w : HybridStore ρ κ χ)
    (t : ConvHistory χ) : Prop :=
  ∀ (i : ℕ) r, w.reservations[i]? = some r → r.finished = false →
    ∀ layer < w.backend.numLayers, ∀ m, model layer = some m → ∀ values, Fits r values →
    ∃ combined, w.backend.prepareConvState r layer values m.cacheSize = .ok combined ∧
      ∀ (j : ℕ) h append row, r.requestCaches[j]? = some h → r.appendLengths[j]? = some append →
        values[j]? = some row → ∃ seen, combined[j]? = some seen ∧
        ∀ (later : List χ) (s₀ : HybridPagedKVCacheBackend ρ κ χ) r₀,
          Alone model (t.inputs h layer ++ (row.take append ++ later)).length s₀ r₀ →
          ∃ whole,
            s₀.prepareConvState r₀ layer [t.inputs h layer ++ (row.take append ++ later)]
              m.cacheSize = .ok [whole] ∧
            ∀ position < append, windowAt m.cacheSize seen position =
              windowAt m.cacheSize whole ((w.backend.cacheOf h).length + position)

/-- A request alone has no state, whatever the layer. -/
theorem alone_spec {n : ℕ} (halone : Alone model n s r) :
    (∀ layer, s.convStates 0 layer = none) ∧ r.requestCaches = [0] ∧ r.appendLengths = [n] := by
  obtain ⟨config, zero, noRequest, requestId, w, hw, hexec⟩ := halone
  have hfresh : Follows model w ConvHistory.empty := follows_ofConfig hw
  have hempty : w.reservations = [] := List.eq_nil_of_length_eq_zero hfresh.pending_length.symm
  have hstates : ∀ h layer, w.backend.convStates h layer = none := by
    rw [ofConfig, HybridPagedKVCacheBackend.postInit] at hw
    cases hpost : PagedKVCacheBackend.postInit config zero noRequest with
    | error e => simp [hpost, Except.map] at hw
    | ok s =>
        obtain rfl : HybridStore.mk ⟨s, fun _ _ => none⟩ [] = w := by
          simpa [hpost, Except.map] using hw
        exact fun _ _ => rfl
  rw [Run.exec_cons, Run.exec_cons, Run.exec_nil, step, HybridPagedKVCacheBackend.create,
    PagedKVCacheBackend.create_eq] at hexec
  dsimp only at hexec
  rw [step, HybridPagedKVCacheBackend.reserveBatch] at hexec
  dsimp only at hexec
  rcases (w.backend.toPagedKVCacheBackend.addCache requestId [] 0).reserveBatch_cases [0] [n] with
    ⟨e, k, -, heq⟩ | ⟨q, changes, hq, heq⟩ <;> rw [heq] at hexec
  · have := congrArg HybridStore.reservations hexec
    simp [hempty] at this
  · obtain ⟨hs, hr⟩ := HybridStore.mk.inj hexec
    rw [hempty, List.nil_append, List.cons.injEq, eq_self, and_true] at hr
    rw [← hs, ← hr, hq.eq_new]
    refine ⟨fun layer => ?_, rfl, rfl⟩
    dsimp only
    by_cases hzero : 0 = w.backend.nextHandle
    · rw [← hzero, Function.update_self]
    · rw [Function.update_of_ne hzero]
      exact hstates 0 layer

/-- What a request alone prepares: its inputs behind zeros. -/
theorem prepareConvState_alone {n : ℕ} (halone : Alone model n s r) (layer cacheSize : ℕ)
    {row : List χ} (hrow : row.length = n) :
    s.prepareConvState r layer [row] cacheSize =
      .ok [List.replicate (cacheSize - 1) 0 ++ row] := by
  obtain ⟨hstates, hcaches, happends⟩ := alone_spec halone
  have hstack : stack ([0].map fun h => (s.convStates h layer).getD
      (List.replicate (cacheSize - 1) 0)) = .ok [List.replicate (cacheSize - 1) 0] := by
    simp [hstates, stack]
  rw [HybridPagedKVCacheBackend.prepareConvState, hcaches, happends, hstack]
  change Except.ok [List.replicate (cacheSize - 1) 0 ++ maskRow n row] = _
  rw [maskRow_eq, hrow, Nat.sub_self, List.replicate_zero, List.append_nil, ← hrow,
    List.take_length]

/-- **The windows of a chunk** are those of the whole. -/
theorem Follows.seesWhole (h : Follows model w t)
    (hk : ∀ layer m, model layer = some m → 2 ≤ m.cacheSize) : SeesWhole model w t := by
  intro i r hi hopen layer hlayer m hm values hfits
  obtain ⟨b, hb⟩ := h.exists_pending hi
  have hg := h.gathers i r b hi hb hopen
  obtain ⟨combined, hprep, hcombined⟩ :=
    prepareConvState_eq (fun x hx => h.tracks x (hg.created x hx)) hlayer hm hfits
  refine ⟨combined, hprep, fun j x append row hj happend hrow =>
    ⟨_, hcombined j x append row hj happend hrow, fun later s₀ r₀ halone =>
      ⟨_, prepareConvState_alone halone layer m.cacheSize rfl, fun position hposition => ?_⟩⟩⟩
  have hx := h.tracks x (hg.created x (List.mem_of_getElem? hj))
  have hle := hfits.append_le happend hrow
  have hsize := hk layer m hm
  have hends : ∀ past : List χ, past.length = m.cacheSize - 1 →
      position + m.cacheSize ≤ (past ++ row.take append).length := by
    intro past hpast
    rw [List.length_append, hpast, List.length_take_of_le hle]
    omega
  rw [← List.append_assoc, windowAt_append (hends _ (length_lastPadded _ _ _)),
    ← hx.length_eq layer hlayer m hm, ← windowAt_lastPadded_append, ← List.append_assoc,
    windowAt_append (hends _ (length_lastPadded _ _ _))]

/-! ## The main result -/

/-- **Convolution states follow the committed tokens.** After every guarded run the state
of a live cache for a convolution layer is absent while nothing is committed, and else
the last gated inputs of its committed positions, with zeros before the start; a further
call changes it only by a commit, together with the length; and at the valid positions of
a reservation the layer sees the windows of one unchunked run of the request alone. -/
theorem convState_follows_committed
    (hk : ∀ layer m, model layer = some m → 2 ≤ m.cacheSize) {config : PagedKVConfig} {zero : κ}
    {noRequest : ρ} {ops : List (HybridOp ρ κ χ ι)} (hw : ofConfig config zero noRequest = .ok w)
    (hops : Run.Each (step model) Exclusive w ops) :
    let w' := Run.exec (step model) w ops
    let t := Run.follow (step model) (ConvHistory.step model) w ConvHistory.empty ops
    (∀ h ∈ w'.backend.caches, ∀ layer < w'.backend.numLayers, ∀ m, model layer = some m →
      (t.inputs h layer).length = (w'.backend.cacheOf h).length ∧
      w'.backend.convStates h layer = if (w'.backend.cacheOf h).length = 0 then none
        else some (lastPadded (m.cacheSize - 1) 0 (t.inputs h layer))) ∧
    (∀ op : HybridOp ρ κ χ ι, w'.Exclusive op → ∀ h ∈ w'.backend.caches,
      ((step model w' op).2.backend.convStates h = w'.backend.convStates h ∧
        ((step model w' op).2.backend.cacheOf h).length = (w'.backend.cacheOf h).length) ∨
      ∃ i r lengths, op = .commit i none ∧ w'.reservations[i]? = some r ∧
        h ∈ r.requestCaches ∧ (step model w' op).1 = .lengths lengths ∧
        (w'.backend.cacheOf h).length < ((step model w' op).2.backend.cacheOf h).length) ∧
    SeesWhole model w' t := by
  intro w' t
  have hstep : ∀ (v : HybridStore ρ κ χ) (u : ConvHistory χ) (op : HybridOp ρ κ χ ι),
      Follows model v u → v.Exclusive op →
      Follows model (step model v op).2 (u.step model op (step model v op).1) :=
    fun v u op h hok => follows_step h hok
  have h : Follows model w' t := Run.simulation hstep (follows_ofConfig hw) hops
  refine ⟨fun x hx layer hlayer m hm => ?_, fun op _ x hx => ?_, h.seesWhole hk⟩
  · have htracks := h.tracks x (h.fresh x hx)
    exact ⟨htracks.length_eq layer hlayer m hm, htracks.state_eq layer hlayer m hm⟩
  · exact h.step_lockstep op (h.fresh x hx)

/-- A graph with one convolution of kernel size three before one attention layer. -/
def convThenAttention : ℕ → Option (Lfm2ShortConv ℕ ℕ ℕ)
  | 0 => some ⟨3, fun v => (v, 1, 1), List.sum, id⟩
  | _ => none

/-- Three pages of eight rows for two layers. -/
def twoLayers : PagedKVConfig where
  numLayers := 2
  numKvHeads := 1
  headDim := 1
  pageSize := 8
  budgetBytes := 192
  dtype := .float16

/-- One position, a fork, and two more positions to the source beside one to the fork. -/
def chunksWithFork : List (HybridOp ℕ ℕ ℕ ℕ) :=
  [.create 0, .reserveBatch [0] [1], .shortConv 0 0 [[5, 9]],
    .stageLayer 0 1 ⟨[1, 1, 2, 1], .float16, fun _ i => i⟩ ⟨[1, 1, 2, 1], .float16, fun _ i => i⟩,
    .commit 0 none, .fork 0 1 none, .reserveBatch [0, 1] [2, 1], .shortConv 1 0 [[6, 7], [8, 9]],
    .stageLayer 1 1 ⟨[2, 1, 2, 1], .float16, fun _ i => i⟩ ⟨[2, 1, 2, 1], .float16, fun _ i => i⟩,
    .commit 1 none]

/-- A fork carries the state of its source on. -/
theorem convState_follows_committed_of_fork : ∃ w : HybridStore ℕ ℕ ℕ,
    ofConfig twoLayers 0 0 = .ok w ∧
    let w' := Run.exec (step convThenAttention) w chunksWithFork
    let t := Run.follow (step convThenAttention) (ConvHistory.step convThenAttention) w
      ConvHistory.empty chunksWithFork
    w'.backend.convStates 1 0 = some (lastPadded 2 0 (t.inputs 1 0)) ∧
      t.inputs 1 0 = [5, 8] ∧ w'.backend.convStates 0 0 = some [6, 7] := by
  refine ⟨_, rfl, ?_, by decide, by decide⟩
  have hw : ofConfig twoLayers 0 0 = .ok (_ : HybridStore ℕ ℕ ℕ) := rfl
  have hk : ∀ layer m, convThenAttention layer = some m → 2 ≤ m.cacheSize := by
    intro layer m hm
    cases layer with
    | zero => obtain rfl := Option.some.inj hm; decide
    | succ => cases hm
  exact ((convState_follows_committed hk hw (by decide)).1 1 (by decide) 0 (by decide) _ rfl).2

end MlxRuntime.HybridStore
