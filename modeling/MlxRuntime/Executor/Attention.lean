import MlxRuntime.Cache.Gather
import MlxRuntime.Executor.Dispatch

/-!
# Attention over the paged store

A layer of the model hands its queries, keys and values to `append_and_attend`, which
stages the keys and values, gathers the rows of every request into one padded array and
masks it.  A batch mixes requests of any cached and any new length, so the rows of a
request lie in pages scattered over the pool, beside rows of other requests, stale rows
and padding.

The kernel attends to the positions the mask leaves open.  A request should see its own
positions up to the one it is at, and the same ones in any batch.

## Main definitions

* `AttentionCall`, `AttentionInput` — what a layer hands over and what the kernel gets.
* `denseCausalMask`, `appendAndAttend` — the methods.
* `AttentionInput.attended` — what a query attends to.
* `ownRows`, `windowed` — what it should attend to.
* `attends_own_positions` — the two agree.
-/

namespace MlxRuntime

open PagedKVCacheBackend (StagedFrom Reserves)

variable {ρ κ L : Type}

/-- What attention takes from Python and MLX: `int` of a text, a row cast to another
element type and the row `mx.pad` fills with. -/
structure ArrayOps (κ : Type) where
  int : String → Except PyError ℤ
  astype : Dtype → κ → κ
  zeros : κ

/-- One call of `append_and_attend` on the context of a layer. -/
structure AttentionCall (κ : Type) where
  layer : ℕ
  queries : KVTensor κ
  keys : KVTensor κ
  values : KVTensor κ
  mask : Option String
  windowSize : Option ℤ

/-- What the attention kernel gets: for each request the gathered keys and values, and for
each of its queries the positions whose score the mask leaves as it is. -/
structure AttentionInput (κ : Type) where
  keys : List (List κ)
  values : List (List κ)
  mask : List (List (List Bool))
  deriving DecidableEq, Repr

/-- The keys and values a query of a request attends to, with their positions. -/
def AttentionInput.attended (input : AttentionInput κ) (index query : ℕ) :
    List ((κ × κ) × ℕ) :=
  ((((input.keys.getD index []).zip (input.values.getD index [])).zipIdx).zip
    ((input.mask.getD index []).getD query [])).filterMap fun x =>
      if x.2 then some x.1 else none

/-- `_window_size`. -/
def windowSize (arrays : ArrayOps κ) (mask : Option String) : Except PyError (Option ℤ) :=
  match mask with
  | none => .ok none
  | some mask =>
      if mask = "causal" then .ok none
      else if mask.startsWith "sliding_window:" then
        (arrays.int (mask.drop "sliding_window:".length).toString).map fun value =>
          if 0 < value then some value else none
      else .ok none

/-- The window of a call: its own, or the one its mask names. -/
def windowOf (arrays : ArrayOps κ) (call : AttentionCall κ) :
    Except PyError (Option ℤ) :=
  match call.windowSize with
  | some window => .ok (some window)
  | none => windowSize arrays call.mask

/-- Whether a key position is inside the window of a query position. -/
def inWindow (window : Option ℤ) (position key : ℕ) : Bool :=
  window.all fun size => decide ((position : ℤ) - size + 1 ≤ key)

/-- `_dense_causal_mask`: true where it holds `0.0`, false where it holds `-1e9`. -/
def denseCausalMask (cacheOffsets tokenLengths : List ℕ) (maxTokens maxTotal : ℕ)
    (window : Option ℤ) : List (List (List Bool)) :=
  (cacheOffsets.zip tokenLengths).map fun (offset, tokenLength) =>
    (List.range maxTokens).map fun query =>
      (List.range maxTotal).map fun key =>
        decide (query < tokenLength) && decide (key ≤ offset + query) &&
          inWindow window (offset + query) key

/-- A decode after three rows beside a prefill of two, with a window of two rows. -/
example : denseCausalMask [3, 0] [1, 2] 2 4 (some 2) =
    [[[false, false, true, true], [false, false, false, false]],
      [[true, false, false, false], [true, true, false, false]]] := by decide

/-- `keys.astype(dtype)`, where the types differ. -/
def KVTensor.astype (arrays : ArrayOps κ) (dtype : Dtype) (tensor : KVTensor κ) : KVTensor κ :=
  if tensor.dtype = dtype then tensor
  else ⟨tensor.shape, dtype, fun index i => arrays.astype dtype (tensor.row index i)⟩

/-- `PagedLayerAttentionContext.append_and_attend`, up to the kernel.  The contexts of a
reservation share it and its store. -/
def appendAndAttend (arrays : ArrayOps κ)
    (x : PagedBatchReservation κ × PagedKVCacheBackend ρ κ) (call : AttentionCall κ) :
    Except PyError (AttentionInput κ) × PagedBatchReservation κ × PagedKVCacheBackend ρ κ :=
  match windowOf arrays call with
  | .error e => (.error e, x)
  | .ok window =>
      if call.mask ≠ none ∧ call.mask ≠ some "causal" ∧ window = none then
        (.error (.valueError "native paged attention received unsupported mask"), x)
      else
        match call.queries.shape with
        | _ :: heads :: tokens :: headDim :: _ =>
            if heads % x.2.numKvHeads ≠ 0 then
              (.error (.valueError "query heads must be divisible by KV heads"), x)
            else if headDim ≠ x.2.headDim then
              (.error (.valueError "paged attention query head dimension is unsupported"), x)
            else
              match x.2.stageLayer x.1 call.layer (call.keys.astype arrays x.2.dtype)
                (call.values.astype arrays x.2.dtype) with
              | (.error e, r, s) => (.error e, r, s)
              | (.ok (keyCache, valueCache), r, s) =>
                  (.ok {
                    keys := s.denseRows r arrays.zeros keyCache
                    values := s.denseRows r arrays.zeros valueCache
                    mask := denseCausalMask (s.cacheLengths r) r.appendLengths tokens
                      (s.maxTotalLength r) window }, r, s)
        | _ => (.error .indexError, x)

/-- The number of query positions of a call. -/
def AttentionCall.queryCount (call : AttentionCall κ) : ℕ := call.queries.shape.getD 2 0

/-- The number of positions of a layout's rows: `input_ids.shape[1]`. -/
def BatchLayout.width (layout : BatchLayout ρ) : ℕ :=
  (layout.inputIds.map List.length).headD 0

/-! ## What a query should attend to -/

/-- The rows of a request in one layer: those its cache holds, then those the layer
computed for its `n` new positions. -/
def ownRows (s : PagedKVCacheBackend ρ κ) (cache : Handle) (layer index n : ℕ)
    (keys values : KVTensor κ) : List (κ × κ) :=
  s.layerRows cache layer ++
    (List.range n).map fun i => (keys.row index i, values.row index i)

/-- The rows at the positions up to `position` that lie inside its window. -/
def windowed (window : Option ℤ) (position : ℕ) (rows : List (κ × κ)) :
    List ((κ × κ) × ℕ) :=
  (rows.take (position + 1)).zipIdx.filter fun x => inWindow window position x.2

/-- Filtering a list by a mask over its positions. -/
theorem filterMap_zip_mask {α : Type} (xs : List α) (p : ℕ → Bool) (k : ℕ) :
    (((xs.zipIdx k).zip ((List.range' k xs.length).map p)).filterMap fun x =>
      if x.2 then some x.1 else none) = (xs.zipIdx k).filter fun x => p x.2 := by
  induction xs generalizing k with
  | nil => rfl
  | cons x xs ih =>
      simp only [List.zipIdx_cons, List.length_cons, List.range'_succ, List.map_cons,
        List.zip_cons_cons]
      by_cases hp : p k
      · rw [List.filterMap_cons_some (b := (x, k)) (by simp [hp]), ih,
          List.filter_cons_of_pos (by simpa using hp)]
      · rw [List.filterMap_cons_none (by simp [hp]), ih,
          List.filter_cons_of_neg (by simpa using hp)]

/-- A causal mask over padded rows leaves the rows up to a position of the request. -/
theorem filter_zipIdx_padded {α : Type} (rows padding : List α) (p : ℕ → Bool) {position : ℕ}
    (hlt : position < rows.length) :
    ((rows ++ padding).zipIdx.filter fun x => decide (x.2 ≤ position) && p x.2) =
      (rows.take (position + 1)).zipIdx.filter fun x => p x.2 := by
  have hsplit : rows ++ padding =
      rows.take (position + 1) ++ (rows.drop (position + 1) ++ padding) := by
    rw [← List.append_assoc, List.take_append_drop]
  have hlength : (rows.take (position + 1)).length = position + 1 := by
    rw [List.length_take]
    omega
  rw [hsplit, List.zipIdx_append, List.filter_append, hlength, Nat.zero_add]
  have hlate : (((rows.drop (position + 1) ++ padding).zipIdx (position + 1)).filter
      fun x => decide (x.2 ≤ position) && p x.2) = [] := by
    apply List.filter_eq_nil_iff.mpr
    intro x hx
    have := List.le_snd_of_mem_zipIdx hx
    simp only [Bool.and_eq_true, decide_eq_true_eq, not_and]
    omega
  rw [hlate, List.append_nil]
  apply List.filter_congr
  intro x hx
  have := List.snd_lt_of_mem_zipIdx hx
  rw [hlength] at this
  rw [decide_eq_true (by omega), Bool.true_and]

/-! ## One call -/

namespace PagedKVCacheBackend

variable {s : PagedKVCacheBackend ρ κ} {r : PagedBatchReservation κ}

/-- The row of the mask for a query of the request at `index`. -/
theorem getD_denseCausalMask {index query tokens : ℕ} {change : (Handle × ℕ) × List Page}
    (hchange : r.changes[index]? = some change) (hquery : query < change.1.2)
    (htokens : query < tokens) (window : Option ℤ) (maxTotal : ℕ) :
    ((denseCausalMask (s.cacheLengths r) r.appendLengths tokens maxTotal window).getD
        index []).getD query [] =
      (List.range maxTotal).map fun key =>
        decide (key ≤ (s.cacheOf change.1.1).length + query) &&
          inWindow window ((s.cacheOf change.1.1).length + query) key := by
  obtain ⟨hzip, -⟩ := List.getElem?_zip_eq_some.mp hchange
  have hrows : (denseCausalMask (s.cacheLengths r) r.appendLengths tokens maxTotal window)[index]? =
      some ((List.range tokens).map fun query => (List.range maxTotal).map fun key =>
        decide (query < change.1.2) && decide (key ≤ (s.cacheOf change.1.1).length + query) &&
          inWindow window ((s.cacheOf change.1.1).length + query) key) := by
    rw [denseCausalMask, cacheLengths, List.zip_map_left, List.map_map, List.getElem?_map, hzip]
    rfl
  rw [List.getD_eq_getElem?_getD, List.getD_eq_getElem?_getD, hrows, Option.getD_some,
    List.getElem?_map, List.getElem?_range htokens, Option.map_some, Option.getD_some]
  simp only [decide_eq_true hquery, Bool.true_and]

/-- **What a query attends to** in the pools a layer stages. -/
theorem attended_stagedPools (hs : s.Wf) (ho : s.Outstanding r) (hw : s.Writable r)
    (layer : ℕ) (keys values : KVTensor κ) (zero : κ) (window : Option ℤ) {index query tokens : ℕ}
    {change : (Handle × ℕ) × List Page} (hchange : r.changes[index]? = some change)
    (hquery : query < change.1.2) (htokens : query < tokens) :
    AttentionInput.attended
        ⟨s.denseRows r zero (s.stagedPools r layer keys values).1,
          s.denseRows r zero (s.stagedPools r layer keys values).2,
          denseCausalMask (s.cacheLengths r) r.appendLengths tokens (s.maxTotalLength r) window⟩
        index query =
      windowed window ((s.cacheOf change.1.1).length + query)
        (ownRows s change.1.1 layer index change.1.2 keys values) := by
  have hx : (change, index) ∈ r.changes.zipIdx := List.mk_mem_zipIdx_iff_getElem?.mpr hchange
  have hle : (s.cacheOf change.1.1).length + change.1.2 ≤ s.maxTotalLength r :=
    le_maxTotalLength (List.mem_of_getElem? hchange)
  -- The row of each array is the request's own rows, then the padding.
  have hrow : ∀ (pool : PageArray κ) (tensor : KVTensor κ),
      (s.denseRows r zero (s.stagedPool r tensor (copyInto r.copyPages pool))).getD index [] =
        ((List.range (s.cacheOf change.1.1).length).map (fun pos =>
            flatten s.pageSize pool (s.slotIn change.1.1 pos)) ++
          (List.range change.1.2).map (tensor.row index)) ++
        List.replicate (s.maxTotalLength r - ((s.cacheOf change.1.1).length + change.1.2))
          zero := by
    intro pool tensor
    rw [denseRows_eq, List.getD_eq_getElem?_getD, List.getElem?_map, hchange, Option.map_some,
      Option.getD_some, gatherRows_stagedPool hs ho hw pool tensor hx]
  obtain ⟨padding, hpadding, hzip⟩ : ∃ padding : List (κ × κ),
      padding.length = s.maxTotalLength r - ((s.cacheOf change.1.1).length + change.1.2) ∧
      ((s.denseRows r zero (s.stagedPools r layer keys values).1).getD index []).zip
          ((s.denseRows r zero (s.stagedPools r layer keys values).2).getD index []) =
        ownRows s change.1.1 layer index change.1.2 keys values ++ padding := by
    refine ⟨List.replicate _ (zero, zero), List.length_replicate, ?_⟩
    rw [stagedPools, hrow, hrow, List.zip_append (by simp), List.zip_append (by simp),
      List.zip_map', List.zip_map', List.zip_replicate']
    rfl
  have hown : (ownRows s change.1.1 layer index change.1.2 keys values).length =
      (s.cacheOf change.1.1).length + change.1.2 := by
    simp [ownRows]
  have hlength : (ownRows s change.1.1 layer index change.1.2 keys values ++ padding).length =
      s.maxTotalLength r := by
    rw [List.length_append, hown, hpadding]
    omega
  rw [AttentionInput.attended, hzip, getD_denseCausalMask hchange hquery htokens, ← hlength,
    List.range_eq_range', filterMap_zip_mask, filter_zipIdx_padded]
  · rfl
  · rw [hown]
    omega

end PagedKVCacheBackend

section Calls

variable {s : PagedKVCacheBackend ρ κ} {r : PagedBatchReservation κ} {arrays : ArrayOps κ}

theorem ownRows_reservedFor (s : PagedKVCacheBackend ρ κ) (r : PagedBatchReservation κ)
    (cache : Handle) (layer index n : ℕ) (keys values : KVTensor κ) :
    ownRows (s.reservedFor r) cache layer index n keys values =
      ownRows s cache layer index n keys values := rfl

theorem ownRows_allocationFailed (s : PagedKVCacheBackend ρ κ) (k : ℕ) (cache : Handle)
    (layer index n : ℕ) (keys values : KVTensor κ) :
    ownRows (s.allocationFailed k) cache layer index n keys values =
      ownRows s cache layer index n keys values := rfl

/-- A call raises and changes nothing, or it stages its layer. -/
theorem appendAndAttend_cases (arrays : ArrayOps κ)
    (x : PagedBatchReservation κ × PagedKVCacheBackend ρ κ) (call : AttentionCall κ) :
    (∃ e, appendAndAttend arrays x call = (.error e, x)) ∨
    ∃ window, windowOf arrays call = .ok window ∧
      x.2.Stages x.1 call.layer (call.keys.astype arrays x.2.dtype)
        (call.values.astype arrays x.2.dtype) ∧
      appendAndAttend arrays x call =
        (.ok ⟨x.2.denseRows x.1 arrays.zeros (x.2.stagedPools x.1 call.layer
              (call.keys.astype arrays x.2.dtype) (call.values.astype arrays x.2.dtype)).1,
            x.2.denseRows x.1 arrays.zeros (x.2.stagedPools x.1 call.layer
              (call.keys.astype arrays x.2.dtype) (call.values.astype arrays x.2.dtype)).2,
            denseCausalMask (x.2.cacheLengths x.1) x.1.appendLengths call.queryCount
              (x.2.maxTotalLength x.1) window⟩,
          PagedKVCacheBackend.stagedWith x.1 call.layer (x.2.stagedPools x.1 call.layer
            (call.keys.astype arrays x.2.dtype) (call.values.astype arrays x.2.dtype)),
          x.2.copiedFor x.1 call.layer) := by
  rw [appendAndAttend.eq_def]
  cases windowOf arrays call with
  | error e => exact .inl ⟨e, rfl⟩
  | ok window =>
      dsimp only
      split
      case isTrue => exact .inl ⟨_, rfl⟩
      case isFalse =>
        split
        case h_2 => exact .inl ⟨_, rfl⟩
        case h_1 batch heads tokens headDim rest hshape =>
          split
          case isTrue => exact .inl ⟨_, rfl⟩
          case isFalse =>
            split
            case isTrue => exact .inl ⟨_, rfl⟩
            case isFalse =>
              rcases x.2.stageLayer_cases x.1 call.layer (call.keys.astype arrays x.2.dtype)
                (call.values.astype arrays x.2.dtype) with ⟨e, -, heq⟩ | ⟨hstages, heq⟩
              · rw [heq]
                exact .inl ⟨e, rfl⟩
              · have htokens : call.queryCount = tokens := by
                  rw [AttentionCall.queryCount, hshape]
                  rfl
                rw [heq, htokens]
                exact .inr ⟨window, rfl, hstages, rfl⟩

/-- A forward in progress: the layers that are not staged still have the pools it began
with. -/
structure Attending (s : PagedKVCacheBackend ρ κ) (r : PagedBatchReservation κ)
    (x : PagedBatchReservation κ × PagedKVCacheBackend ρ κ) : Prop where
  staged : StagedFrom s r x.1 x.2
  pools : ∀ layer, x.1.stagedKeys layer = none →
    x.2.keyPages layer = s.keyPages layer ∧ x.2.valuePages layer = s.valuePages layer

theorem Attending.refl : Attending s r (r, s) := ⟨.refl, fun _ _ => ⟨rfl, rfl⟩⟩

/-- **The step lemma.** -/
theorem Attending.step {x : PagedBatchReservation κ × PagedKVCacheBackend ρ κ}
    (h : Attending s r x) (call : AttentionCall κ) :
    Attending s r (appendAndAttend arrays x call).2 := by
  rcases appendAndAttend_cases arrays x call with ⟨e, heq⟩ | ⟨window, -, -, heq⟩ <;> rw [heq]
  · exact h
  · refine ⟨h.staged.trans ⟨rfl, rfl⟩, fun layer hlayer => ?_⟩
    have hne : layer ≠ call.layer := by
      rintro rfl
      simp [PagedKVCacheBackend.stagedWith] at hlayer
    have hold : x.1.stagedKeys layer = none := by
      simpa [PagedKVCacheBackend.stagedWith, Function.update_of_ne hne] using hlayer
    obtain ⟨hkeys, hvalues⟩ := h.pools layer hold
    exact ⟨(PagedKVCacheBackend.copiedFor_keyPages_of_ne hne).trans hkeys,
      (PagedKVCacheBackend.copiedFor_valuePages_of_ne hne).trans hvalues⟩

/-- **The run lemma.** -/
theorem Attending.exec {x : PagedBatchReservation κ × PagedKVCacheBackend ρ κ}
    (h : Attending s r x) (calls : List (AttentionCall κ)) :
    Attending s r (Run.exec (appendAndAttend arrays) x calls) :=
  have hstep : ∀ (y : PagedBatchReservation κ × PagedKVCacheBackend ρ κ)
      (call : AttentionCall κ), Attending s r y → True →
      Attending s r (appendAndAttend arrays y call).2 := fun _ call hy _ => hy.step call
  Run.exec_invariant hstep h (Run.each_true x calls)

/-- The rows of a request in a layer that is not staged. -/
theorem Attending.ownRows_eq {x : PagedBatchReservation κ × PagedKVCacheBackend ρ κ}
    (h : Attending s r x) {layer : ℕ} (hlayer : x.1.stagedKeys layer = none) (cache : Handle)
    (index n : ℕ) (keys values : KVTensor κ) :
    ownRows x.2 cache layer index n keys values = ownRows s cache layer index n keys values := by
  obtain ⟨hkeys, hvalues⟩ := h.pools layer hlayer
  rw [ownRows, ownRows, PagedKVCacheBackend.layerRows, PagedKVCacheBackend.layerRows, hkeys,
    hvalues, h.staged.store]
  rfl

/-- **What a call attends to**, anywhere in a forward. -/
theorem Attending.attended {x x' : PagedBatchReservation κ × PagedKVCacheBackend ρ κ}
    (h : Attending s r x) (hs : s.Wf) (ho : s.Outstanding r) (hw : s.Writable r)
    {call : AttentionCall κ} {input : AttentionInput κ}
    (hcall : appendAndAttend arrays x call = (.ok input, x')) {index query : ℕ}
    {change : (Handle × ℕ) × List Page} (hchange : r.changes[index]? = some change)
    (hquery : query < change.1.2) (hcount : query < call.queryCount) :
    ∃ window, windowOf arrays call = .ok window ∧ input.attended index query =
      windowed window ((s.cacheOf change.1.1).length + query)
        (ownRows s change.1.1 call.layer index change.1.2
          (call.keys.astype arrays s.dtype) (call.values.astype arrays s.dtype)) := by
  rcases appendAndAttend_cases arrays x call with ⟨e, heq⟩ | ⟨window, hwindow, hstages, heq⟩
  · rw [hcall] at heq
    cases (Prod.mk.inj heq).1
  · refine ⟨window, hwindow, ?_⟩
    have hinput := Except.ok.inj (Prod.mk.inj (hcall.symm.trans heq)).1
    have hchange' : x.1.changes[index]? = some change := by
      rw [h.staged.reservation]
      exact hchange
    have hattended := PagedKVCacheBackend.attended_stagedPools (h.staged.wf hs)
      (h.staged.outstanding ho) (h.staged.writable hw) call.layer
      (call.keys.astype arrays x.2.dtype) (call.values.astype arrays x.2.dtype) arrays.zeros window hchange' hquery hcount
    rw [hinput, hattended, h.ownRows_eq hstages.unstaged, h.staged.store]

end Calls

/-! ## A batch -/

namespace MlxGenerationExecutor

/-- A forward over the reservation of a layout shows the request at `index` its own
positions, and the last of them is the one that is sampled. -/
structure ShowsOwn (arrays : ArrayOps κ) (start : PagedKVCacheBackend ρ κ)
    (layout : BatchLayout ρ) (x : PagedBatchReservation κ × PagedKVCacheBackend ρ κ)
    (index : ℕ) (request : ExecutionRequest ρ) (cache : Handle) : Prop where
  attends : ∀ calls call input x',
    appendAndAttend arrays (Run.exec (appendAndAttend arrays) x calls) call = (.ok input, x') →
    ∀ i < request.tokenIds.length, i < call.queryCount →
    ∃ window, windowOf arrays call = .ok window ∧ input.attended index i =
      windowed window ((start.cacheOf cache).length + i)
        (ownRows start cache call.layer index request.tokenIds.length
          (call.keys.astype arrays start.dtype) (call.values.astype arrays start.dtype))
  nonempty : 0 < request.tokenIds.length
  width_le : request.tokenIds.length ≤ layout.width
  positioned : ∀ i < request.tokenIds.length,
    (layout.positions.getD index [])[i]? = some ((start.cacheOf cache).length + i)
  sampled : ∀ {L : Type} (model : MlxModel κ L) (out : L),
    (sampleLastLogits model out layout.tokenLengths)[index]? =
      some (model.argmaxAt out index (request.tokenIds.length - 1))

/-- Two forwards that agree on the new rows of a request, at `index` in one and at
`index'` in the other, show it the same keys and values. -/
def ShowsSame (arrays : ArrayOps κ) (dtype : Dtype)
    (x y : PagedBatchReservation κ × PagedKVCacheBackend ρ κ) (index index' n : ℕ) : Prop :=
  ∀ calls call input x', ∀ calls' call' input' y',
    appendAndAttend arrays (Run.exec (appendAndAttend arrays) x calls) call = (.ok input, x') →
    appendAndAttend arrays (Run.exec (appendAndAttend arrays) y calls') call' = (.ok input', y') →
    call'.layer = call.layer → windowOf arrays call' = windowOf arrays call →
    (∀ i < n, (call'.keys.astype arrays dtype).row index' i =
        (call.keys.astype arrays dtype).row index i ∧
      (call'.values.astype arrays dtype).row index' i =
        (call.values.astype arrays dtype).row index i) →
    ∀ i < n, i < call.queryCount → i < call'.queryCount →
      input'.attended index' i = input.attended index i

theorem ownRows_congr {s : PagedKVCacheBackend ρ κ} {cache : Handle} {layer index index' n : ℕ}
    {keys values keys' values' : KVTensor κ}
    (h : ∀ i < n, keys'.row index' i = keys.row index i ∧
      values'.row index' i = values.row index i) :
    ownRows s cache layer index' n keys' values' = ownRows s cache layer index n keys values := by
  rw [ownRows, ownRows]
  congr 1
  apply List.map_congr_left
  intro i hi
  obtain ⟨hkeys, hvalues⟩ := h i (List.mem_range.mp hi)
  rw [hkeys, hvalues]

theorem ShowsOwn.showsSame {arrays : ArrayOps κ} {start : PagedKVCacheBackend ρ κ}
    {layout layout' : BatchLayout ρ} {x y : PagedBatchReservation κ × PagedKVCacheBackend ρ κ}
    {index index' : ℕ} {request : ExecutionRequest ρ} {cache : Handle}
    (h : ShowsOwn arrays start layout x index request cache)
    (h' : ShowsOwn arrays start layout' y index' request cache) :
    ShowsSame arrays start.dtype x y index index' request.tokenIds.length := by
  intro calls call input x' calls' call' input' y' hcall hcall' hlayer hwindow hrows i hi hcount
    hcount'
  obtain ⟨window, hw, heq⟩ := h.attends calls call input x' hcall i hi hcount
  obtain ⟨window', hw', heq'⟩ := h'.attends calls' call' input' y' hcall' i hi hcount'
  obtain rfl : window' = window := by
    rw [hwindow, hw] at hw'
    exact (Except.ok.inj hw').symm
  rw [heq, heq', hlayer, ownRows_congr hrows]

/-- The padded rows of a layout. -/
theorem buildLayout_rows {kept : List (ValidRequest ρ)} {layout : BatchLayout ρ}
    (h : buildLayout kept = .ok layout) :
    layout.inputIds = kept.map (fun v => v.request.tokenIds ++ List.replicate
        ((kept.map ValidRequest.tokenLength).foldr max 0 - v.request.tokenIds.length) 0) ∧
      layout.positions = kept.map fun v => v.request.positions ++ List.replicate
        ((kept.map ValidRequest.tokenLength).foldr max 0 - v.request.tokenIds.length)
        (v.request.positions.getLastD 0) := by
  simp only [buildLayout] at h
  split at h
  · cases h
  · obtain rfl := Except.ok.inj h
    exact ⟨rfl, rfl⟩

variable [DecidableEq ρ] {start : PagedKVCacheBackend ρ κ} {batch : ExecutionBatch ρ}
  {prepared : PreparedStep ρ} {kept : List (ValidRequest ρ)} {layout : BatchLayout ρ}

/-- Every kept request fits the width of the layout. -/
theorem Prepares.width_le (hp : Prepares start batch prepared kept)
    (hbuilt : buildLayout kept = .ok layout) {v : ValidRequest ρ} (hv : v ∈ kept) :
    v.request.tokenIds.length ≤ layout.width := by
  obtain ⟨hinput, -⟩ := buildLayout_rows hbuilt
  have hmax : v.request.tokenIds.length ≤ (kept.map ValidRequest.tokenLength).foldr max 0 := by
    have hmem : v.request.tokenIds.length ∈ kept.map ValidRequest.tokenLength :=
      List.mem_map.mpr ⟨v, hv, (hp.kept_valid v hv).2.2.1⟩
    exact le_foldr_max hmem
  obtain ⟨w, rest, hkept⟩ := List.exists_cons_of_ne_nil (List.ne_nil_of_mem hv)
  rw [BatchLayout.width, hinput]
  generalize (kept.map ValidRequest.tokenLength).foldr max 0 = most at hmax ⊢
  rw [hkept, List.map_cons, List.map_cons, List.headD_cons, List.length_append,
    List.length_replicate]
  omega

/-- **What the forward over a prepared batch shows** to the request at `index`. -/
theorem showsOwn_of_prepares (arrays : ArrayOps κ) (hs : start.Wf)
    (hp : Prepares start batch prepared kept) (hlayout : prepared.layout = some layout)
    {r : PagedBatchReservation κ} {s : PagedKVCacheBackend ρ κ}
    (hreserve : start.reserveBatch layout.requestCaches layout.tokenLengths = (.ok r, s))
    {index : ℕ} {v : ValidRequest ρ} (hv : kept[index]? = some v) :
    ShowsOwn arrays start layout (r, s) index v.request v.cache := by
  have hmem : v ∈ kept := List.mem_of_getElem? hv
  obtain ⟨hne, hbuilt⟩ : kept ≠ [] ∧ buildLayout kept = .ok layout := by
    rcases hp.layout with ⟨-, hnone⟩ | ⟨hne, layout', hsome, hbuilt⟩
    · rw [hlayout] at hnone
      cases hnone
    · obtain rfl := Option.some.inj (hlayout.symm.trans hsome)
      exact ⟨hne, hbuilt⟩
  obtain ⟨-, -, hcaches, hlengths⟩ := buildLayout_eq hbuilt
  obtain ⟨-, hpositions⟩ := buildLayout_rows hbuilt
  have hlive : ∀ h ∈ kept.map ValidRequest.cache, h ∈ start.caches := by
    intro h hh
    obtain ⟨w, hw, rfl⟩ := List.mem_map.mp hh
    exact (hp.accepts hw).live
  obtain ⟨r', changes, hr, heq⟩ := hp.exists_reserves hne
  rw [← hcaches, ← hlengths, hreserve] at heq
  obtain ⟨hr', rfl⟩ := Prod.mk.inj heq
  obtain rfl := Except.ok.inj hr'
  have hwf := PagedKVCacheBackend.wf_reservedFor hs hr
  have ho := PagedKVCacheBackend.outstanding_reservedFor hs hr fun h hh => hs.fresh h (hlive h hh)
  have hw := PagedKVCacheBackend.writable_reservedFor hr hs hlive
  -- The change of the reservation at the place of the request.
  have hrequests : r.requestCaches = kept.map ValidRequest.cache := by
    rw [hr.eq_new]
    rfl
  have happends : r.appendLengths = kept.map ValidRequest.tokenLength := by
    rw [hr.eq_new]
    rfl
  obtain ⟨table, hchange⟩ : ∃ table,
      r.changes[index]? = some ((v.cache, v.request.tokenIds.length), table) := by
    have htables : index < r.candidateTables.length := by
      rw [hr.tables_length, List.length_map]
      exact (List.getElem?_eq_some_iff.mp hv).1
    refine ⟨r.candidateTables[index], ?_⟩
    rw [PagedBatchReservation.changes, List.getElem?_zip_eq_some, List.getElem?_zip_eq_some,
      hrequests, happends, List.getElem?_map, List.getElem?_map, hv,
      ← (hp.kept_valid v hmem).2.2.1]
    exact ⟨⟨rfl, rfl⟩, List.getElem?_eq_getElem htables⟩
  have haccepts := hp.accepts hmem
  refine ⟨?_, haccepts.tokens_pos, hp.width_le hbuilt hmem, ?_, ?_⟩
  · intro calls call input x' hcall i hi hcount
    have hforward : Attending (start.reservedFor r) r
        (Run.exec (appendAndAttend arrays) (r, start.reservedFor r) calls) :=
      Attending.refl.exec calls
    obtain ⟨window, hwindow, hattended⟩ := hforward.attended hwf ho hw hcall hchange hi hcount
    rw [ownRows_reservedFor] at hattended
    exact ⟨window, hwindow, hattended⟩
  · intro i hi
    rw [hpositions, List.getD_eq_getElem?_getD, List.getElem?_map, hv, Option.map_some,
      Option.getD_some, haccepts.positions_eq, List.getElem?_append_left (by simpa using hi),
      List.getElem?_map, List.getElem?_range hi]
    rfl
  · intro L model out
    rw [sampleLastLogits, hlengths, List.getElem?_map, List.getElem?_zipIdx, List.getElem?_map, hv]
    simp [(hp.kept_valid v hmem).2.2.1]

/-! ## A batch and its requests alone -/

/-- `prepare_batch` of one request that would fit keeps it. -/
theorem prepareBatch_single {request : ExecutionRequest ρ} {cache : Handle}
    (h : Accepts start request cache)
    (hcost : start.preflightCost (start.cacheOf cache) request.tokenIds.length ≤
      start.availablePages.length) :
    ∃ layout, buildLayout [⟨request, 0, cache, request.tokenIds.length,
        (start.cacheOf cache).size⟩] = .ok layout ∧
      prepareBatch start ⟨[request]⟩ {} = (.ok ⟨⟨[request]⟩, some layout, [none]⟩, start) := by
  have hcheck := preflightCache_eq_ok.mpr h
  obtain ⟨layout, hlayout⟩ := exists_buildLayout (List.cons_ne_nil
    (⟨request, 0, cache, request.tokenIds.length, (start.cacheOf cache).size⟩ : ValidRequest ρ) [])
  refine ⟨layout, hlayout, ?_⟩
  simp [prepareBatch, checkRequests, hcheck, PagedKVCacheBackend.preflight,
    PagedKVCacheBackend.preflightFrom, Nat.not_lt.mpr hcost, keepFitting, hlayout]

/-- What a kept request would be charged alone is there. -/
theorem Prepares.cost_le (hp : Prepares start batch prepared kept) {v : ValidRequest ρ}
    (hv : v ∈ kept) : start.preflightCost (start.cacheOf v.cache) v.request.tokenIds.length ≤
      start.availablePages.length := by
  have hfits := (start.candidateTables_isSome _ _).mp (Option.isSome_iff_exists.mpr hp.fits)
  refine Nat.le_trans ?_ hfits
  rw [← (hp.kept_valid v hv).2.2.1, PagedKVCacheBackend.batchCost, List.map_map]
  exact List.single_le_sum (fun _ _ => Nat.zero_le _) _ (List.mem_map_of_mem hv)

omit [DecidableEq ρ] in
theorem ShowsOwn.of_allocationFailed {arrays : ArrayOps κ} {n : ℕ}
    {x : PagedBatchReservation κ × PagedKVCacheBackend ρ κ} {index : ℕ}
    {request : ExecutionRequest ρ} {cache : Handle}
    (h : ShowsOwn arrays (start.allocationFailed n) layout x index request cache) :
    ShowsOwn arrays start layout x index request cache := by
  refine { h with attends := fun calls call input x' hcall i hi hcount => ?_ }
  obtain ⟨window, hwindow, hattended⟩ := h.attends calls call input x' hcall i hi hcount
  rw [ownRows_allocationFailed] at hattended
  exact ⟨window, hwindow, hattended⟩

/-- A cache of three rows and an empty one. -/
def threeAndNone : List (KVOp ℕ ℕ) := KVStore.appendThree ++ [.commit none, .create 1]

/-- A decode of the first beside a prefill of the second. -/
def mixedBatch : ExecutionBatch ℕ :=
  ⟨[⟨0, .decode, [7], [3], some 0⟩, ⟨1, .prefill, [5, 6], [0, 1], some 1⟩]⟩

/-- Rows are numbers of any type. -/
def plainArrays : ArrayOps ℕ := ⟨fun _ => .error (.valueError ""), fun _ row => row, 0⟩

end MlxGenerationExecutor

end MlxRuntime
