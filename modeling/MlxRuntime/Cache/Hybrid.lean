import MlxRuntime.Lib.Windows
import MlxRuntime.Cache.Bounds

/-!
# The hybrid store

An LFM2 graph mixes attention layers, whose K/V rows live in the paged store, with
short convolutions.  A convolution of kernel size `k` needs the last `k - 1` gated
inputs of its request, so `HybridPagedKVCacheBackend` keeps them beside the block
table, one state a layer; a reservation stages the states of the batch and `commit`
installs them together with the tables.

`convStates` is the field `conv_states` of the hybrid cache objects, on the heap
that `cacheOf` models.  An array of shape `(batch, positions, hidden)` is the list of
its batch rows, each a list of hidden vectors.

## Main definitions

* `HybridPagedKVCacheBackend`, `HybridBatchReservation` — the state.
* `prepareConvState`, `stageConvState`, `commitHybridReservation` — the convolution state.
* `Lfm2ShortConv.call` — the layer that uses it.
-/

namespace MlxRuntime

/-- A paged reservation with the convolution states its layers have staged: for a
layer, one state for each request of the batch. -/
structure HybridBatchReservation (κ χ : Type) extends PagedBatchReservation κ where
  stagedStates : ℕ → Option (List (List χ))

/-- The paged store with the convolution states of each request, by layer. -/
structure HybridPagedKVCacheBackend (ρ κ χ : Type) extends PagedKVCacheBackend ρ κ where
  convStates : Handle → ℕ → Option (List χ)

variable {ρ κ χ : Type}

/-! ## Arrays -/

/-- What MLX raises for shapes that do not go together; its text is not modelled. -/
def shapeError : PyError := .external "shapes do not match"

/-- `mx.stack`: the arrays must have one shape. -/
def stack (arrays : List (List χ)) : Except PyError (List (List χ)) :=
  if ∀ a ∈ arrays, ∀ b ∈ arrays, a.length = b.length then .ok arrays else .error shapeError

/-- The batch rows of an array next to a batch of `n`: a single row is repeated. -/
def broadcastRows (n : ℕ) (rows : List (List χ)) : Except PyError (List (List χ)) :=
  if rows.length = n then .ok rows
  else if rows.length = 1 then .ok (rows.flatMap (List.replicate n))
  else .error shapeError

/-- `mx.where(valid, values, 0)` on the row of a request that appends `append` positions. -/
def maskRow [Zero χ] (append : ℕ) (row : List χ) : List χ :=
  row.mapIdx fun position value => if position < append then value else 0

namespace HybridPagedKVCacheBackend

/-! ## The store's methods -/

/-- `__post_init__`, the paged store's own. -/
def postInit (config : PagedKVConfig) (zero : κ) (noRequest : ρ) :
    Except PyError (HybridPagedKVCacheBackend ρ κ χ) :=
  (PagedKVCacheBackend.postInit config zero noRequest).map fun s => ⟨s, fun _ _ => none⟩

/-- `create`: a hybrid cache without convolution states. -/
def create (s : HybridPagedKVCacheBackend ρ κ χ) (requestId : ρ) :
    Handle × HybridPagedKVCacheBackend ρ κ χ :=
  let (handle, paged) := s.toPagedKVCacheBackend.create requestId
  (handle, ⟨paged, Function.update s.convStates handle fun _ => none⟩)

/-- `fork`: the new cache starts with the states of its source. -/
def fork (s : HybridPagedKVCacheBackend ρ κ χ) (handle : Handle) (requestId : ρ)
    (length : Option ℤ) : Except PyError Handle × HybridPagedKVCacheBackend ρ κ χ :=
  match s.toPagedKVCacheBackend.fork handle requestId length with
  | (.error e, paged) => (.error e, ⟨paged, s.convStates⟩)
  | (.ok newHandle, paged) =>
      (.ok newHandle, ⟨paged, Function.update s.convStates newHandle (s.convStates handle)⟩)

/-- `release`, the paged store's own. -/
def release (s : HybridPagedKVCacheBackend ρ κ χ) (handle : Option Handle) :
    Except PyError Unit × HybridPagedKVCacheBackend ρ κ χ :=
  let (result, paged) := s.toPagedKVCacheBackend.release handle
  (result, ⟨paged, s.convStates⟩)

/-- `reserve_batch` with `_build_reservation` of the hybrid store. -/
def reserveBatch (s : HybridPagedKVCacheBackend ρ κ χ) (caches : List Handle)
    (appendLengths : List ℕ) :
    Except PyError (HybridBatchReservation κ χ) × HybridPagedKVCacheBackend ρ κ χ :=
  match s.toPagedKVCacheBackend.reserveBatch caches appendLengths with
  | (.error e, paged) => (.error e, ⟨paged, s.convStates⟩)
  | (.ok r, paged) => (.ok ⟨r, fun _ => none⟩, ⟨paged, s.convStates⟩)

/-! ## The reservation's methods -/

/-- `stage_layer`: refused where a state is staged. -/
def stageLayer (s : HybridPagedKVCacheBackend ρ κ χ) (r : HybridBatchReservation κ χ)
    (layer : ℕ) (keys values : KVTensor κ) :
    Except PyError (PageArray κ × PageArray κ) × HybridBatchReservation κ χ ×
      HybridPagedKVCacheBackend ρ κ χ :=
  if s.numLayers ≤ layer then (.error .indexError, r, s)
  else if (r.stagedStates layer).isSome then
    (.error (.valueError s!"layer {layer} staged both state and KV"), r, s)
  else
    let (result, r', paged) :=
      s.toPagedKVCacheBackend.stageLayer r.toPagedBatchReservation layer keys values
    (result, ⟨r', r.stagedStates⟩, ⟨paged, s.convStates⟩)

/-- `prepare_conv_state`: each request's row behind its state, with zeros past the
positions it appends. -/
def prepareConvState [Zero χ] (s : HybridPagedKVCacheBackend ρ κ χ)
    (r : HybridBatchReservation κ χ) (layer : ℕ) (values : List (List χ)) (cacheSize : ℕ) :
    Except PyError (List (List χ)) := do
  let states ← stack (r.requestCaches.map fun handle =>
    (s.convStates handle layer).getD (List.replicate (cacheSize - 1) 0))
  let values ← broadcastRows states.length values
  return states.zipWith (· ++ ·) (r.appendLengths.zipWith maskRow values)

/-- `stage_conv_state`: the `cache_size - 1` entries behind each request's last
appended position.  `combined` has a row for each request. -/
def stageConvState (s : HybridPagedKVCacheBackend ρ κ χ) (r : HybridBatchReservation κ χ)
    (layer : ℕ) (combined : List (List χ)) (cacheSize : ℕ) :
    Except PyError Unit × HybridBatchReservation κ χ :=
  if r.finished then (.error (.valueError "cache reservation already finished"), r)
  else if s.numLayers ≤ layer then (.error .indexError, r)
  else if (r.stagedKeys layer).isSome then
    (.error (.valueError s!"layer {layer} staged both state and KV"), r)
  else
    match stack (r.appendLengths.zipIdx.map fun (append, index) =>
        ((combined.getD index []).drop append).take (cacheSize - 1)) with
    | .error e => (.error e, r)
    | .ok states =>
        (.ok (), { r with stagedStates := Function.update r.stagedStates layer (some states) })

/-- `conv_states[index] = row`. -/
def installRow (layer : ℕ) (row : Handle × List χ) (convStates : ℕ → Option (List χ)) :
    ℕ → Option (List χ) :=
  Function.update convStates layer (some row.2)

/-- The loop over the requests of a staged layer. -/
def installRows (layer : ℕ) (rows : List (Handle × List χ))
    (convStates : Handle → ℕ → Option (List χ)) : Handle → ℕ → Option (List χ) :=
  rows.foldl (fun heap row => Function.update heap row.1 (installRow layer row (heap row.1)))
    convStates

/-- One layer, which may have staged no state. -/
def installLayer (stagedStates : ℕ → Option (List (List χ))) (caches : List Handle)
    (convStates : Handle → ℕ → Option (List χ)) (layer : ℕ) : Handle → ℕ → Option (List χ) :=
  match stagedStates layer with
  | none => convStates
  | some state => installRows layer (caches.zip state) convStates

/-- The loop over the layers of `_commit_hybrid_reservation`. -/
def installStates (layers : List ℕ) (stagedStates : ℕ → Option (List (List χ)))
    (caches : List Handle) (convStates : Handle → ℕ → Option (List χ)) :
    Handle → ℕ → Option (List χ) :=
  layers.foldl (installLayer stagedStates caches) convStates

/-- `_commit_hybrid_reservation`: the tables and lengths, then the states. -/
def commitHybridReservation (s : HybridPagedKVCacheBackend ρ κ χ)
    (r : HybridBatchReservation κ χ) :
    Except PyError (List ℕ) × HybridPagedKVCacheBackend ρ κ χ :=
  match s.toPagedKVCacheBackend.commitReservation r.toPagedBatchReservation with
  | (.error e, paged) => (.error e, ⟨paged, s.convStates⟩)
  | (.ok lengths, paged) =>
      (.ok lengths, ⟨paged,
        installStates (List.range s.numLayers) r.stagedStates r.requestCaches s.convStates⟩)

/-- `commit`: every layer has staged its K/V rows or its state, not both. -/
def commit (s : HybridPagedKVCacheBackend ρ κ χ) (r : HybridBatchReservation κ χ)
    (evalError : Option PyError) :
    Except PyError (List ℕ) × HybridBatchReservation κ χ × HybridPagedKVCacheBackend ρ κ χ :=
  if r.finished then (.error (.valueError "cache reservation already finished"), r, s)
  else if (List.range s.numLayers).any fun layer =>
      ((r.stagedKeys layer).isSome && (r.stagedValues layer).isSome) ==
        (r.stagedStates layer).isSome then
    (.error (.valueError "hybrid cache commit requires one operation per layer"), r, s)
  else
    match evalError with
    | some e => (.error e, r, s)
    | none =>
        match s.commitHybridReservation r with
        | (.error e, s') => (.error e, r, s')
        | (.ok lengths, s') =>
            (.ok lengths, { r with finished := true }, s')

/-- `abort`, the paged reservation's own. -/
def abort (s : HybridPagedKVCacheBackend ρ κ χ) (r : HybridBatchReservation κ χ) :
    Except PyError Unit × HybridBatchReservation κ χ × HybridPagedKVCacheBackend ρ κ χ :=
  let (result, r', paged) := s.toPagedKVCacheBackend.abort r.toPagedBatchReservation
  (result, ⟨r', r.stagedStates⟩, ⟨paged, s.convStates⟩)

end HybridPagedKVCacheBackend

/-! ## The short convolution -/

/-- A short convolution layer: its kernel size and what it computes at one position.
`inProj` answers the two gates and the value, `conv` reads one window. -/
structure Lfm2ShortConv (ι χ ω : Type) where
  cacheSize : ℕ
  inProj : ι → χ × χ × χ
  conv : List χ → χ
  outProj : χ → ω

namespace Lfm2ShortConv

variable {ι ω : Type} [Zero χ] [Mul χ]

/-- `b_gate * value`. -/
def gated (m : Lfm2ShortConv ι χ ω) (x : List (List ι)) : List (List χ) :=
  x.map fun row => row.map fun v => (m.inProj v).1 * (m.inProj v).2.2

/-- `nn.Conv1d` without padding: one output for each window that fits. -/
def convolve (m : Lfm2ShortConv ι χ ω) (row : List χ) : List χ :=
  (List.range (row.length + 1 - m.cacheSize)).map fun i => m.conv (windowAt m.cacheSize row i)

/-- `__call__` on one layer of a reservation. -/
def call (m : Lfm2ShortConv ι χ ω) (s : HybridPagedKVCacheBackend ρ κ χ)
    (r : HybridBatchReservation κ χ) (layer : ℕ) (x : List (List ι)) :
    Except PyError (List (List ω)) × HybridBatchReservation κ χ :=
  match s.prepareConvState r layer (m.gated x) m.cacheSize with
  | .error e => (.error e, r)
  | .ok combined =>
      match s.stageConvState r layer combined m.cacheSize with
      | (.error e, r') => (.error e, r')
      | (.ok (), r') =>
          (.ok (x.zipWith
            (List.zipWith fun v out => m.outProj ((m.inProj v).2.1 * out))
            (combined.map m.convolve)), r')

end Lfm2ShortConv

/-! ## Masked rows -/

theorem maskRow_eq [Zero χ] (append : ℕ) (row : List χ) :
    maskRow append row = row.take append ++ List.replicate (row.length - append) 0 := by
  refine List.ext_getElem (by simp [maskRow]; omega) fun i hi hi' => ?_
  rw [maskRow, List.length_mapIdx] at hi
  simp only [maskRow, List.getElem_mapIdx, List.getElem_append, List.getElem_take,
    List.getElem_replicate, List.length_take, lt_min_iff, hi, and_true]
  split <;> rfl

theorem stack_eq_ok {arrays : List (List χ)} {n : ℕ} (h : ∀ a ∈ arrays, a.length = n) :
    stack arrays = .ok arrays :=
  if_pos fun a ha b hb => (h a ha).trans (h b hb).symm

/-! ## Installing the states -/

namespace HybridPagedKVCacheBackend

variable {layer : ℕ} {convStates : Handle → ℕ → Option (List χ)}

theorem installRows_of_notMem {rows : List (Handle × List χ)} {h : Handle}
    (hnot : h ∉ rows.map Prod.fst) : installRows layer rows convStates h = convStates h :=
  foldl_update_of_notMem (installRow layer) _ hnot

theorem installRows_of_mem {rows : List (Handle × List χ)} (hnodup : (rows.map Prod.fst).Nodup)
    {row : Handle × List χ} (hrow : row ∈ rows) :
    installRows layer rows convStates row.1 = installRow layer row (convStates row.1) :=
  foldl_update_of_mem (installRow layer) _ hnodup hrow

/-- Only the layer's own states are written. -/
theorem installRows_of_ne {rows : List (Handle × List χ)} {layer' : ℕ} (hne : layer' ≠ layer)
    (h : Handle) : installRows layer rows convStates h layer' = convStates h layer' := by
  induction rows generalizing convStates with
  | nil => rfl
  | cons row rows ih =>
      rw [installRows, List.foldl_cons, ← installRows, ih]
      by_cases heq : h = row.1
      · rw [heq, Function.update_self, installRow, Function.update_of_ne hne]
      · rw [Function.update_of_ne heq]

variable {layers : List ℕ} {stagedStates : ℕ → Option (List (List χ))} {caches : List Handle}

theorem installLayer_of_notMem {h : Handle} (hnot : h ∉ caches) :
    installLayer stagedStates caches convStates layer h = convStates h := by
  cases hstaged : stagedStates layer with
  | none => rw [installLayer, hstaged]
  | some state =>
      rw [installLayer, hstaged]
      refine installRows_of_notMem fun hmem => hnot ?_
      obtain ⟨row, hrow, rfl⟩ := List.mem_map.mp hmem
      exact (List.of_mem_zip hrow).1

theorem installLayer_of_ne {layer' : ℕ} (hne : layer' ≠ layer) (h : Handle) :
    installLayer stagedStates caches convStates layer h layer' = convStates h layer' := by
  cases hstaged : stagedStates layer with
  | none => rw [installLayer, hstaged]
  | some state =>
      rw [installLayer, hstaged]
      exact installRows_of_ne hne h

/-- A cache outside the batch keeps its states. -/
theorem installStates_of_notMem {h : Handle} (hnot : h ∉ caches) :
    installStates layers stagedStates caches convStates h = convStates h := by
  induction layers generalizing convStates with
  | nil => rfl
  | cons layer layers ih =>
      rw [installStates, List.foldl_cons, ← installStates, ih, installLayer_of_notMem hnot]

/-- A layer the loop does not reach keeps its states. -/
theorem installStates_of_notMem_layers (hnot : layer ∉ layers) (h : Handle) :
    installStates layers stagedStates caches convStates h layer = convStates h layer := by
  induction layers generalizing convStates with
  | nil => rfl
  | cons first layers ih =>
      simp only [List.mem_cons, not_or] at hnot
      rw [installStates, List.foldl_cons, ← installStates, ih hnot.2, installLayer_of_ne hnot.1]

/-- A request of the batch has the state its layer staged for it. -/
theorem installStates_of_mem (hcaches : caches.Nodup) (hlayers : layers.Nodup)
    (hlayer : layer ∈ layers) {state : List (List χ)} (hstate : stagedStates layer = some state)
    (hlength : state.length = caches.length) {i : ℕ} {h : Handle} {row : List χ}
    (hi : caches[i]? = some h) (hrow : state[i]? = some row) :
    installStates layers stagedStates caches convStates h layer = some row := by
  induction layers generalizing convStates with
  | nil => cases hlayer
  | cons first layers ih =>
      rw [List.nodup_cons] at hlayers
      rw [installStates, List.foldl_cons, ← installStates]
      rcases List.mem_cons.mp hlayer with rfl | hmem
      · have hzip : (h, row) ∈ caches.zip state :=
          List.mem_of_getElem? (List.getElem?_zip_eq_some.mpr ⟨hi, hrow⟩)
        have hnodup : ((caches.zip state).map Prod.fst).Nodup := by
          rw [List.map_fst_zip hlength.ge]
          exact hcaches
        rw [installStates_of_notMem_layers hlayers.1, installLayer, hstate]
        dsimp only
        rw [installRows_of_mem hnodup hzip, installRow, Function.update_self]
      · exact ih hlayers.2 hmem

end HybridPagedKVCacheBackend
end MlxRuntime
