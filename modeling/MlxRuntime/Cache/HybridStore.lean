import MlxRuntime.Lib.Run
import MlxRuntime.Cache.Hybrid

/-!
# Runs of the hybrid store

A `HybridStore` is the backend together with every reservation made on it; any number of
them may be open, as long as no two name one cache.  `ConvHistory` says what its
convolution layers were given: for each cache and layer the gated inputs of the
committed positions, and for each reservation what its layers have staged.

## Main definitions

* `HybridStore`, `HybridOp`, `HybridStore.step` — the transition system.
* `ConvHistory`, `ConvHistory.step` — the inputs that were committed.
* `HybridStore.Exclusive` — the guard of the runs.
* `HybridStore.Follows` — what a store and its history have to do with each other.
* `prepareConvState_eq`, `call_cases`, `commit_cases` — what the three calls do.
-/

namespace MlxRuntime

variable {ρ κ χ ι ω : Type}

/-- The hybrid store and every reservation made on it, in order. -/
structure HybridStore (ρ κ χ : Type) where
  backend : HybridPagedKVCacheBackend ρ κ χ
  reservations : List (HybridBatchReservation κ χ)

/-- A call on the store or, by its number, on one of its reservations.  `shortConv` is a
convolution layer of the graph, which prepares its state and stages the next one;
`evalError` is the text of what `mx.eval` raises inside `commit`, if it does. -/
inductive HybridOp (ρ κ χ ι : Type)
  | create (requestId : ρ)
  | fork (handle : Handle) (requestId : ρ) (length : Option ℤ)
  | release (handle : Option Handle)
  | reserveBatch (caches : List Handle) (appendLengths : List ℕ)
  | prepareConvState (reservation layer : ℕ) (values : List (List χ)) (cacheSize : ℕ)
  | shortConv (reservation layer : ℕ) (x : List (List ι))
  | stageLayer (reservation layer : ℕ) (keys values : KVTensor κ)
  | commit (reservation : ℕ) (evalError : Option String)
  | abort (reservation : ℕ)

/-- What a call answers. -/
inductive HybridReply (κ χ ω : Type)
  | notIssued
  | raised (error : PyError)
  | done
  | handle (handle : Handle)
  | combined (rows : List (List χ))
  | output (rows : List (List ω))
  | staged (keys values : PageArray κ)
  | lengths (lengths : List ℕ)

/-- The reply to a method's result. -/
def HybridReply.ofResult {α : Type} (ok : α → HybridReply κ χ ω) :
    Except PyError α → HybridReply κ χ ω
  | .error e => .raised e
  | .ok a => ok a

namespace HybridStore

/-- A store just built, with no reservation made on it. -/
def ofConfig (config : PagedKVConfig) (zero : κ) (noRequest : ρ) :
    Except PyError (HybridStore ρ κ χ) :=
  (HybridPagedKVCacheBackend.postInit config zero noRequest).map fun s => ⟨s, []⟩

/-- A call on the reservation of number `i`, which leaves it and the store changed. -/
def onReservation (w : HybridStore ρ κ χ) (i : ℕ)
    (call : HybridBatchReservation κ χ →
      HybridReply κ χ ω × HybridBatchReservation κ χ × HybridPagedKVCacheBackend ρ κ χ) :
    HybridReply κ χ ω × HybridStore ρ κ χ :=
  match w.reservations[i]? with
  | none => (.notIssued, w)
  | some r =>
      let (reply, r', s) := call r
      (reply, ⟨s, w.reservations.set i r'⟩)

/-- One call.  `model` has a short convolution in some layers of the graph and attention
in the others, so K/V rows are staged in the others only. -/
def step [Zero χ] [Mul χ] (model : ℕ → Option (Lfm2ShortConv ι χ ω)) (w : HybridStore ρ κ χ) :
    HybridOp ρ κ χ ι → HybridReply κ χ ω × HybridStore ρ κ χ
  | .create requestId =>
      let (handle, s) := w.backend.create requestId
      (.handle handle, { w with backend := s })
  | .fork handle requestId length =>
      let (result, s) := w.backend.fork handle requestId length
      (.ofResult .handle result, { w with backend := s })
  | .release handle =>
      let (result, s) := w.backend.release handle
      (.ofResult (fun _ => .done) result, { w with backend := s })
  | .reserveBatch caches appendLengths =>
      match w.backend.reserveBatch caches appendLengths with
      | (.error e, s) => (.raised e, { w with backend := s })
      | (.ok r, s) => (.done, ⟨s, w.reservations ++ [r]⟩)
  | .prepareConvState i layer values cacheSize =>
      w.onReservation i fun r =>
        (.ofResult .combined (w.backend.prepareConvState r layer values cacheSize), r, w.backend)
  | .shortConv i layer x =>
      match model layer with
      | none => (.notIssued, w)
      | some m =>
          w.onReservation i fun r =>
            let (result, r') := m.call w.backend r layer x
            (.ofResult .output result, r', w.backend)
  | .stageLayer i layer keys values =>
      match model layer with
      | some _ => (.notIssued, w)
      | none =>
          w.onReservation i fun r =>
            let (result, r', s) := w.backend.stageLayer r layer keys values
            (.ofResult (fun x => .staged x.1 x.2) result, r', s)
  | .commit i evalError =>
      w.onReservation i fun r =>
        let (result, r', s) := w.backend.commit r (evalError.map .external)
        (.ofResult .lengths result, r', s)
  | .abort i =>
      w.onReservation i fun r =>
        let (result, r', s) := w.backend.abort r
        (.ofResult (fun _ => .done) result, r', s)

/-- An array fits a reservation: a row for each request, none shorter than what the
request appends. -/
def Fits {α : Type} (r : HybridBatchReservation κ χ) (rows : List (List α)) : Prop :=
  rows.length = r.requestCaches.length ∧ ∀ x ∈ r.appendLengths.zip rows, x.1 ≤ x.2.length

instance {α : Type} (r : HybridBatchReservation κ χ) : DecidablePred (Fits (α := α) r) :=
  fun rows => inferInstanceAs (Decidable (rows.length = _ ∧ ∀ x ∈ _, _))

theorem fits_gated [Mul χ] {m : Lfm2ShortConv ι χ ω} {r : HybridBatchReservation κ χ}
    {x : List (List ι)} (h : Fits r x) : Fits r (m.gated x) := by
  refine ⟨by rw [Lfm2ShortConv.gated, List.length_map, h.1], fun y hy => ?_⟩
  rw [Lfm2ShortConv.gated, List.zip_map_right] at hy
  obtain ⟨z, hz, rfl⟩ := List.mem_map.mp hy
  simpa using h.2 z hz

theorem Fits.append_le {α : Type} {r : HybridBatchReservation κ χ} {rows : List (List α)}
    (h : Fits r rows) {i append : ℕ} {row : List α} (happend : r.appendLengths[i]? = some append)
    (hrow : rows[i]? = some row) : append ≤ row.length :=
  h.2 (append, row) (List.mem_of_getElem? (List.getElem?_zip_eq_some.mpr ⟨happend, hrow⟩))

/-- The guard: a batch names created caches that no open reservation names, a fork takes
the whole of its source, and a convolution layer is fed a row for each request, padded
to any width. -/
def Exclusive (w : HybridStore ρ κ χ) : HybridOp ρ κ χ ι → Prop
  | .reserveBatch caches _ => ∀ h ∈ caches, h < w.backend.nextHandle ∧
      ∀ r ∈ w.reservations, r.finished = false → h ∉ r.requestCaches
  | .fork handle _ length => ∀ n ∈ length, n = (w.backend.cacheOf handle).size
  | .shortConv i _ x => ∀ r ∈ w.reservations[i]?, Fits r x
  | _ => True

instance (w : HybridStore ρ κ χ) : DecidablePred (w.Exclusive (ι := ι))
  | .reserveBatch caches _ => inferInstanceAs (Decidable (∀ h ∈ caches, _ ∧ ∀ r ∈ _, _))
  | .fork _ _ length => inferInstanceAs (Decidable (∀ n ∈ length, _))
  | .shortConv i _ _ => inferInstanceAs (Decidable (∀ r ∈ w.reservations[i]?, _))
  | .create _ | .release _ | .prepareConvState _ _ _ _ | .stageLayer _ _ _ _ | .commit _ _
  | .abort _ => inferInstanceAs (Decidable True)

end HybridStore

/-! ## What was committed -/

/-- An append in progress: who appends how many positions, and the gated inputs its
convolution layers were given so far. -/
structure PendingInputs (χ : Type) where
  requests : List (Handle × ℕ)
  staged : ℕ → Option (List (List χ))

/-- The gated inputs of the committed positions of each cache, by layer, and the appends
of the reservations. -/
structure ConvHistory (χ : Type) where
  inputs : Handle → ℕ → List χ
  pending : List (PendingInputs χ)

namespace ConvHistory

/-- Nothing committed and nothing pending. -/
def empty : ConvHistory χ := ⟨fun _ _ => [], []⟩

end ConvHistory

namespace PendingInputs

/-- The append with a layer staged. -/
def stage (b : PendingInputs χ) (layer : ℕ) (rows : Option (List (List χ))) :
    PendingInputs χ :=
  { b with staged := Function.update b.staged layer rows }

/-- The inputs of a request after the append, `x` being the request with its place in
the batch. -/
def extended (b : PendingInputs χ) (x : (Handle × ℕ) × ℕ) (inputs : ℕ → List χ) : ℕ → List χ :=
  fun layer =>
    match b.staged layer with
    | none => inputs layer
    | some rows => inputs layer ++ (rows.getD x.2 []).take x.1.2

/-- The inputs of every cache after the append. -/
def appendTo (b : PendingInputs χ) (inputs : Handle → ℕ → List χ) : Handle → ℕ → List χ :=
  b.requests.zipIdx.foldl
    (fun inputs x => Function.update inputs x.1.1 (b.extended x (inputs x.1.1))) inputs

variable {b : PendingInputs χ} {inputs : Handle → ℕ → List χ}

theorem appendTo_of_notMem {h : Handle} (hnot : h ∉ b.requests.map Prod.fst) :
    b.appendTo inputs h = inputs h := by
  refine foldl_update_of_notMem b.extended inputs fun hmem => hnot ?_
  obtain ⟨x, hx, rfl⟩ := List.mem_map.mp hmem
  exact List.mem_map_of_mem (List.fst_mem_of_mem_zipIdx hx)

theorem appendTo_of_mem (hnodup : (b.requests.map Prod.fst).Nodup) {i : ℕ} {x : Handle × ℕ}
    (hi : b.requests[i]? = some x) : b.appendTo inputs x.1 = b.extended (x, i) (inputs x.1) := by
  have hkeys : (b.requests.zipIdx.map fun y => y.1.1) = b.requests.map Prod.fst :=
    calc (b.requests.zipIdx.map fun y => y.1.1)
        = (b.requests.zipIdx.map Prod.fst).map Prod.fst := by rw [List.map_map]; rfl
      _ = b.requests.map Prod.fst := by rw [List.zipIdx_map_fst]
  exact foldl_update_of_mem b.extended inputs (hkeys ▸ hnodup)
    (List.mk_mem_zipIdx_iff_getElem?.mpr hi)

end PendingInputs

/-- What a call does to the history, given how it was answered: a commit appends the
inputs of the positions its requests append, and every other call but the creation of a
cache leaves the inputs alone. -/
def ConvHistory.step [Mul χ] (model : ℕ → Option (Lfm2ShortConv ι χ ω)) (t : ConvHistory χ) :
    HybridOp ρ κ χ ι → HybridReply κ χ ω → ConvHistory χ
  | .create _, .handle h => { t with inputs := Function.update t.inputs h fun _ => [] }
  | .fork source _ _, .handle h =>
      { t with inputs := Function.update t.inputs h (t.inputs source) }
  | .reserveBatch caches appendLengths, .done =>
      { t with pending := t.pending ++ [⟨caches.zip appendLengths, fun _ => none⟩] }
  | .shortConv i layer x, .output _ =>
      { t with pending := t.pending.modify i (·.stage layer ((model layer).map (·.gated x))) }
  | .commit i _, .lengths _ =>
      match t.pending[i]? with
      | none => t
      | some b => { t with inputs := b.appendTo t.inputs }
  | _, _ => t

/-! ## The simulation relation -/

namespace HybridStore

variable [Zero χ]

/-- How many open reservations pin a page. -/
def openPins (reservations : List (HybridBatchReservation κ χ)) (p : Page) : ℕ :=
  reservations.countP fun r => !r.finished && decide (p ∈ r.pinnedPages)

/-- Each created cache has, for each convolution layer, as many inputs as committed
positions, and a state that is the last of them once there are any. -/
structure Tracks (model : ℕ → Option (Lfm2ShortConv ι χ ω))
    (s : HybridPagedKVCacheBackend ρ κ χ) (inputs : Handle → ℕ → List χ) (h : Handle) : Prop where
  length_eq : ∀ layer < s.numLayers, ∀ m, model layer = some m →
    (inputs h layer).length = (s.cacheOf h).length
  state_eq : ∀ layer < s.numLayers, ∀ m, model layer = some m →
    s.convStates h layer = if (s.cacheOf h).length = 0 then none
      else some (lastPadded (m.cacheSize - 1) 0 (inputs h layer))

/-- What a convolution layer has staged: nothing, or for each request of the batch the
last inputs it will have. -/
inductive StagedLayer (m : Lfm2ShortConv ι χ ω) (inputs : Handle → ℕ → List χ)
    (r : HybridBatchReservation κ χ) (layer : ℕ) :
    Option (List (List χ)) → Option (List (List χ)) → Prop
  | nothing : StagedLayer m inputs r layer none none
  | states {rows states : List (List χ)} (hfits : Fits r rows)
      (hlength : states.length = r.requestCaches.length)
      (heq : ∀ (i : ℕ) h append row, r.requestCaches[i]? = some h →
        r.appendLengths[i]? = some append → rows[i]? = some row →
        states[i]? = some (lastPadded (m.cacheSize - 1) 0 (inputs h layer ++ row.take append))) :
      StagedLayer m inputs r layer (some rows) (some states)

/-- An open reservation and the append it makes. -/
structure Gathers (model : ℕ → Option (Lfm2ShortConv ι χ ω)) (next : Handle)
    (inputs : Handle → ℕ → List χ) (r : HybridBatchReservation κ χ) (b : PendingInputs χ) :
    Prop where
  requests : b.requests = r.requestCaches.zip r.appendLengths
  shaped : r.toPagedBatchReservation.Shaped
  appends_pos : 0 ∉ r.appendLengths
  created : ∀ h ∈ r.requestCaches, h < next
  pinned_nodup : r.pinnedPages.Nodup
  keys : ∀ layer m, model layer = some m → r.stagedKeys layer = none
  layers : ∀ layer m, model layer = some m →
    StagedLayer m inputs r layer (b.staged layer) (r.stagedStates layer)

/-- **The simulation relation.** Every created cache has the states of its history, and
every open reservation has staged what is pending. -/
structure Follows (model : ℕ → Option (Lfm2ShortConv ι χ ω)) (w : HybridStore ρ κ χ)
    (t : ConvHistory χ) : Prop where
  fresh : ∀ h ∈ w.backend.caches, h < w.backend.nextHandle
  pins : ∀ p, w.backend.pinCounts p = (openPins w.reservations p : ℤ)
  tracks : ∀ h < w.backend.nextHandle, Tracks model w.backend t.inputs h
  pending_length : t.pending.length = w.reservations.length
  gathers : ∀ (i : ℕ) r b, w.reservations[i]? = some r → t.pending[i]? = some b →
    r.finished = false → Gathers model w.backend.nextHandle t.inputs r b
  apart : ∀ (i j : ℕ) r r', w.reservations[i]? = some r → w.reservations[j]? = some r' →
    i ≠ j → r.finished = false → r'.finished = false →
    ∀ h ∈ r.requestCaches, h ∉ r'.requestCaches

variable {model : ℕ → Option (Lfm2ShortConv ι χ ω)} {w : HybridStore ρ κ χ}
  {s s' : HybridPagedKVCacheBackend ρ κ χ} {t : ConvHistory χ}
  {inputs inputs' : Handle → ℕ → List χ}
  {r r' : HybridBatchReservation κ χ} {b : PendingInputs χ} {m : Lfm2ShortConv ι χ ω} {layer : ℕ}

/-! ## Preparing and staging -/

/-- What `prepare_conv_state` finds: the last inputs, and zeros before any. -/
theorem Tracks.state_getD {h : Handle} (ht : Tracks model s inputs h) (hlayer : layer < s.numLayers)
    (hm : model layer = some m) :
    (s.convStates h layer).getD (List.replicate (m.cacheSize - 1) 0) =
      lastPadded (m.cacheSize - 1) 0 (inputs h layer) := by
  rw [ht.state_eq layer hlayer m hm]
  split
  case isTrue hzero =>
    have hnil : inputs h layer = [] :=
      List.eq_nil_of_length_eq_zero ((ht.length_eq layer hlayer m hm).trans hzero)
    rw [hnil, lastPadded_nil, Option.getD_none]
  case isFalse => rw [Option.getD_some]

/-- **The combined rows**: each request's inputs behind its last ones, then zeros. -/
theorem prepareConvState_eq (ht : ∀ h ∈ r.requestCaches, Tracks model s inputs h)
    (hlayer : layer < s.numLayers) (hm : model layer = some m) {values : List (List χ)}
    (hfits : Fits r values) :
    ∃ combined, s.prepareConvState r layer values m.cacheSize = .ok combined ∧
      ∀ (i : ℕ) h append row, r.requestCaches[i]? = some h → r.appendLengths[i]? = some append →
        values[i]? = some row → combined[i]? =
          some (lastPadded (m.cacheSize - 1) 0 (inputs h layer) ++
            (row.take append ++ List.replicate (row.length - append) 0)) := by
  let states := r.requestCaches.map fun h => lastPadded (m.cacheSize - 1) 0 (inputs h layer)
  have hstates : (r.requestCaches.map fun h =>
      (s.convStates h layer).getD (List.replicate (m.cacheSize - 1) 0)) = states :=
    List.map_congr_left fun h hh => (ht h hh).state_getD hlayer hm
  have hstack : stack states = .ok states := stack_eq_ok (n := m.cacheSize - 1) (by simp [states])
  have hbroadcast : broadcastRows states.length values = .ok values :=
    if_pos (by rw [List.length_map, hfits.1])
  refine ⟨states.zipWith (· ++ ·) (r.appendLengths.zipWith maskRow values), ?_,
    fun i h append row hi happend hrow => ?_⟩
  · rw [HybridPagedKVCacheBackend.prepareConvState, hstates, hstack]
    change (broadcastRows states.length values >>= _) = _
    rw [hbroadcast]
    rfl
  · rw [List.getElem?_zipWith, List.getElem?_map, hi, List.getElem?_zipWith, happend, hrow]
    simp [maskRow_eq]

/-- The slice that a request stages: the last inputs it will have. -/
theorem slice_combined (n : ℕ) {past row : List χ} {append : ℕ} (hle : append ≤ row.length) :
    ((lastPadded n 0 past ++ (row.take append ++
      List.replicate (row.length - append) 0)).drop append).take n =
      lastPadded n 0 (past ++ row.take append) := by
  have hlen : (row.take append).length = append := List.length_take_of_le hle
  rw [← List.append_assoc, List.drop_append_of_le_length (by simp; omega), lastPadded_append, hlen,
    List.take_append_of_le_length (by simp; omega), List.take_of_length_le (by simp)]

/-- **A convolution layer** raises and stages nothing, or stages the slices of the rows
it prepared. -/
theorem call_cases [Mul χ] (m : Lfm2ShortConv ι χ ω) (s : HybridPagedKVCacheBackend ρ κ χ)
    (r : HybridBatchReservation κ χ) (layer : ℕ) (x : List (List ι)) :
    (∃ e, m.call s r layer x = (.error e, r)) ∨
    ∃ output combined, s.prepareConvState r layer (m.gated x) m.cacheSize = .ok combined ∧
      r.finished = false ∧ layer < s.numLayers ∧
      m.call s r layer x = (.ok output, { r with
        stagedStates := Function.update r.stagedStates layer (some
          (r.appendLengths.zipIdx.map fun (append, index) =>
            ((combined.getD index []).drop append).take (m.cacheSize - 1))) }) := by
  rw [Lfm2ShortConv.call]
  cases hprep : s.prepareConvState r layer (m.gated x) m.cacheSize with
  | error e => exact .inl ⟨e, rfl⟩
  | ok combined =>
      dsimp only
      rw [HybridPagedKVCacheBackend.stageConvState]
      split_ifs with hfin hlayer hkeys
      · exact .inl ⟨_, rfl⟩
      · exact .inl ⟨_, rfl⟩
      · exact .inl ⟨_, rfl⟩
      · rw [stack]
        split_ifs
        · exact .inr ⟨_, combined, rfl, by simpa using hfin, not_le.mp hlayer, rfl⟩
        · exact .inl ⟨_, rfl⟩

/-- What a convolution layer stages. -/
theorem stagedLayer_slices (ht : ∀ h ∈ r.requestCaches, Tracks model s inputs h)
    (hshaped : r.toPagedBatchReservation.Shaped) (hlayer : layer < s.numLayers)
    (hm : model layer = some m) {rows combined : List (List χ)} (hfits : Fits r rows)
    (hprep : s.prepareConvState r layer rows m.cacheSize = .ok combined) :
    StagedLayer m inputs r layer (some rows) (some
      (r.appendLengths.zipIdx.map fun (append, index) =>
        ((combined.getD index []).drop append).take (m.cacheSize - 1))) := by
  refine .states hfits (by simp [hshaped.appends_length]) fun i h append row hi happend hrow => ?_
  obtain ⟨combined', hprep', hcombined⟩ := prepareConvState_eq ht hlayer hm hfits
  obtain rfl : combined = combined' := Except.ok.inj (hprep.symm.trans hprep')
  have hzip : r.appendLengths.zipIdx[i]? = some (append, i) := by
    rw [List.getElem?_zipIdx, happend, Option.map_some, Nat.zero_add]
  rw [List.getElem?_map, hzip, Option.map_some]
  dsimp only
  rw [List.getD_eq_getElem?_getD, hcombined i h append row hi happend hrow, Option.getD_some,
    slice_combined _ (hfits.append_le happend hrow)]

/-! ## Committing -/

/-- A hybrid store after a commit. -/
def committed (s : HybridPagedKVCacheBackend ρ κ χ) (r : HybridBatchReservation κ χ) :
    HybridPagedKVCacheBackend ρ κ χ :=
  ⟨s.toPagedKVCacheBackend.committed r.toPagedBatchReservation,
    HybridPagedKVCacheBackend.installStates (List.range s.numLayers) r.stagedStates
      r.requestCaches s.convStates⟩

omit [Zero χ] in
/-- **A commit** raises and changes nothing, or installs the tables, the lengths and the
states, each layer having staged one of the two. -/
theorem commit_cases (s : HybridPagedKVCacheBackend ρ κ χ) (r : HybridBatchReservation κ χ)
    (hnodup : r.finished = false → r.pinnedPages.Nodup)
    (hpos : r.finished = false → ∀ p ∈ r.pinnedPages, 1 ≤ s.pinCounts p)
    (evalError : Option PyError) :
    (∃ e, s.commit r evalError = (.error e, r, s)) ∨
    evalError = none ∧ r.finished = false ∧
      (∀ layer < s.numLayers, r.stagedKeys layer = none → (r.stagedStates layer).isSome) ∧
      s.commit r evalError = (.ok (r.requestCaches.map fun h => ((committed s r).cacheOf h).size),
        { r with finished := true }, committed s r) := by
  rw [HybridPagedKVCacheBackend.commit.eq_def]
  split
  case isTrue => exact .inl ⟨_, rfl⟩
  case isFalse hfin =>
    rw [Bool.not_eq_true] at hfin
    split
    case isTrue => exact .inl ⟨_, rfl⟩
    case isFalse hops =>
      cases evalError with
      | some e => exact .inl ⟨e, rfl⟩
      | none =>
          rcases PagedKVCacheBackend.commitReservation_cases (hnodup hfin) (hpos hfin) with
            ⟨e, heq⟩ | heq
          · refine .inl ⟨e, ?_⟩
            simp only [HybridPagedKVCacheBackend.commitHybridReservation, heq]
          · refine .inr ⟨rfl, hfin, fun layer hlayer hkeys => ?_, ?_⟩
            · simp only [List.any_eq_true, List.mem_range, not_exists, not_and] at hops
              exact Option.isSome_iff_ne_none.mpr (by simpa [hkeys] using hops layer hlayer)
            · simp only [HybridPagedKVCacheBackend.commitHybridReservation, heq, committed]

/-! ## The pins of the open reservations -/

omit [Zero χ] in
theorem openPins_append (reservations : List (HybridBatchReservation κ χ))
    (hopen : r.finished = false) (p : Page) : openPins (reservations ++ [r]) p =
      openPins reservations p + if p ∈ r.pinnedPages then 1 else 0 := by
  simp [openPins, List.countP_append, List.countP_singleton, hopen]

omit [Zero χ] in
/-- A reservation that stays open keeps the count, and one that finishes leaves it. -/
theorem openPins_set {reservations : List (HybridBatchReservation κ χ)} {i : ℕ}
    (hi : reservations[i]? = some r) (hopen : r.finished = false)
    (hpinned : r'.pinnedPages = r.pinnedPages) (p : Page) :
    openPins (reservations.set i r') p + (if r'.finished ∧ p ∈ r.pinnedPages then 1 else 0) =
      openPins reservations p := by
  obtain ⟨hlt, hget⟩ := List.getElem?_eq_some_iff.mp hi
  have hpos : p ∈ r.pinnedPages → 0 < openPins reservations p := fun hp =>
    List.countP_pos_iff.mpr ⟨r, hget ▸ List.getElem_mem hlt, by simp [hopen, hp]⟩
  rw [openPins, List.countP_set hlt, hget, ← openPins]
  by_cases hp : p ∈ r.pinnedPages
  · have := hpos hp
    cases hfin : r'.finished <;> simp [hopen, hpinned, hp] <;> omega
  · simp [hpinned, hp]

/-- An open reservation has its pins. -/
theorem Follows.pinned_pos (h : Follows model w t) {i : ℕ} (hi : w.reservations[i]? = some r)
    (hopen : r.finished = false) : ∀ p ∈ r.pinnedPages, 1 ≤ w.backend.pinCounts p := by
  intro p hp
  rw [h.pins]
  have hpos : 0 < openPins w.reservations p :=
    List.countP_pos_iff.mpr ⟨r, List.mem_of_getElem? hi, by simp [hopen, hp]⟩
  omega

/-- Every reservation has its append in the history. -/
theorem Follows.exists_pending (h : Follows model w t) {i : ℕ} (hi : w.reservations[i]? = some r) :
    ∃ b, t.pending[i]? = some b :=
  ⟨_, List.getElem?_eq_getElem (h.pending_length ▸ (List.getElem?_eq_some_iff.mp hi).1)⟩

/-! ## What a call leaves -/

theorem Tracks.frame {h : Handle} (ht : Tracks model s inputs h)
    (hlayers : s'.numLayers = s.numLayers) (hlength : (s'.cacheOf h).length = (s.cacheOf h).length)
    (hstates : s'.convStates h = s.convStates h) (hinputs : inputs' h = inputs h) :
    Tracks model s' inputs' h where
  length_eq := by rw [hlayers, hinputs, hlength]; exact ht.length_eq
  state_eq := by rw [hlayers, hinputs, hlength, hstates]; exact ht.state_eq

theorem StagedLayer.frame {rows states : Option (List (List χ))}
    (h : StagedLayer m inputs r layer rows states)
    (hinputs : ∀ h ∈ r.requestCaches, inputs' h = inputs h) :
    StagedLayer m inputs' r layer rows states := by
  cases h with
  | nothing => exact .nothing
  | states hfits hlength heq =>
      refine .states hfits hlength fun i h append row hi happend hrow => ?_
      rw [heq i h append row hi happend hrow, hinputs h (List.mem_of_getElem? hi)]

/-- What is staged depends on the requests of the reservation only. -/
theorem StagedLayer.congr {rows states : Option (List (List χ))}
    (h : StagedLayer m inputs r layer rows states) (hcaches : r'.requestCaches = r.requestCaches)
    (happends : r'.appendLengths = r.appendLengths) :
    StagedLayer m inputs r' layer rows states := by
  cases h with
  | nothing => exact .nothing
  | states hfits hlength heq =>
      refine .states ?_ (hcaches ▸ hlength) (by rw [hcaches, happends]; exact heq)
      rw [Fits, hcaches, happends]
      exact hfits

theorem Gathers.frame {next next' : Handle} (h : Gathers model next inputs r b)
    (hnext : next ≤ next') (hinputs : ∀ h ∈ r.requestCaches, inputs' h = inputs h) :
    Gathers model next' inputs' r b :=
  { h with
    created := fun x hx => lt_of_lt_of_le (h.created x hx) hnext
    layers := fun layer m hm => (h.layers layer m hm).frame hinputs }

/-- A call that touches no reservation keeps the relation, when the caches it leaves are
tracked and the created ones keep their inputs. -/
theorem Follows.of_backend (h : Follows model w t)
    (hfresh : ∀ x ∈ s.caches, x < s.nextHandle) (hnext : w.backend.nextHandle ≤ s.nextHandle)
    (hpins : s.pinCounts = w.backend.pinCounts)
    (hinputs : ∀ x < w.backend.nextHandle, inputs x = t.inputs x)
    (htracks : ∀ x < s.nextHandle, Tracks model s inputs x) :
    Follows model { w with backend := s } { t with inputs := inputs } where
  fresh := hfresh
  pins := fun p => (congrFun hpins p).trans (h.pins p)
  tracks := htracks
  pending_length := h.pending_length
  gathers := fun i r b hr hb hopen =>
    have hg := h.gathers i r b hr hb hopen
    hg.frame hnext fun x hx => hinputs x (hg.created x hx)
  apart := h.apart

/-- A new cache: the inputs and the states it starts with go together. -/
theorem Follows.addCache (h : Follows model w t) (requestId : ρ) (table : List Page) (length : ℕ)
    {states : ℕ → Option (List χ)} {new : ℕ → List χ}
    (hlength : ∀ layer < w.backend.numLayers, ∀ m, model layer = some m →
      (new layer).length = length)
    (hstates : ∀ layer < w.backend.numLayers, ∀ m, model layer = some m →
      states layer = if length = 0 then none
        else some (lastPadded (m.cacheSize - 1) 0 (new layer))) :
    Follows model
      { w with backend := ⟨w.backend.toPagedKVCacheBackend.addCache requestId table length,
          Function.update w.backend.convStates w.backend.nextHandle states⟩ }
      { t with inputs := Function.update t.inputs w.backend.nextHandle new } := by
  refine h.of_backend (fun x hx => ?_) (Nat.le_succ _) rfl (fun x hx => ?_) fun x hx => ?_
  · rcases Finset.mem_insert.mp hx with rfl | hx
    · exact Nat.lt_succ_self _
    · exact Nat.lt_succ_of_lt (h.fresh x hx)
  · exact Function.update_of_ne (ne_of_lt hx) _ _
  · rcases Nat.lt_succ_iff_lt_or_eq.mp hx with hx | rfl
    · refine (h.tracks x hx).frame rfl ?_ (Function.update_of_ne (ne_of_lt hx) _ _)
        (Function.update_of_ne (ne_of_lt hx) _ _)
      exact congrArg PagedRequestCache.length (Function.update_of_ne (ne_of_lt hx) _ _)
    · have hcache : ((w.backend.toPagedKVCacheBackend.addCache requestId table length).cacheOf
          w.backend.nextHandle).length = length := by
        simp [PagedKVCacheBackend.addCache]
      refine ⟨fun layer hlayer m hm => ?_, fun layer hlayer m hm => ?_⟩
      · rw [hcache, Function.update_self, hlength layer hlayer m hm]
      · dsimp only
        rw [hcache, Function.update_self, Function.update_self, hstates layer hlayer m hm]

/-- A call on one reservation keeps the relation, when the reservation stays as it was
made, the caches it leaves are tracked, and no other cache gets new inputs. -/
theorem Follows.set (h : Follows model w t) {i : ℕ} (hi : w.reservations[i]? = some r)
    (hopen : r.finished = false)
    (hfresh : ∀ x ∈ s.caches, x < s.nextHandle) (hnext : s.nextHandle = w.backend.nextHandle)
    (hpins : ∀ p, s.pinCounts p = w.backend.pinCounts p -
      if r'.finished ∧ p ∈ r.pinnedPages then 1 else 0)
    (hcaches : r'.requestCaches = r.requestCaches) (hpinned : r'.pinnedPages = r.pinnedPages)
    {t' : ConvHistory χ} (htracks : ∀ x < s.nextHandle, Tracks model s t'.inputs x)
    (hinputs : ∀ x ∉ r.requestCaches, t'.inputs x = t.inputs x)
    (hlength : t'.pending.length = t.pending.length)
    (hothers : ∀ j, i ≠ j → t'.pending[j]? = t.pending[j]?)
    (hgathers : r'.finished = false → ∀ b, t'.pending[i]? = some b →
      Gathers model s.nextHandle t'.inputs r' b) :
    Follows model ⟨s, w.reservations.set i r'⟩ t' where
  fresh := hfresh
  pins := fun p => by
    have hset := openPins_set hi hopen hpinned p
    rw [hpins, h.pins, ← hset]
    split <;> simp
  tracks := htracks
  pending_length := by rw [hlength, h.pending_length, List.length_set]
  gathers := by
    intro j q b hq hb hqopen
    by_cases hij : i = j
    · subst hij
      rw [List.getElem?_set_self (List.getElem?_eq_some_iff.mp hi).1] at hq
      obtain rfl := Option.some.inj hq
      exact hgathers hqopen b hb
    · rw [List.getElem?_set_ne hij] at hq
      rw [hothers j hij] at hb
      refine (h.gathers j q b hq hb hqopen).frame hnext.ge fun x hx => hinputs x fun hmem => ?_
      exact h.apart i j r q hi hq hij hopen hqopen x hmem hx
  apart := by
    have hback : ∀ (j : ℕ) q, (w.reservations.set i r')[j]? = some q → q.finished = false →
        ∃ q', w.reservations[j]? = some q' ∧ q'.finished = false ∧
          q.requestCaches = q'.requestCaches := by
      intro j q hq hqopen
      by_cases hij : i = j
      · subst hij
        rw [List.getElem?_set_self (List.getElem?_eq_some_iff.mp hi).1] at hq
        obtain rfl := Option.some.inj hq
        exact ⟨r, hi, hopen, hcaches⟩
      · rw [List.getElem?_set_ne hij] at hq
        exact ⟨q, hq, hqopen, rfl⟩
    intro j k q q' hq hq' hjk hqopen hqopen' x hx
    obtain ⟨p, hp, hpopen, heq⟩ := hback j q hq hqopen
    obtain ⟨p', hp', hpopen', heq'⟩ := hback k q' hq' hqopen'
    rw [heq'] at *
    exact h.apart j k p p' hp hp' hjk hpopen hpopen' x (heq ▸ hx)

end HybridStore
end MlxRuntime
