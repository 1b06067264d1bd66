import MlxRuntime.Lib.Place
import MlxRuntime.Cache.Preflight
import MlxRuntime.Cache.Reservation
import MlxRuntime.Executor.Step

/-!
# What `prepare_batch` answers

Every request of a batch ends up in exactly one of two places: among the `kept`
requests, whose places in `ordered_results` stay empty, or in `ordered_results` with
the error that rejected it.  The store changes in its count of failed allocations
only.

## Main definitions

* `Rejected s request x` — `x` is the error of a request that is not run.
* `Prepares s batch prepared kept` — the whole answer.
* `prepareBatch_cases` — `prepare_batch` raises or answers so.
-/

namespace MlxRuntime.MlxGenerationExecutor

open PagedKVCacheBackend (allocationFailed)

variable {ρ κ : Type} [DecidableEq ρ] {s : PagedKVCacheBackend ρ κ}

/-! ## The two loops -/

/-- A request that passes its checks, with what the layout needs of it. -/
def validOf (s : PagedKVCacheBackend ρ κ) (x : ExecutionRequest ρ × ℕ) :
    Option (ValidRequest ρ) :=
  match preflightCache s x.1 with
  | .error _ => none
  | .ok cache => some ⟨x.1, x.2, cache, x.1.tokenIds.length, (s.cacheOf cache).size⟩

/-- The result of a request that fails its checks, with its place. -/
def invalidOf (s : PagedKVCacheBackend ρ κ) (x : ExecutionRequest ρ × ℕ) :
    Option (ℕ × Option (StepRequestResult ρ)) :=
  match preflightCache s x.1 with
  | .error message => some (x.2, some (requestError s x.1 "INVALID_EXECUTION_REQUEST" message))
  | .ok _ => none

theorem checkRequests_eq (xs : List (ExecutionRequest ρ × ℕ))
    (results : List (Option (StepRequestResult ρ))) :
    checkRequests s xs results =
      (xs.filterMap (validOf s), place results (xs.filterMap (invalidOf s))) := by
  induction xs generalizing results with
  | nil => rfl
  | cons x xs ih =>
      rw [checkRequests.eq_def]
      cases hcheck : preflightCache s x.1 with
      | error message => simp [hcheck, ih, validOf, invalidOf]
      | ok cache => simp [hcheck, ih, validOf, invalidOf]

/-- A valid request the pool has room for. -/
def fittingOf (x : ValidRequest ρ × Option String) : Option (ValidRequest ρ) :=
  match x.2 with
  | none => some x.1
  | some _ => none

/-- The result of a valid request the pool has no room for, with its place. -/
def unfitOf (s : PagedKVCacheBackend ρ κ) (x : ValidRequest ρ × Option String) :
    Option (ℕ × Option (StepRequestResult ρ)) :=
  x.2.map fun message =>
    (x.1.sourceIndex, some (requestError s x.1.request "KV_CAPACITY_EXHAUSTED" message))

omit [DecidableEq ρ] in
theorem keepFitting_eq (xs : List (ValidRequest ρ × Option String))
    (results : List (Option (StepRequestResult ρ))) :
    keepFitting s xs results =
      (xs.filterMap fittingOf, place results (xs.filterMap (unfitOf s))) := by
  induction xs generalizing results with
  | nil => rfl
  | cons x xs ih =>
      obtain ⟨valid, error⟩ := x
      cases error with
      | some message => simp [keepFitting, ih, List.filterMap_cons, fittingOf, unfitOf]
      | none => simp [keepFitting, ih, List.filterMap_cons, fittingOf, unfitOf]

omit [DecidableEq ρ] in
/-- The requests that are kept are those `preflight` lets through. -/
theorem accepted_eq_fitting (xs : List (ValidRequest ρ)) (answers : List (Option String)) :
    PagedKVCacheBackend.accepted (xs.map fun v => (v.cache, v.tokenLength)) answers =
      ((xs.zip answers).filterMap fittingOf).map fun v => (v.cache, v.tokenLength) := by
  induction xs generalizing answers with
  | nil => rfl
  | cons v xs ih =>
      cases answers with
      | nil => rfl
      | cons answer answers =>
          cases answer with
          | none =>
              rw [List.map_cons, PagedKVCacheBackend.accepted_cons_none, ih]
              rfl
          | some message =>
              rw [List.map_cons, PagedKVCacheBackend.accepted_cons_some, ih]
              rfl

omit [DecidableEq ρ] in
/-- The requests `preflight` has room for can be reserved together. -/
theorem exists_candidateTables {xs : List (ValidRequest ρ)} {available : List Page} :
    ∃ tables, s.candidateTables
      (((xs.zip (s.preflightFrom (xs.map fun v => (v.cache, v.tokenLength))
        available.length).1).filterMap fittingOf).map fun v => (v.cache, v.tokenLength))
      available = some tables := by
  rw [← Option.isSome_iff_exists, PagedKVCacheBackend.candidateTables_isSome,
    ← accepted_eq_fitting]
  exact PagedKVCacheBackend.batchCost_accepted_le _ _

/-! ## The answer -/

/-- A request that is not run, and the result it gets. -/
inductive Rejected (s : PagedKVCacheBackend ρ κ) (request : ExecutionRequest ρ) :
    StepRequestResult ρ → Prop
  | invalid {message : String} (h : preflightCache s request = .error message) :
      Rejected s request (requestError s request "INVALID_EXECUTION_REQUEST" message)
  | exhausted {cache : Handle} (h : preflightCache s request = .ok cache) :
      Rejected s request (requestError s request "KV_CAPACITY_EXHAUSTED"
        "native paged KV capacity exhausted before model execution")

omit [DecidableEq ρ] in
theorem Rejected.errorCode_ne_none [DecidableEq ρ] {request : ExecutionRequest ρ}
    {x : StepRequestResult ρ} (h : Rejected s request x) : x.errorCode ≠ none := by
  cases h <;> exact Option.some_ne_none _

/-- What `prepare_batch` answers, with the requests it keeps. -/
structure Prepares (s : PagedKVCacheBackend ρ κ) (batch : ExecutionBatch ρ)
    (prepared : PreparedStep ρ) (kept : List (ValidRequest ρ)) : Prop where
  batch_eq : prepared.batch = batch
  requests_ne_nil : batch.requests ≠ []
  ids_nodup : (batch.requests.map ExecutionRequest.requestId).Nodup
  results_length : prepared.orderedResults.length = batch.requests.length
  kept_nodup : (kept.map ValidRequest.sourceIndex).Nodup
  kept_valid : ∀ v ∈ kept, batch.requests[v.sourceIndex]? = some v.request ∧
    preflightCache s v.request = .ok v.cache ∧
    v.tokenLength = v.request.tokenIds.length ∧ v.cacheLength = (s.cacheOf v.cache).size
  kept_open : ∀ v ∈ kept, prepared.orderedResults[v.sourceIndex]? = some none
  rejected : ∀ i request, batch.requests[i]? = some request →
    i ∉ kept.map ValidRequest.sourceIndex →
    ∃ x, prepared.orderedResults[i]? = some (some x) ∧ Rejected s request x
  fits : ∃ tables, s.candidateTables (kept.map fun v => (v.cache, v.tokenLength))
    s.availablePages = some tables
  layout : (kept = [] ∧ prepared.layout = none) ∨
    kept ≠ [] ∧ ∃ layout, prepared.layout = some layout ∧ buildLayout kept = .ok layout

/-- Mapping what is left of a list is a sublist of mapping it. -/
theorem sublist_map_filterMap {α β γ : Type} {f : α → Option β} {g : β → γ} {h : α → γ}
    (heq : ∀ x y, f x = some y → g y = h x) (xs : List α) :
    ((xs.filterMap f).map g).Sublist (xs.map h) := by
  induction xs with
  | nil => exact .slnil
  | cons x xs ih =>
      cases hfx : f x with
      | none => rw [List.filterMap_cons_none hfx]; exact ih.cons _
      | some y =>
          rw [List.filterMap_cons_some hfx, List.map_cons, List.map_cons, heq x y hfx]
          exact ih.cons_cons _

theorem validOf_eq_some {x : ExecutionRequest ρ × ℕ} {v : ValidRequest ρ} :
    validOf s x = some v ↔ preflightCache s x.1 = .ok v.cache ∧
      v = ⟨x.1, x.2, v.cache, x.1.tokenIds.length, (s.cacheOf v.cache).size⟩ := by
  rw [validOf]
  cases preflightCache s x.1 with
  | error message => simp
  | ok cache =>
      simp only [Option.some.injEq, Except.ok.injEq]
      constructor
      · rintro rfl
        exact ⟨rfl, rfl⟩
      · rintro ⟨rfl, heq⟩
        exact heq.symm

theorem invalidOf_eq_some {x : ExecutionRequest ρ × ℕ}
    {write : ℕ × Option (StepRequestResult ρ)} :
    invalidOf s x = some write ↔ ∃ message, preflightCache s x.1 = .error message ∧
      write = (x.2, some (requestError s x.1 "INVALID_EXECUTION_REQUEST" message)) := by
  rw [invalidOf]
  cases preflightCache s x.1 with
  | error message => simp [eq_comm]
  | ok cache => simp

section Answer

variable {requests : List (ExecutionRequest ρ)}

/-- The valid requests sit at distinct places. -/
theorem nodup_validOf (s : PagedKVCacheBackend ρ κ) (requests : List (ExecutionRequest ρ)) :
    ((requests.zipIdx.filterMap (validOf s)).map ValidRequest.sourceIndex).Nodup := by
  have hsub := sublist_map_filterMap (f := validOf s) (g := ValidRequest.sourceIndex)
    (h := Prod.snd) (fun x v hv => by rw [(validOf_eq_some.mp hv).2]) requests.zipIdx
  refine hsub.nodup ?_
  rw [List.zipIdx_map_snd]
  exact List.nodup_range'

theorem mem_validOf {v : ValidRequest ρ} (hv : v ∈ requests.zipIdx.filterMap (validOf s)) :
    requests[v.sourceIndex]? = some v.request ∧ preflightCache s v.request = .ok v.cache ∧
      v.tokenLength = v.request.tokenIds.length ∧
      v.cacheLength = (s.cacheOf v.cache).size := by
  obtain ⟨⟨request, i⟩, hmem, heq⟩ := List.mem_filterMap.mp hv
  obtain ⟨hcheck, hvalid⟩ := validOf_eq_some.mp heq
  rw [hvalid]
  exact ⟨List.mk_mem_zipIdx_iff_getElem?.mp hmem, hcheck, rfl, rfl⟩

/-- After the checks the place of a valid request is open. -/
theorem place_invalidOf_of_valid {i : ℕ} {request : ExecutionRequest ρ} {cache : Handle}
    (hreq : requests[i]? = some request) (hcheck : preflightCache s request = .ok cache) :
    (place (List.replicate requests.length none)
      (requests.zipIdx.filterMap (invalidOf s)))[i]? = some none := by
  have hlt := (List.getElem?_eq_some_iff.mp hreq).1
  rw [getElem?_place_of_notMem, List.getElem?_replicate, if_pos hlt]
  simp only [List.mem_map, List.mem_filterMap, not_exists, not_and]
  rintro write ⟨⟨request', i'⟩, hmem, heq⟩ hi
  obtain ⟨message, herr, rfl⟩ := invalidOf_eq_some.mp heq
  obtain rfl : i' = i := hi
  rw [List.mk_mem_zipIdx_iff_getElem?, hreq] at hmem
  obtain rfl := Option.some.inj hmem
  simp [hcheck] at herr

/-- After the checks the place of any other request holds its error. -/
theorem place_invalidOf_of_notMem {i : ℕ} {request : ExecutionRequest ρ}
    (hreq : requests[i]? = some request)
    (hnot : i ∉ (requests.zipIdx.filterMap (validOf s)).map ValidRequest.sourceIndex) :
    ∃ x, (place (List.replicate requests.length none)
      (requests.zipIdx.filterMap (invalidOf s)))[i]? = some (some x) ∧
      Rejected s request x := by
  have hmem : (request, i) ∈ requests.zipIdx := List.mk_mem_zipIdx_iff_getElem?.mpr hreq
  cases hcheck : preflightCache s request with
  | ok cache =>
      have hv := validOf_eq_some (s := s) (x := (request, i))
        (v := ⟨request, i, cache, request.tokenIds.length, (s.cacheOf cache).size⟩)
      exact absurd (List.mem_map_of_mem (List.mem_filterMap.mpr
        ⟨_, hmem, hv.mpr ⟨hcheck, rfl⟩⟩)) hnot
  | error message =>
      refine ⟨_, getElem?_place_of_mem ?_ ?_ ?_, .invalid hcheck⟩
      · refine (sublist_map_filterMap (h := Prod.snd) ?_ _).nodup ?_
        · intro x write hw
          obtain ⟨m, -, rfl⟩ := invalidOf_eq_some.mp hw
          rfl
        · rw [List.zipIdx_map_snd]
          exact List.nodup_range'
      · rw [List.length_replicate]
        exact (List.getElem?_eq_some_iff.mp hreq).1
      · exact List.mem_filterMap.mpr ⟨_, hmem, invalidOf_eq_some.mpr ⟨message, hcheck, rfl⟩⟩

omit [DecidableEq ρ] in
/-- What the capacity check does to the valid requests: those that fit are kept, the
others get their error. -/
theorem keepFitting_spec {valid : List (ValidRequest ρ)} {errors : List (Option String)}
    (hlen : errors.length = valid.length)
    (hnodup : (valid.map ValidRequest.sourceIndex).Nodup)
    {results : List (Option (StepRequestResult ρ))}
    (hlt : ∀ v ∈ valid, v.sourceIndex < results.length) :
    let kept := (valid.zip errors).filterMap fittingOf
    let placed := place results ((valid.zip errors).filterMap (unfitOf s))
    (kept.map ValidRequest.sourceIndex).Nodup ∧ (∀ v ∈ kept, v ∈ valid) ∧
      (∀ i, (∀ v ∈ valid, v.sourceIndex = i → v ∈ kept) → placed[i]? = results[i]?) ∧
      ∀ v ∈ valid, v.sourceIndex ∉ kept.map ValidRequest.sourceIndex →
        ∃ message, some message ∈ errors ∧ placed[v.sourceIndex]? = some
          (some (requestError s v.request "KV_CAPACITY_EXHAUSTED" message)) := by
  intro kept placed
  have hzip : ((valid.zip errors).map fun x => x.1.sourceIndex).Nodup := by
    have : (valid.zip errors).map (fun x => x.1.sourceIndex) =
        ((valid.zip errors).map Prod.fst).map ValidRequest.sourceIndex := by
      rw [List.map_map]; rfl
    rw [this, List.map_fst_zip (by omega)]
    exact hnodup
  have hkept : ∀ v, v ∈ kept ↔ (v, none) ∈ valid.zip errors := by
    intro v
    simp only [kept, List.mem_filterMap]
    constructor
    · rintro ⟨⟨v', error⟩, hmem, heq⟩
      cases error with
      | none => obtain rfl := Option.some.inj heq; exact hmem
      | some message => cases heq
    · exact fun hmem => ⟨(v, none), hmem, rfl⟩
  have hunfit : (((valid.zip errors).filterMap (unfitOf s)).map Prod.fst).Nodup := by
    refine (sublist_map_filterMap (h := fun x => x.1.sourceIndex) ?_ _).nodup hzip
    rintro ⟨v, error⟩ write heq
    cases error with
    | none => cases heq
    | some message => obtain rfl := Option.some.inj heq; rfl
  refine ⟨?_, fun v hv => (List.of_mem_zip ((hkept v).mp hv)).1, ?_, ?_⟩
  · refine (sublist_map_filterMap (h := fun x => x.1.sourceIndex) ?_ _).nodup hzip
    rintro ⟨v, error⟩ v' heq
    cases error with
    | none => obtain rfl := Option.some.inj heq; rfl
    | some message => cases heq
  · intro i hi
    refine getElem?_place_of_notMem fun hmem => ?_
    simp only [List.mem_map, List.mem_filterMap] at hmem
    obtain ⟨_, ⟨⟨v, error⟩, hv, heq⟩, rfl⟩ := hmem
    cases error with
    | none => cases heq
    | some message =>
        obtain rfl := Option.some.inj heq
        have hfit := (hkept v).mp (hi v (List.of_mem_zip hv).1 rfl)
        have := List.inj_on_of_nodup_map hzip hfit hv rfl
        simp at this
  · intro v hv hnot
    obtain ⟨error, hmem⟩ : ∃ error, (v, error) ∈ valid.zip errors := by
      obtain ⟨i, hi, rfl⟩ := List.getElem_of_mem hv
      exact ⟨errors[i], List.mem_iff_getElem.mpr ⟨i, by simpa [hlen] using hi, by simp⟩⟩
    cases error with
    | none => exact absurd (List.mem_map_of_mem ((hkept v).mpr hmem)) hnot
    | some message =>
        refine ⟨message, (List.of_mem_zip hmem).2,
          getElem?_place_of_mem hunfit (hlt v hv) ?_⟩
        exact List.mem_filterMap.mpr ⟨_, hmem, rfl⟩

end Answer

omit [DecidableEq ρ] in
/-- A layout can be built from any request at all. -/
theorem exists_buildLayout {kept : List (ValidRequest ρ)} (hne : kept ≠ []) :
    ∃ layout, buildLayout kept = .ok layout := by
  obtain ⟨v, kept, rfl⟩ := List.exists_cons_of_ne_nil hne
  rw [buildLayout, ForwardMode.fromPhases]
  cases hphase : v.request.phase with
  | prefill => by_cases hd : ∃ w ∈ kept, w.request.phase = .decode <;> simp [hphase, hd]
  | decode => by_cases hp : ∃ w ∈ kept, w.request.phase = .prefill <;> simp [hphase, hp]

/-- When `prepare_batch` raises. -/
def Malformed (batch : ExecutionBatch ρ) : Prop :=
  batch.requests = [] ∨ ¬ (batch.requests.map ExecutionRequest.requestId).Nodup

/-- **`prepare_batch`** raises on a malformed batch or when the arrays cannot be built;
otherwise it splits the batch into the kept and the rejected requests. -/
theorem prepareBatch_cases (s : PagedKVCacheBackend ρ κ) (batch : ExecutionBatch ρ)
    (faults : StepFaults) :
    (∃ e n, (Malformed batch ∨ faults.inputArrays.isSome) ∧
      prepareBatch s batch faults = (.error e, s.allocationFailed n)) ∨
    ∃ prepared kept n, Prepares s batch prepared kept ∧
      prepareBatch s batch faults = (.ok prepared, s.allocationFailed n) := by
  rw [prepareBatch]
  split
  case isTrue h => exact .inl ⟨_, 0, .inl (.inl h), rfl⟩
  case isFalse hne =>
  split
  case isTrue h => exact .inl ⟨_, 0, .inl (.inr h), rfl⟩
  case isFalse hids =>
  rw [not_not] at hids
  simp only [checkRequests_eq]
  generalize hvalid : batch.requests.zipIdx.filterMap (validOf s) = valid
  generalize hchecked : place (List.replicate batch.requests.length none)
    (batch.requests.zipIdx.filterMap (invalidOf s)) = checked
  have hlength : checked.length = batch.requests.length := by simp [← hchecked]
  have hspec : ∀ v ∈ valid, _ := fun v hv => mem_validOf (hvalid ▸ hv)
  have hnodup : (valid.map ValidRequest.sourceIndex).Nodup := hvalid ▸ nodup_validOf s _
  have hopen : ∀ v ∈ valid, checked[v.sourceIndex]? = some none := by
    intro v hv
    obtain ⟨hreq, hcheck, -⟩ := hspec v hv
    rw [← hchecked]
    exact place_invalidOf_of_valid hreq hcheck
  have hclosed : ∀ i request, batch.requests[i]? = some request →
      i ∉ valid.map ValidRequest.sourceIndex →
      ∃ x, checked[i]? = some (some x) ∧ Rejected s request x := by
    intro i request hreq hnot
    rw [← hchecked]
    exact place_invalidOf_of_notMem hreq (hvalid ▸ hnot)
  split
  case isTrue hnil =>
    subst hnil
    exact .inr ⟨_, [], 0, ⟨rfl, hne, hids, hlength, List.nodup_nil, by simp, by simp,
      by simpa using hclosed, ⟨_, rfl⟩, .inl ⟨rfl, rfl⟩⟩, rfl⟩
  case isFalse hvalidne =>
  rw [PagedKVCacheBackend.preflight, if_neg (by simp)]
  dsimp only
  generalize herrors : (s.preflightFrom _ _).1 = errors
  have hlen : errors.length = valid.length := by
    rw [← herrors, PagedKVCacheBackend.length_preflightFrom]; simp
  have hmessage : ∀ message, some message ∈ errors →
      message = "native paged KV capacity exhausted before model execution" :=
    fun message hmem => PagedKVCacheBackend.mem_preflightFrom (herrors ▸ hmem)
  have hlt : ∀ v ∈ valid, v.sourceIndex < checked.length := by
    intro v hv
    rw [hlength]
    exact (List.getElem?_eq_some_iff.mp (hspec v hv).1).1
  simp only [keepFitting_eq]
  obtain ⟨hkeptnodup, hsub, hsame, hunfit⟩ := keepFitting_spec (s := s) hlen hnodup hlt
  generalize hkept : (valid.zip errors).filterMap fittingOf = kept at *
  have hmain : ∀ layout, ((kept = [] ∧ layout = none) ∨
      kept ≠ [] ∧ ∃ l, layout = some l ∧ buildLayout kept = .ok l) →
      Prepares s batch ⟨batch, layout,
        place checked ((valid.zip errors).filterMap (unfitOf s))⟩ kept := by
    intro layout hlayout
    refine ⟨rfl, hne, hids, by simp [hlength], hkeptnodup, fun v hv => hspec v (hsub v hv),
      ?_, ?_, ?_, hlayout⟩
    · intro v hv
      refine (hsame _ fun v' hv' heq => ?_).trans (hopen v (hsub v hv))
      rwa [List.inj_on_of_nodup_map hnodup hv' (hsub v hv) heq]
    · intro i request hreq hnot
      by_cases hi : i ∈ valid.map ValidRequest.sourceIndex
      · obtain ⟨v, hv, rfl⟩ := List.mem_map.mp hi
        obtain ⟨hreq', hcheck, -⟩ := hspec v hv
        obtain rfl : v.request = request := Option.some.inj (hreq'.symm.trans hreq)
        obtain ⟨message, hmem, hplaced⟩ := hunfit v hv hnot
        obtain rfl := hmessage message hmem
        exact ⟨_, hplaced, .exhausted hcheck⟩
      · obtain ⟨x, hx, hrejected⟩ := hclosed i request hreq hi
        refine ⟨x, (hsame i fun v hv heq => ?_).trans hx, hrejected⟩
        exact absurd (List.mem_map.mpr ⟨v, hv, heq⟩) hi
    · rw [← hkept, ← herrors, List.zip_map']
      exact exists_candidateTables
  split
  case isTrue hnil => exact .inr ⟨_, kept, _, hmain none (.inl ⟨hnil, rfl⟩), rfl⟩
  case isFalse hkeptne =>
  obtain ⟨layout, hlayout⟩ := exists_buildLayout hkeptne
  cases hfault : faults.inputArrays with
  | some message => exact .inl ⟨_, _, .inr rfl, rfl⟩
  | none =>
      simp only [hlayout]
      exact .inr ⟨_, kept, _, hmain (some layout) (.inr ⟨hkeptne, layout, rfl, hlayout⟩), rfl⟩

end MlxRuntime.MlxGenerationExecutor
