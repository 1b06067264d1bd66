import MlxRuntime.Cache.Store

/-!
# What `preflight` says of a reservation

`preflight` counts the pages of each request, and `reserve_batch` takes them one by one.  A
reservation succeeds when the pages that `preflight` would charge for its requests are there.

## Main definitions

* `accepted` — the requests of a batch that `preflight` lets through.
* `Reservable` — `reserve_batch` succeeds.
* `PreflightAgrees` — the two methods agree on a batch.
-/

namespace MlxRuntime.PagedKVCacheBackend

variable {ρ κ : Type} {s : PagedKVCacheBackend ρ κ}

/-- The pages that `preflight` charges for some requests. -/
def batchCost (s : PagedKVCacheBackend ρ κ) (batch : List (Handle × ℕ)) : ℕ :=
  (batch.map fun x => s.preflightCost (s.cacheOf x.1) x.2).sum

@[simp] theorem batchCost_nil : s.batchCost [] = 0 := rfl

@[simp] theorem batchCost_cons (x : Handle × ℕ) (batch : List (Handle × ℕ)) :
    s.batchCost (x :: batch) = s.preflightCost (s.cacheOf x.1) x.2 + s.batchCost batch := by
  simp [batchCost]

@[simp] theorem batchCost_append (batch more : List (Handle × ℕ)) :
    s.batchCost (batch ++ more) = s.batchCost batch + s.batchCost more := by
  simp [batchCost]

/-! ## Pages taken one by one -/

/-- A table takes the pages that are charged for it, if they are there. -/
theorem candidateTable_room (cache : PagedRequestCache ρ) (n : ℕ) (available : List Page) :
    (s.candidateTable cache n available).map (fun change => change.available.length) =
      if s.preflightCost cache n ≤ available.length then
        some (available.length - s.preflightCost cache n)
      else none := by
  have hextend : ∀ m (change : TableChange), (extendTable m change).map
      (fun change => change.available.length) =
        if m ≤ change.available.length then some (change.available.length - m) else none := by
    intro m change
    split
    case isTrue hm =>
      rw [extendTable_eq_some.mpr ⟨hm, rfl⟩]
      simp
    case isFalse hm =>
      rw [Option.map_eq_none_iff, Option.eq_none_iff_forall_ne_some]
      intro change' hsome
      exact hm (extendTable_eq_some.mp hsome).1
  rw [candidateTable, replaceTail, preflightCost]
  cases hlast : cache.blockTable.getLast? with
  | none =>
      dsimp only
      rw [Option.bind_some, hextend]
  | some last =>
      dsimp only
      by_cases hcopy : cache.size % s.pageSize ≠ 0 ∧ 1 < s.refCounts last
      · simp only [if_pos hcopy]
        have hne : cache.blockTable ≠ [] := by
          rintro hnil
          simp [hnil] at hlast
        have hpos := List.length_pos_of_ne_nil hne
        cases available with
        | nil => simp
        | cons page rest =>
            dsimp only
            rw [Option.bind_some, hextend]
            simp only [List.length_append, List.length_dropLast, List.length_cons,
              List.length_nil]
            split <;> split <;> simp only [Option.some.injEq, reduceCtorEq] <;> omega
      · simp only [if_neg hcopy]
        rw [Option.bind_some, hextend]

/-- The tables of a batch can be made when all its pages are there. -/
theorem candidateTables_isSome (batch : List (Handle × ℕ)) (available : List Page) :
    (s.candidateTables batch available).isSome ↔ s.batchCost batch ≤ available.length := by
  induction batch generalizing available with
  | nil => simp [candidateTables]
  | cons x batch ih =>
      obtain ⟨handle, n⟩ := x
      have hroom := candidateTable_room (s := s) (s.cacheOf handle) n available
      rw [candidateTables, batchCost_cons]
      cases hchange : s.candidateTable (s.cacheOf handle) n available with
      | none =>
          rw [hchange, Option.map_none] at hroom
          have hcost : available.length < s.preflightCost (s.cacheOf handle) n := by
            by_contra hle
            rw [if_pos (by omega)] at hroom
            cases hroom
          rw [Option.bind_none]
          constructor
          · intro h
            cases h
          · intro h
            dsimp only at h
            omega
      | some change =>
          rw [hchange, Option.map_some] at hroom
          split at hroom
          case isFalse => cases hroom
          case isTrue hcost =>
            have hleft := Option.some.inj hroom
            rw [Option.bind_some, Option.isSome_map, ih]
            dsimp only
            omega

/-! ## What `preflight` lets through -/

/-- The requests of a batch that are answered with `None`. -/
def accepted (batch : List (Handle × ℕ)) (answers : List (Option String)) : List (Handle × ℕ) :=
  (batch.zip answers).filterMap fun x => if x.2 = none then some x.1 else none

@[simp] theorem accepted_cons_none (x : Handle × ℕ) (batch : List (Handle × ℕ))
    (answers : List (Option String)) :
    accepted (x :: batch) (none :: answers) = x :: accepted batch answers := rfl

@[simp] theorem accepted_cons_some (x : Handle × ℕ) (batch : List (Handle × ℕ))
    (message : String) (answers : List (Option String)) :
    accepted (x :: batch) (some message :: answers) = accepted batch answers := rfl

theorem accepted_sublist (batch : List (Handle × ℕ)) (answers : List (Option String)) :
    (accepted batch answers).Sublist batch := by
  induction batch generalizing answers with
  | nil => exact List.Sublist.refl _
  | cons x batch ih =>
      cases answers with
      | nil => exact List.nil_sublist _
      | cons answer answers =>
          cases answer with
          | none => exact (ih answers).cons_cons x
          | some message => exact (ih answers).cons x

/-- The loop of `preflight`, a request at a time. -/
theorem preflightFrom_cons (x : Handle × ℕ) (batch : List (Handle × ℕ)) (available : ℕ) :
    (s.preflightFrom (x :: batch) available).1 =
      if available < s.preflightCost (s.cacheOf x.1) x.2 then
        some "native paged KV capacity exhausted before model execution" ::
          (s.preflightFrom batch available).1
      else none :: (s.preflightFrom batch
        (available - s.preflightCost (s.cacheOf x.1) x.2)).1 := by
  rw [preflightFrom.eq_def]
  dsimp only
  split <;> rfl

theorem length_preflightFrom (batch : List (Handle × ℕ)) (available : ℕ) :
    (s.preflightFrom batch available).1.length = batch.length := by
  induction batch generalizing available with
  | nil => rfl
  | cons x batch ih =>
      rw [preflightFrom_cons]
      split <;> simp [ih]

/-- The texts `preflight` answers with. -/
theorem mem_preflightFrom {batch : List (Handle × ℕ)} {available : ℕ} {message : String}
    (h : some message ∈ (s.preflightFrom batch available).1) :
    message = "native paged KV capacity exhausted before model execution" := by
  induction batch generalizing available with
  | nil => simp [preflightFrom] at h
  | cons x batch ih =>
      rw [preflightFrom_cons] at h
      split at h
      · rcases List.mem_cons.mp h with heq | hmem
        · exact Option.some.inj heq
        · exact ih hmem
      · rcases List.mem_cons.mp h with heq | hmem
        · cases heq
        · exact ih hmem

/-- What is let through fits. -/
theorem batchCost_accepted_le (batch : List (Handle × ℕ)) (available : ℕ) :
    s.batchCost (accepted batch (s.preflightFrom batch available).1) ≤ available := by
  induction batch generalizing available with
  | nil => exact Nat.zero_le _
  | cons x batch ih =>
      rw [preflightFrom_cons]
      split
      case isTrue => exact ih available
      case isFalse hcost =>
        have hrest := ih (available - s.preflightCost (s.cacheOf x.1) x.2)
        rw [accepted_cons_none, batchCost_cons]
        omega

/-- What is rejected does not fit beside what was let through before it. -/
theorem lt_batchCost_of_rejected {batch : List (Handle × ℕ)} {available i : ℕ}
    {x : Handle × ℕ} {message : String} (hx : batch[i]? = some x)
    (hanswer : (s.preflightFrom batch available).1[i]? = some (some message)) :
    available < s.batchCost
      (accepted (batch.take i) ((s.preflightFrom batch available).1.take i) ++ [x]) := by
  induction batch generalizing available i with
  | nil => simp at hx
  | cons y batch ih =>
      rw [preflightFrom_cons] at hanswer ⊢
      cases i with
      | zero =>
          obtain rfl : y = x := by simpa using hx
          split at hanswer
          case isTrue hcost => simpa [accepted] using hcost
          case isFalse => simp at hanswer
      | succ i =>
          rw [List.getElem?_cons_succ] at hx
          split at hanswer
          case isTrue hcost =>
            rw [List.getElem?_cons_succ] at hanswer
            rw [if_pos hcost, List.take_succ_cons, List.take_succ_cons, accepted_cons_some]
            exact ih hx hanswer
          case isFalse hcost =>
            rw [List.getElem?_cons_succ] at hanswer
            rw [if_neg hcost, List.take_succ_cons, List.take_succ_cons, accepted_cons_none,
              List.cons_append, batchCost_cons]
            have := ih hx hanswer
            omega

/-- Everything is let through when all the pages are there. -/
theorem preflightFrom_accepts_iff (batch : List (Handle × ℕ)) (available : ℕ) :
    (∀ answer ∈ (s.preflightFrom batch available).1, answer = none) ↔
      s.batchCost batch ≤ available := by
  induction batch generalizing available with
  | nil => simp [preflightFrom]
  | cons x batch ih =>
      rw [preflightFrom_cons, batchCost_cons]
      split
      case isTrue hcost =>
        constructor
        · intro h
          cases h _ List.mem_cons_self
        · intro h
          omega
      case isFalse hcost =>
        rw [List.forall_mem_cons, ih]
        constructor
        · rintro ⟨-, h⟩
          omega
        · intro h
          exact ⟨rfl, by omega⟩

/-! ## The two methods -/

/-- `reserve_batch` succeeds on these requests. -/
def Reservable (s : PagedKVCacheBackend ρ κ) (batch : List (Handle × ℕ)) : Prop :=
  ∃ r, (s.reserveBatch (batch.map Prod.fst) (batch.map Prod.snd)).1 = .ok r

/-- The requests are for distinct caches, and each appends something. -/
def WellPosed (batch : List (Handle × ℕ)) : Prop :=
  (batch.map Prod.fst).Nodup ∧ ∀ x ∈ batch, 0 < x.2

theorem WellPosed.sublist {batch batch' : List (Handle × ℕ)} (h : WellPosed batch)
    (hsub : batch'.Sublist batch) : WellPosed batch' :=
  ⟨h.1.sublist (hsub.map _), fun x hx => h.2 x (hsub.subset hx)⟩

/-- **When a reservation succeeds.** -/
theorem reservable_iff {batch : List (Handle × ℕ)} (h : WellPosed batch) (hne : batch ≠ []) :
    s.Reservable batch ↔ s.batchCost batch ≤ s.availablePages.length := by
  have hlength : ¬ ((batch.map Prod.fst).length ≠ (batch.map Prod.snd).length ∨
      batch.map Prod.fst = []) := by
    simpa using hne
  have hpos : 0 ∉ batch.map Prod.snd := by
    rintro hmem
    obtain ⟨x, hx, hzero⟩ := List.mem_map.mp hmem
    exact absurd (h.2 x hx) (by omega)
  have hzip : (batch.map Prod.fst).zip (batch.map Prod.snd) = batch := by
    rw [← List.unzip_fst, ← List.unzip_snd, List.zip_unzip]
  rw [Reservable, reserveBatch, if_neg hlength, if_neg (not_not.mpr h.1), if_neg hpos, hzip,
    ← candidateTables_isSome]
  cases s.candidateTables batch s.availablePages with
  | none => simp
  | some tables => simp

/-- Nothing is reserved for no request. -/
theorem not_reservable_nil : ¬ s.Reservable [] := by
  rintro ⟨r, h⟩
  cases h

/-- `preflight` and `reserve_batch` agree on a batch: each request that is let through can be
reserved together with the others, and no other request with those before it. -/
structure PreflightAgrees (s : PagedKVCacheBackend ρ κ) (batch : List (Handle × ℕ))
    (answers : List (Option String)) (after : PagedKVCacheBackend ρ κ) : Prop where
  length_eq : answers.length = batch.length
  accepts : accepted batch answers ≠ [] → after.Reservable (accepted batch answers)
  rejects : ∀ i x message, batch[i]? = some x → answers[i]? = some (some message) →
    ¬ after.Reservable (accepted (batch.take i) (answers.take i) ++ [x])
  whole : batch ≠ [] → ((∀ answer ∈ answers, answer = none) ↔ s.Reservable batch)

end MlxRuntime.PagedKVCacheBackend
