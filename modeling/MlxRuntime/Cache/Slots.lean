import MlxRuntime.Cache.Reserve
import Mathlib.Data.List.GetD

/-!
# Slots, page copies and scattered rows

The arithmetic of staging.  A slot is a row of the flattened pool; slots of two
positions agree exactly when their pages and their offsets do.  Scattering rows at
distinct slots stores each row at its slot and leaves every other slot alone; copying
into distinct fresh pages makes each the image of its source.
-/

namespace MlxRuntime

variable {ρ κ : Type} {pageSize : ℕ}

/-! ## Slots -/

theorem flatten_unflatten (flat : ℕ → κ) : flatten pageSize (unflatten pageSize flat) = flat := by
  funext slot
  rw [flatten, unflatten, Nat.div_add_mod']

theorem flatten_slotOf (hps : 0 < pageSize) (pool : PageArray κ) (table : List Page)
    (pos : ℕ) :
    flatten pageSize pool (slotOf pageSize table pos) =
      pool (table.getD (pos / pageSize) 0) (pos % pageSize) := by
  have hoff : pos % pageSize < pageSize := Nat.mod_lt _ hps
  rw [flatten, slotOf, Nat.add_comm, Nat.add_mul_div_right _ _ hps, Nat.div_eq_of_lt hoff,
    Nat.zero_add, Nat.add_mul_mod_self_right, Nat.mod_eq_of_lt hoff]

theorem slotOf_eq_iff (hps : 0 < pageSize) {table table' : List Page} {pos pos' : ℕ} :
    slotOf pageSize table pos = slotOf pageSize table' pos' ↔
      table.getD (pos / pageSize) 0 = table'.getD (pos' / pageSize) 0 ∧
        pos % pageSize = pos' % pageSize := by
  refine ⟨fun h => ?_, fun h => by rw [slotOf, slotOf, h.1, h.2]⟩
  have hoff := Nat.mod_lt pos hps
  have hoff' := Nat.mod_lt pos' hps
  have hpage := congrArg (· / pageSize) h
  simp only [slotOf, Nat.add_comm (_ * pageSize), Nat.add_mul_div_right _ _ hps,
    Nat.div_eq_of_lt hoff, Nat.div_eq_of_lt hoff', Nat.zero_add] at hpage
  refine ⟨hpage, ?_⟩
  rw [slotOf, slotOf, hpage] at h
  exact Nat.add_left_cancel h

/-- Positions of one table without repeated pages have different slots. -/
theorem slotOf_inj (hps : 0 < pageSize) {table : List Page} (hnodup : table.Nodup)
    {pos pos' : ℕ} (hpos : pos / pageSize < table.length) (hpos' : pos' / pageSize < table.length)
    (h : slotOf pageSize table pos = slotOf pageSize table pos') : pos = pos' := by
  obtain ⟨hpage, hoff⟩ := (slotOf_eq_iff hps).mp h
  rw [List.getD_eq_getElem _ _ hpos, List.getD_eq_getElem _ _ hpos',
    hnodup.getElem_inj_iff] at hpage
  rw [← Nat.div_add_mod pos pageSize, ← Nat.div_add_mod pos' pageSize, hpage, hoff]

/-! ## Scattering and copying -/

theorem scatter_cons (flat : ℕ → κ) (write : ℕ × κ) (writes : List (ℕ × κ)) :
    scatter flat (write :: writes) = scatter (Function.update flat write.1 write.2) writes := rfl

theorem scatter_of_notMem {flat : ℕ → κ} {writes : List (ℕ × κ)} {slot : ℕ}
    (h : slot ∉ writes.map Prod.fst) : scatter flat writes slot = flat slot := by
  induction writes generalizing flat with
  | nil => rfl
  | cons write writes ih =>
      simp only [List.map_cons, List.mem_cons, not_or] at h
      rw [scatter_cons, ih h.2, Function.update_of_ne h.1]

theorem scatter_of_mem {flat : ℕ → κ} {writes : List (ℕ × κ)}
    (hnodup : (writes.map Prod.fst).Nodup) {slot : ℕ} {row : κ} (h : (slot, row) ∈ writes) :
    scatter flat writes slot = row := by
  induction writes generalizing flat with
  | nil => simp at h
  | cons first writes ih =>
      simp only [List.map_cons, List.nodup_cons] at hnodup
      rw [scatter_cons]
      rcases List.mem_cons.mp h with rfl | h
      · rw [scatter_of_notMem hnodup.1, Function.update_self]
      · exact ih hnodup.2 h

/-- A batch packs as many rows as it appends. -/
theorem length_packRows (tensor : KVTensor κ) (appendLengths : List ℕ) :
    (packRows tensor appendLengths).length = appendLengths.sum := by
  simp only [packRows, List.length_flatMap, List.length_map, List.length_range]
  rw [List.zipIdx_map_fst]

theorem copyInto_cons (copy : Page × Page) (copies : List (Page × Page)) (pool : PageArray κ) :
    copyInto (copy :: copies) pool =
      copyInto copies (Function.update pool copy.2 (pool copy.1)) := rfl

theorem copyInto_of_notMem {copies : List (Page × Page)} {pool : PageArray κ} {page : Page}
    (h : page ∉ copies.map Prod.snd) : copyInto copies pool page = pool page := by
  induction copies generalizing pool with
  | nil => rfl
  | cons copy copies ih =>
      simp only [List.map_cons, List.mem_cons, not_or] at h
      rw [copyInto_cons, ih h.2, Function.update_of_ne h.1]

/-- A copied page is the image of its source, when no copy writes a source. -/
theorem copyInto_of_mem {copies : List (Page × Page)} {pool : PageArray κ}
    (hnodup : (copies.map Prod.snd).Nodup)
    (hsource : ∀ copy ∈ copies, copy.1 ∉ copies.map Prod.snd) {copy : Page × Page}
    (h : copy ∈ copies) : copyInto copies pool copy.2 = pool copy.1 := by
  induction copies generalizing pool with
  | nil => simp at h
  | cons first copies ih =>
      simp only [List.map_cons, List.nodup_cons] at hnodup
      simp only [List.map_cons, List.mem_cons, not_or] at hsource
      rw [copyInto_cons]
      rcases List.mem_cons.mp h with rfl | hmem
      · rw [copyInto_of_notMem hnodup.1, Function.update_self]
      · rw [ih hnodup.2 (fun c hc => (hsource c (.inr hc)).2) hmem,
          Function.update_of_ne (hsource copy (.inr hmem)).1]

/-! ## The rows of a batch -/

theorem length_requestSlots (table : List Page) (size append : ℕ) :
    (requestSlots pageSize table size append).length = append := by simp [requestSlots]

/-- The writes of a batch, request by request. -/
theorem zip_packRows {γ : Type} (changes : List γ) (slots : γ → List ℕ) (append : γ → ℕ)
    (hlen : ∀ c ∈ changes, (slots c).length = append c) (row : ℕ → ℕ → κ) (k : ℕ) :
    (changes.flatMap slots).zip
        (((changes.map append).zipIdx k).flatMap fun x => (List.range x.1).map (row x.2)) =
      (changes.zipIdx k).flatMap fun x =>
        (slots x.1).zip ((List.range (append x.1)).map (row x.2)) := by
  induction changes generalizing k with
  | nil => rfl
  | cons c changes ih =>
      simp only [List.map_cons, List.zipIdx_cons, List.flatMap_cons]
      rw [List.zip_append (by simp [hlen c]), ih (fun c hc => hlen c (by simp [hc]))]

end MlxRuntime
