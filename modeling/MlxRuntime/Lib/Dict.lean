import Mathlib.Data.List.Nodup
import Mathlib.Data.List.Count

/-!
# Insertion-ordered dictionaries

A dictionary is a list of key-value pairs with distinct keys.  Setting a key that is
present replaces its value in place, setting a new key appends, and popping a key
removes its pair: iteration is in the order of first insertion.

## Main definitions

* `Dict α β` — the dictionary; distinct keys are a field.
* `Dict.get?`, `Dict.set`, `Dict.setAll`, `Dict.pop` — the operations.
* `Dict.mem_set`, `Dict.mem_pop`, `Dict.get?_set`, `Dict.get?_pop` — what they do.
* `Dict.count_values_pop` — values counted with multiplicity.
* `Dict.map_values_set`, `Dict.exists_entries_of_get?` — a key that is present.
-/

namespace MlxRuntime

universe u v

/-- A list of pairs with distinct keys. -/
structure Dict (α : Type u) (β : Type v) where
  entries : List (α × β)
  nodup : (entries.map Prod.fst).Nodup

namespace Dict

variable {α : Type u} {β : Type v}

instance [DecidableEq α] [DecidableEq β] : DecidableEq (Dict α β) := fun d d' =>
  decidable_of_iff (d.entries = d'.entries) (by cases d; cases d'; simp)

/-- No keys. -/
def empty : Dict α β := ⟨[], List.nodup_nil⟩

/-- The keys, in order. -/
def keys (d : Dict α β) : List α := d.entries.map Prod.fst

/-- The values, in the order of their keys. -/
def values (d : Dict α β) : List β := d.entries.map Prod.snd

@[ext] theorem ext {d d' : Dict α β} (h : d.entries = d'.entries) : d = d' := by
  cases d; cases d'; simp_all

@[simp] theorem keys_empty : (empty : Dict α β).keys = [] := rfl

@[simp] theorem values_empty : (empty : Dict α β).values = [] := rfl

@[simp] theorem entries_empty : (empty : Dict α β).entries = [] := rfl

theorem nodup_keys (d : Dict α β) : d.keys.Nodup := d.nodup

theorem mem_keys {d : Dict α β} {k : α} : k ∈ d.keys ↔ ∃ v, (k, v) ∈ d.entries := by
  simp [keys]

theorem mem_values {d : Dict α β} {v : β} : v ∈ d.values ↔ ∃ k, (k, v) ∈ d.entries := by
  simp [values]

/-- A key has one value. -/
theorem value_unique {d : Dict α β} {k : α} {v v' : β} (h : (k, v) ∈ d.entries)
    (h' : (k, v') ∈ d.entries) : v = v' := by
  have := List.inj_on_of_nodup_map d.nodup h h' rfl
  simpa using this

variable [DecidableEq α]

/-- `d.get(k)`. -/
def get? (d : Dict α β) (k : α) : Option β :=
  (d.entries.find? fun e => e.1 = k).map Prod.snd

/-- `d[k] = v`. -/
def set (d : Dict α β) (k : α) (v : β) : Dict α β :=
  if h : k ∈ d.keys then
    ⟨d.entries.map fun e => if e.1 = k then (k, v) else e, by
      have hfst : (d.entries.map fun e => if e.1 = k then (k, v) else e).map Prod.fst =
          d.entries.map Prod.fst := by
        rw [List.map_map]
        refine List.map_congr_left fun e _ => ?_
        by_cases he : e.1 = k <;> simp [he]
      rw [hfst]
      exact d.nodup⟩
  else
    ⟨d.entries ++ [(k, v)], by
      rw [List.map_append, List.nodup_append]
      refine ⟨d.nodup, by simp, ?_⟩
      rintro x hx y hy rfl
      obtain rfl : x = k := by simpa using hy
      exact h hx⟩

/-- `d.pop(k, None)`, without its answer. -/
def pop (d : Dict α β) (k : α) : Dict α β :=
  ⟨d.entries.filter fun e => e.1 ≠ k, by
    exact (List.Sublist.map _ List.filter_sublist).nodup d.nodup⟩

/-- Keys are set one after the other; a value may depend on the dictionary that it enters. -/
def setAll {γ : Type*} (f : Dict α β → α → γ → β) : List (γ × α) → Dict α β → Dict α β
  | [], d => d
  | (x, k) :: rest, d => setAll f rest (d.set k (f d k x))

variable {d : Dict α β}

theorem get?_eq_some {k : α} {v : β} : d.get? k = some v ↔ (k, v) ∈ d.entries := by
  rw [get?, Option.map_eq_some_iff]
  constructor
  · rintro ⟨⟨k', v'⟩, hfind, rfl⟩
    obtain rfl : k' = k := by simpa using List.find?_some hfind
    exact List.mem_of_find?_eq_some hfind
  · intro hmem
    cases hfind : d.entries.find? fun e => e.1 = k with
    | none =>
        have := List.find?_eq_none.mp hfind _ hmem
        simp at this
    | some e =>
        refine ⟨e, rfl, ?_⟩
        obtain ⟨k', v'⟩ := e
        obtain rfl : k' = k := by simpa using List.find?_some hfind
        exact value_unique (List.mem_of_find?_eq_some hfind) hmem

theorem get?_eq_none {k : α} : d.get? k = none ↔ k ∉ d.keys := by
  rw [Option.eq_none_iff_forall_not_mem]
  simp only [Option.mem_def, get?_eq_some, mem_keys, not_exists]

theorem mem_set {k : α} {v : β} {e : α × β} :
    e ∈ (d.set k v).entries ↔ e = (k, v) ∨ e.1 ≠ k ∧ e ∈ d.entries := by
  rw [set]
  split
  case isTrue h =>
    obtain ⟨v', hv'⟩ := mem_keys.mp h
    simp only [List.mem_map]
    constructor
    · rintro ⟨e', he', rfl⟩
      by_cases hk : e'.1 = k <;> simp [hk, he']
    · rintro (rfl | ⟨hne, he⟩)
      · exact ⟨_, hv', by simp⟩
      · exact ⟨e, he, by simp [hne]⟩
  case isFalse h =>
    simp only [List.mem_append, List.mem_singleton]
    constructor
    · rintro (he | rfl)
      · exact .inr ⟨fun hk => h (hk ▸ mem_keys.mpr ⟨e.2, he⟩), he⟩
      · exact .inl rfl
    · rintro (rfl | ⟨-, he⟩)
      · exact .inr rfl
      · exact .inl he

theorem mem_pop {k : α} {e : α × β} : e ∈ (d.pop k).entries ↔ e.1 ≠ k ∧ e ∈ d.entries := by
  simp [pop, and_comm]

theorem get?_set (k : α) (v : β) (k' : α) :
    (d.set k v).get? k' = if k' = k then some v else d.get? k' := by
  refine Option.ext fun x => ?_
  rw [get?_eq_some, mem_set]
  by_cases hk : k' = k
  · simp [hk, eq_comm]
  · simp [hk, get?_eq_some]

theorem get?_pop (k k' : α) : (d.pop k).get? k' = if k' = k then none else d.get? k' := by
  refine Option.ext fun x => ?_
  rw [get?_eq_some, mem_pop]
  by_cases hk : k' = k
  · simp [hk]
  · simp [hk, get?_eq_some]

@[simp] theorem get?_set_self (k : α) (v : β) : (d.set k v).get? k = some v := by simp [get?_set]

@[simp] theorem get?_empty (k : α) : (empty : Dict α β).get? k = none := rfl

/-- Setting a key changes nothing if it had the value. -/
theorem set_eq_self_iff {k : α} {v : β} : d.set k v = d ↔ d.get? k = some v := by
  constructor
  · intro h
    rw [← h, get?_set_self]
  · intro h
    have hmem := get?_eq_some.mp h
    have hkey : k ∈ d.keys := mem_keys.mpr ⟨v, hmem⟩
    refine ext ?_
    rw [set, dif_pos hkey]
    refine (List.map_congr_left fun e he => ?_).trans (List.map_id _)
    split
    · rename_i heq
      subst heq
      exact Prod.ext rfl (value_unique hmem he)
    · rfl

theorem mem_keys_set {k k' : α} {v : β} : k' ∈ (d.set k v).keys ↔ k' = k ∨ k' ∈ d.keys := by
  simp only [mem_keys, mem_set]
  by_cases hk : k' = k <;> simp [hk]

theorem mem_keys_pop {k k' : α} : k' ∈ (d.pop k).keys ↔ k' ≠ k ∧ k' ∈ d.keys := by
  simp [mem_keys, mem_pop]

theorem entries_set_of_notMem {k : α} (h : k ∉ d.keys) (v : β) :
    (d.set k v).entries = d.entries ++ [(k, v)] := by rw [set, dif_neg h]

theorem values_set_of_notMem {k : α} (h : k ∉ d.keys) (v : β) :
    (d.set k v).values = d.values ++ [v] := by
  rw [values, entries_set_of_notMem h, List.map_append]
  rfl

theorem pop_of_notMem {k : α} (h : k ∉ d.keys) : d.pop k = d := by
  refine ext (List.filter_eq_self.mpr fun e he => ?_)
  have : e.1 ≠ k := fun hk => h (hk ▸ mem_keys.mpr ⟨e.2, he⟩)
  simpa using this

theorem keys_set_of_mem {k : α} (h : k ∈ d.keys) (v : β) : (d.set k v).keys = d.keys := by
  rw [set, dif_pos h, keys, keys, List.map_map]
  refine List.map_congr_left fun e _ => ?_
  by_cases he : e.1 = k <;> simp [he]

/-- A new value for a key that is present does not show where the old one looked the same. -/
theorem map_values_set {γ : Type*} {f : β → γ} {k : α} {v v' : β} (h : d.get? k = some v)
    (hf : f v' = f v) : (d.set k v').values.map f = d.values.map f := by
  rw [get?_eq_some] at h
  rw [set, dif_pos (mem_keys.mpr ⟨v, h⟩), values, values, List.map_map, List.map_map, List.map_map]
  refine List.map_congr_left fun e he => ?_
  by_cases hk : e.1 = k
  · have : e.2 = v := value_unique (k := k) (hk ▸ he) h
    simp [hk, hf, this]
  · simp [hk]

/-- Where a key lies, and what is left without it. -/
theorem exists_entries_of_get? {k : α} {v : β} (h : d.get? k = some v) :
    ∃ l l', d.entries = l ++ (k, v) :: l' ∧ (d.pop k).entries = l ++ l' := by
  obtain ⟨l, l', heq⟩ := List.append_of_mem (get?_eq_some.mp h)
  refine ⟨l, l', heq, ?_⟩
  have hnodup := d.nodup
  rw [heq, List.map_append, List.map_cons, List.nodup_append, List.nodup_cons] at hnodup
  have hl : ∀ e ∈ l, e.1 ≠ k := fun e he hk =>
    hnodup.2.2 e.1 (List.mem_map_of_mem he) k List.mem_cons_self hk
  have hl' : ∀ e ∈ l', e.1 ≠ k := by
    rintro e he rfl
    exact hnodup.2.1.1 (List.mem_map.mpr ⟨e, he, rfl⟩)
  change d.entries.filter (fun e => e.1 ≠ k) = l ++ l'
  rw [heq, List.filter_append, List.filter_cons_of_neg (by simp),
    List.filter_eq_self.mpr fun e he => by simpa using hl e he,
    List.filter_eq_self.mpr fun e he => by simpa using hl' e he]

theorem exists_map_values_of_get? {γ : Type*} (f : β → γ) {k : α} {v : β} (h : d.get? k = some v) :
    ∃ l l', d.values.map f = l ++ f v :: l' ∧ (d.pop k).values.map f = l ++ l' := by
  obtain ⟨l, l', hentries, hpop⟩ := exists_entries_of_get? h
  refine ⟨l.map fun e => f e.2, l'.map fun e => f e.2, ?_, ?_⟩
  · simp [values, hentries, Function.comp_def]
  · simp [values, hpop, Function.comp_def]

theorem length_keys_pop_le (k : α) : (d.pop k).keys.length ≤ d.keys.length :=
  (List.filter_sublist.map _).length_le

/-- New keys go to the end. -/
theorem keys_setAll {γ : Type*} {f : Dict α β → α → γ → β} {l : List (γ × α)}
    (hnodup : (l.map Prod.snd).Nodup) (hnew : ∀ k ∈ l.map Prod.snd, k ∉ d.keys) :
    (d.setAll f l).keys = d.keys ++ l.map Prod.snd := by
  induction l generalizing d with
  | nil => exact (List.append_nil _).symm
  | cons e rest ih =>
      obtain ⟨x, k⟩ := e
      rw [List.map_cons, List.nodup_cons] at hnodup
      have hk : k ∉ d.keys := hnew k List.mem_cons_self
      have hkeys : (d.set k (f d k x)).keys = d.keys ++ [k] := by
        rw [keys, entries_set_of_notMem hk, List.map_append]
        rfl
      rw [setAll, ih hnodup.2, hkeys, List.append_assoc, List.map_cons, List.singleton_append]
      intro k' hk' hmem
      rw [hkeys, List.mem_append, List.mem_singleton] at hmem
      rcases hmem with hmem | rfl
      · exact hnew k' (List.mem_cons_of_mem _ hk') hmem
      · exact hnodup.1 hk'

/-- A pair is one that was there, with another key, or comes from one of the new ones. -/
theorem mem_setAll {γ : Type*} {f : Dict α β → α → γ → β} {l : List (γ × α)} {e : α × β}
    (h : e ∈ (d.setAll f l).entries) :
    e ∈ d.entries ∧ e.1 ∉ l.map Prod.snd ∨ ∃ p ∈ l, ∃ d', e = (p.2, f d' p.2 p.1) := by
  induction l generalizing d with
  | nil => exact .inl ⟨h, List.not_mem_nil⟩
  | cons p rest ih =>
      obtain ⟨x, k⟩ := p
      rcases ih h with ⟨hset, hnew⟩ | ⟨p, hp, hfrom⟩
      · rcases mem_set.mp hset with rfl | ⟨hne, hold⟩
        · exact .inr ⟨(x, k), List.mem_cons_self, d, rfl⟩
        · refine .inl ⟨hold, fun hmem => ?_⟩
          exact (List.mem_cons.mp hmem).elim hne hnew
      · exact .inr ⟨p, List.mem_cons_of_mem _ hp, hfrom⟩

/-- What is seen of the values of new keys. -/
theorem map_values_setAll {γ δ : Type*} {f : Dict α β → α → γ → β} {l : List (γ × α)} (g : β → δ)
    (g' : γ → δ) (hg : ∀ d k x, g (f d k x) = g' x) (hnodup : (l.map Prod.snd).Nodup)
    (hnew : ∀ k ∈ l.map Prod.snd, k ∉ d.keys) :
    (d.setAll f l).values.map g = d.values.map g ++ (l.map Prod.fst).map g' := by
  induction l generalizing d with
  | nil => exact (List.append_nil _).symm
  | cons e rest ih =>
      obtain ⟨x, k⟩ := e
      rw [List.map_cons, List.nodup_cons] at hnodup
      have hk : k ∉ d.keys := hnew k List.mem_cons_self
      rw [setAll, ih hnodup.2, values_set_of_notMem hk, List.map_append, List.append_assoc]
      · simp [hg]
      intro k' hk' hmem
      rcases mem_keys_set.mp hmem with rfl | hmem
      · exact hnodup.1 hk'
      · exact hnew k' (List.mem_cons_of_mem _ hk') hmem

/-- A new key brings its value in once. -/
theorem count_values_set [DecidableEq β] {k : α} (h : k ∉ d.keys) (v x : β) :
    (d.set k v).values.count x = d.values.count x + if x = v then 1 else 0 := by
  rw [values_set_of_notMem h, List.count_append, List.count_singleton]
  by_cases hx : x = v
  · simp [hx]
  · simp [hx, Ne.symm hx]

/-- Popping a key takes its value away once. -/
theorem count_values_pop [DecidableEq β] {k : α} {v : β} (h : d.get? k = some v) (x : β) :
    d.values.count x = (d.pop k).values.count x + if x = v then 1 else 0 := by
  obtain ⟨entries, hnodup⟩ := d
  rw [get?_eq_some] at h
  simp only [values, pop] at h ⊢
  induction entries with
  | nil => cases h
  | cons e entries ih =>
      rw [List.map_cons, List.nodup_cons] at hnodup
      rcases List.mem_cons.mp h with rfl | hmem
      · have hself : entries.filter (fun e => e.1 ≠ k) = entries := by
          refine List.filter_eq_self.mpr fun e he => ?_
          have hmem : e.1 ∈ entries.map Prod.fst := List.mem_map_of_mem he
          have : e.1 ≠ k := fun hk => hnodup.1 (by rwa [hk] at hmem)
          simpa using this
        rw [List.filter_cons_of_neg (by simp), hself, List.map_cons, List.count_cons]
        by_cases hx : x = v
        · simp [hx]
        · simp [hx, Ne.symm hx]
      · have hne : e.1 ≠ k := fun hk => hnodup.1 (hk ▸ List.mem_map_of_mem hmem)
        rw [List.filter_cons_of_pos (by simpa using hne), List.map_cons, List.map_cons,
          List.count_cons, List.count_cons, ih hnodup.2 hmem]
        omega

/-! ## Renamed keys -/

/-- `d'` holds the values of `d` under renamed keys. -/
def Renames {γ : Type*} (f : α → γ) (d : Dict α β) (d' : Dict γ β) : Prop :=
  d'.entries = d.entries.map fun e => (f e.1, e.2)

section Renames
variable {γ : Type*} {f : α → γ} {d' : Dict γ β}

omit [DecidableEq α] in
theorem Renames.mem_keys (h : Renames f d d') {k : α} (hinj : ∀ k' ∈ d.keys, f k' = f k → k' = k) :
    f k ∈ d'.keys ↔ k ∈ d.keys := by
  have hkeys : d'.keys = d.keys.map f := by
    rw [keys, keys, h, List.map_map, List.map_map]
    rfl
  rw [hkeys, List.mem_map]
  constructor
  · rintro ⟨k', hk', heq⟩
    exact hinj k' hk' heq ▸ hk'
  · exact fun hk => ⟨k, hk, rfl⟩

variable [DecidableEq γ]

theorem Renames.get? (h : Renames f d d') {k : α} (hinj : ∀ k' ∈ d.keys, f k' = f k → k' = k) :
    d'.get? (f k) = d.get? k := by
  refine Option.ext fun v => ?_
  rw [get?_eq_some, get?_eq_some, h, List.mem_map]
  constructor
  · rintro ⟨⟨k', v'⟩, he, heq⟩
    obtain ⟨hk, rfl⟩ := Prod.mk.inj heq
    obtain rfl := hinj k' (Dict.mem_keys.mpr ⟨v', he⟩) hk
    exact he
  · exact fun he => ⟨(k, v), he, rfl⟩

theorem Renames.set (h : Renames f d d') {k : α} (hinj : ∀ k' ∈ d.keys, f k' = f k → k' = k)
    (v : β) : Renames f (d.set k v) (d'.set (f k) v) := by
  rw [Renames, Dict.set, Dict.set]
  by_cases hk : k ∈ d.keys
  · rw [dif_pos hk, dif_pos ((h.mem_keys hinj).mpr hk)]
    have hentries : d'.entries = d.entries.map fun e => (f e.1, e.2) := h
    simp only [hentries, List.map_map]
    refine List.map_congr_left fun e he => ?_
    by_cases heq : e.1 = k
    · simp [heq]
    · have hne : f e.1 ≠ f k := fun hf => heq (hinj e.1 (Dict.mem_keys.mpr ⟨e.2, he⟩) hf)
      simp [heq, hne]
  · rw [dif_neg hk, dif_neg fun hin => hk ((h.mem_keys hinj).mp hin)]
    have hentries : d'.entries = d.entries.map fun e => (f e.1, e.2) := h
    simp [hentries]

end Renames

end Dict
end MlxRuntime
