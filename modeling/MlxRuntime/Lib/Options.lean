import MlxRuntime.Lib.Json

/-!
# Records of optional fields in JSON

A record with many optional fields is written and read by name, and each writer and
reader has its own list of the names it knows.  `Options T` holds a value or none for
every field of a table `T`; `write` and `read` go by such lists, and `read_write` says
which fields arrive.

Two readers are covered: one that takes any integer, and one that refuses integers
outside a field's width.

## Main definitions

* `FieldType`, `Table`, `Options` — typed optional fields.
* `Options.write`, `Options.read` — the members of an object, by the names known.
* `Options.keep` — the fields of some names.
-/

namespace MlxRuntime

/-- The types of fields; integers have the width a strict reader gives them. -/
inductive FieldType
  | string
  | bool
  | u32
  | u64
  deriving DecidableEq

namespace FieldType

/-- The values of a field. -/
def Value : FieldType → Type
  | .string => String
  | .bool => Bool
  | .u32 | .u64 => ℤ

/-- An unsigned integer of `w` bits. -/
def InWidth (w : ℕ) (n : ℤ) : Prop := 0 ≤ n ∧ n < 2 ^ w

instance InWidth.decidable (w : ℕ) (n : ℤ) : Decidable (InWidth w n) :=
  inferInstanceAs (Decidable (0 ≤ n ∧ n < 2 ^ w))

/-- The field has room for the value. -/
def Fits : (t : FieldType) → t.Value → Prop
  | .string, _ | .bool, _ => True
  | .u32, n => InWidth 32 n
  | .u64, n => InWidth 64 n

instance : (t : FieldType) → (x : t.Value) → Decidable (t.Fits x)
  | .string, _ | .bool, _ => .isTrue trivial
  | .u32, n => InWidth.decidable 32 n
  | .u64, n => InWidth.decidable 64 n

variable {F : Type}

def toJson : (t : FieldType) → t.Value → Json F
  | .string, s => .str s
  | .bool, b => .bool b
  | .u32, n | .u64, n => .int n

def ofJson : (t : FieldType) → Json F → Option t.Value
  | .string, .str s => some s
  | .bool, .bool b => some b
  | .u32, .int n | .u64, .int n => some n
  | _, _ => none

@[simp] theorem ofJson_toJson (t : FieldType) (x : t.Value) :
    t.ofJson (t.toJson x : Json F) = some x := by
  cases t <;> rfl

/-- A field that may be absent or null. -/
def readOption (t : FieldType) (strict : Bool) : Option (Json F) → Option (Option t.Value)
  | none | some .null => some none
  | some j =>
      match t.ofJson j with
      | some x => if strict ∧ ¬ t.Fits x then none else some (some x)
      | none => none

/-- A field that may be null. -/
def writeOption (t : FieldType) : Option t.Value → Json F
  | none => .null
  | some x => t.toJson x

theorem readOption_writeOption (t : FieldType) (strict : Bool) (x : Option t.Value)
    (h : ∀ y ∈ x, t.Fits y) : t.readOption strict (some (t.writeOption x : Json F)) = some x := by
  cases x with
  | none => rfl
  | some x =>
      have hx := h x rfl
      have hread : t.readOption strict (some (t.toJson x : Json F)) =
          if strict ∧ ¬ t.Fits x then none else some (some x) := by
        cases t <;> rfl
      rw [writeOption, hread, if_neg (fun hand => hand.2 hx)]

/-- A field that must be there. -/
def require (t : FieldType) (strict : Bool) (members : List (String × Json F)) (name : String) :
    Option t.Value := do
  let x ← t.ofJson (← Json.get? members name)
  if strict ∧ ¬ t.Fits x then none else some x

theorem require_eq_some {members : List (String × Json F)} (hnodup : (members.map Prod.fst).Nodup)
    (t : FieldType) (strict : Bool) {name : String} {x : t.Value}
    (h : (name, t.toJson x) ∈ members) (hx : t.Fits x) :
    t.require strict members name = some x := by
  rw [require, Json.get?_eq_some hnodup h]
  simp only [Option.bind_eq_bind, Option.bind_some, ofJson_toJson]
  exact if_neg fun hand => hand.2 hx

end FieldType

/-- The names and types of optional fields. -/
abbrev Table := List (String × FieldType)

/-- A value or none for every field. -/
def Options (T : Table) : Type := (i : Fin T.length) → Option (T.get i).2.Value

namespace Options

variable {T : Table} {F : Type}

/-- Only the fields of these names. -/
def keep (names : List String) (o : Options T) : Options T :=
  fun i => if (T.get i).1 ∈ names then o i else none

/-- One field. -/
def single (i : Fin T.length) (x : (T.get i).2.Value) : Options T :=
  fun j => if h : j = i then some (h ▸ x) else none

/-- Every value fits its field. -/
def Fits (o : Options T) : Prop := ∀ i, ∀ x ∈ o i, (T.get i).2.Fits x

/-- The value written under a name. -/
def json (o : Options T) (name : String) : Json F :=
  match (List.finRange T.length).find? fun i => (T.get i).1 = name with
  | some i => (T.get i).2.writeOption (o i)
  | none => .null

/-- The members of an object, in the order of the names. -/
def write (o : Options T) (names : List String) : List (String × Json F) :=
  names.map fun name => (name, o.json name)

/-- The fields of these names, `look` giving what an object has under a name. -/
def read (strict : Bool) (names : List String) (look : String → Option (Json F)) :
    Option (Options T) :=
  let field (i : Fin T.length) : Option (Option (T.get i).2.Value) :=
    if (T.get i).1 ∈ names then (T.get i).2.readOption strict (look (T.get i).1) else some none
  if ∀ i, (field i).isSome then some fun i => (field i).getD none else none

theorem json_get (o : Options T) (hnodup : (T.map Prod.fst).Nodup) (i : Fin T.length) :
    (o.json (T.get i).1 : Json F) = (T.get i).2.writeOption (o i) := by
  have hinj : ∀ j : Fin T.length, (T.get j).1 = (T.get i).1 → j = i := by
    intro j hj
    have h := List.nodup_iff_injective_get.mp hnodup
    have heq := @h ⟨j, by simp⟩ ⟨i, by simp⟩ (by simpa using hj)
    exact Fin.ext (Fin.mk.inj_iff.mp heq)
  rw [json]
  cases hfind : (List.finRange T.length).find? fun j => decide ((T.get j).1 = (T.get i).1) with
  | none => simpa using List.find?_eq_none.mp hfind i (List.mem_finRange i)
  | some j =>
      obtain rfl := hinj j (by simpa using List.find?_some hfind)
      rfl

/-- What is written fits a reader of 64-bit integers, and nests nowhere. -/
theorem regular_write (o : Options T) (h : o.Fits) (names : List String) :
    ∀ m ∈ (o.write names : List (String × Json F)), m.2.Regular ∧ m.2.depth = 0 := by
  have hvalue : ∀ (t : FieldType) (x : Option t.Value), (∀ y ∈ x, t.Fits y) →
      (t.writeOption x : Json F).Regular ∧ (t.writeOption x : Json F).depth = 0 := by
    intro t x hx
    cases x with
    | none => exact ⟨trivial, rfl⟩
    | some x =>
        have hfit := hx x rfl
        refine ⟨?_, by cases t <;> rfl⟩
        cases t with
        | string => trivial
        | bool => trivial
        | u32 => exact ⟨by have := hfit.1; omega, by have := hfit.2; omega⟩
        | u64 => exact ⟨by have := hfit.1; omega, hfit.2⟩
  intro m hm
  obtain ⟨name, -, rfl⟩ := List.mem_map.mp hm
  rw [json]
  split
  · exact hvalue _ _ (h _)
  · exact ⟨trivial, rfl⟩

/-- **What arrives**: the fields of the names that writer and reader both know. -/
theorem read_write (o : Options T) (hnodup : (T.map Prod.fst).Nodup) (strict : Bool)
    {written names : List String} {look : String → Option (Json F)} (hfits : o.Fits)
    (hlook : ∀ name ∈ T.map Prod.fst,
      look name = if name ∈ written then some (o.json name) else none) :
    read strict names look = some ((o.keep written).keep names) := by
  have hfield : ∀ i : Fin T.length,
      (if (T.get i).1 ∈ names then (T.get i).2.readOption strict (look (T.get i).1)
        else some none) = some ((o.keep written).keep names i) := by
    intro i
    rw [keep, keep, hlook _ (List.mem_map_of_mem (List.get_mem T i))]
    split
    · split
      · rw [json_get o hnodup i, FieldType.readOption_writeOption _ _ _ (hfits i)]
      · rfl
    · rfl
  rw [read]
  dsimp only
  rw [if_pos (fun i => by rw [hfield i]; rfl)]
  refine congrArg some (funext fun i => ?_)
  rw [hfield i]
  rfl

theorem names_write (o : Options T) (names : List String) :
    (o.write names : List (String × Json F)).map Prod.fst = names := by
  rw [write, List.map_map]
  exact List.map_id names

/-- What an object has under the name of a field. -/
theorem get?_append_write (o : Options T) {head : List (String × Json F)} {names : List String}
    (hnodup : (head.map Prod.fst ++ names).Nodup) {name : String}
    (hname : name ∉ head.map Prod.fst) :
    Json.get? (head ++ o.write names) name =
      if name ∈ names then some (o.json name) else none := by
  have hkeys : (head ++ o.write names).map Prod.fst = head.map Prod.fst ++ names := by
    rw [List.map_append, names_write]
  split
  case isTrue hmem =>
    exact Json.get?_eq_some (hkeys ▸ hnodup)
      (List.mem_append_right _ (List.mem_map.mpr ⟨name, hmem, rfl⟩))
  case isFalse hmem =>
    refine Json.get?_eq_none ?_
    rw [hkeys, List.mem_append]
    exact not_or.mpr ⟨hname, hmem⟩

theorem fits_single {i : Fin T.length} {x : (T.get i).2.Value} (h : (T.get i).2.Fits x) :
    (single i x).Fits := by
  intro j y hy
  rw [single] at hy
  split at hy
  case isTrue hj =>
    subst hj
    rwa [← Option.some.inj hy]
  case isFalse => cases hy

theorem keep_names (o : Options T) : o.keep (T.map Prod.fst) = o :=
  funext fun i => if_pos (List.mem_map_of_mem (List.get_mem T i))

theorem keep_keep (o : Options T) {names names' : List String}
    (h : ∀ name ∈ names, name ∈ names') : (o.keep names').keep names = o.keep names := by
  funext i
  rw [keep, keep, keep]
  split
  case isTrue hmem => rw [if_pos (h _ hmem)]
  case isFalse => rfl

/-- Nothing is lost exactly when the other fields are empty. -/
theorem keep_eq_self_iff (o : Options T) {names : List String} :
    o.keep names = o ↔ ∀ i, (T.get i).1 ∉ names → o i = none := by
  refine ⟨fun h i hi => ?_, fun h => funext fun i => ?_⟩
  · rw [← congrFun h i, keep, if_neg hi]
  · rw [keep]
    split
    · rfl
    case isFalse hi => exact (h i hi).symm

end Options
end MlxRuntime
