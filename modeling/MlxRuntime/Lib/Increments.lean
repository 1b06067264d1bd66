import Mathlib.Data.List.Basic
import Mathlib.Data.List.Infix

/-!
# Texts sent in increments

A text that grows is sent as what each version adds to the one before it.  A version that does
not start with the one before it is sent as a whole.

## Main definitions

* `increment`, `increments` — what is sent.
* `Grows` — every version starts with the one before it.
* `SendsOnce` — nothing of a version is sent that an earlier version starts with as well.
* `Renews` — a version that does not grow starts with a character that no earlier one starts with.
-/

namespace MlxRuntime.Increments

variable {α : Type} [DecidableEq α]

/-- What a version adds to the one before it. -/
def increment (previous version : List α) : List α :=
  if previous <+: version then version.drop previous.length else version

/-- What each version adds. -/
def increments : List α → List (List α) → List (List α)
  | _, [] => []
  | previous, version :: versions => increment previous version :: increments version versions

/-- Every version starts with the one before it. -/
def Grows : List α → List (List α) → Prop
  | _, [] => True
  | previous, version :: versions => previous <+: version ∧ Grows version versions

instance Grows.decidable : ∀ (previous : List α) (versions : List (List α)),
    Decidable (Grows previous versions)
  | _, [] => inferInstanceAs (Decidable True)
  | _, version :: versions =>
      have := Grows.decidable version versions
      inferInstanceAs (Decidable (_ ∧ _))

/-- What is sent for a version comes after all that the version has in common with an earlier
one. -/
def SendsOnce : List (List α) → List (List α) → List (List α) → Prop
  | _, [], [] => True
  | earlier, version :: versions, sent :: rest =>
      (∀ e ∈ earlier, ∀ common, common <+: e → common <+: version →
        ∃ before, common <+: before ∧ before ++ sent = version) ∧
      SendsOnce (version :: earlier) versions rest
  | _, _, _ => False

/-- Every version starts with the one before it, or its first character is new. -/
def Renews : List (List α) → List α → List (List α) → Prop
  | _, _, [] => True
  | earlier, previous, version :: versions =>
      ((previous ≠ [] ∧ previous <+: version) ∨
        ∀ e ∈ earlier, e = [] ∨ e.head? ≠ version.head?) ∧
      Renews (version :: earlier) version versions

instance Renews.decidable : ∀ (earlier : List (List α)) (previous : List α)
    (versions : List (List α)), Decidable (Renews earlier previous versions)
  | _, _, [] => inferInstanceAs (Decidable True)
  | earlier, _, version :: versions =>
      have := Renews.decidable (version :: earlier) version versions
      inferInstanceAs (Decidable (((_ ∧ _) ∨ _) ∧ _))

variable {earlier : List (List α)} {previous version : List α} {versions : List (List α)}

omit [DecidableEq α] in
/-- A first character is in common, or nothing is. -/
theorem common_eq_nil {e common : List α} (h : e = [] ∨ e.head? ≠ version.head?)
    (he : common <+: e) (hversion : common <+: version) : common = [] := by
  cases common with
  | nil => rfl
  | cons a common =>
      obtain ⟨rest, rfl⟩ := he
      obtain ⟨rest', rfl⟩ := hversion
      rcases h with h | h
      · cases h
      · exact absurd rfl h

theorem increment_of_prefix (h : previous <+: version) :
    previous ++ increment previous version = version := by
  rw [increment, if_pos h]
  exact (List.prefix_append_drop h).symm

theorem increment_of_not (h : ¬ (previous ≠ [] ∧ previous <+: version)) :
    increment previous version = version := by
  rw [increment]
  split
  · rename_i hextends
    obtain rfl : previous = [] := by
      by_contra hne
      exact h ⟨hne, hextends⟩
    rfl
  · rfl

/-- The earlier versions that the last one does not start with have another first character. -/
def Settled (earlier : List (List α)) (previous : List α) : Prop :=
  ∀ e ∈ earlier, e <+: previous ∨ e = [] ∨ e.head? ≠ previous.head?

omit [DecidableEq α] in
theorem Settled.renew (h : ∀ e ∈ earlier, e = [] ∨ e.head? ≠ version.head?) :
    Settled (version :: earlier) version := by
  intro e he
  rcases List.mem_cons.mp he with rfl | he
  · exact .inl List.prefix_rfl
  · exact .inr (h e he)

omit [DecidableEq α] in
theorem Settled.grow (h : Settled earlier previous) (hne : previous ≠ [])
    (hextends : previous <+: version) : Settled (version :: earlier) version := by
  have hhead : version.head? = previous.head? := by
    obtain ⟨rest, rfl⟩ := hextends
    exact List.head?_append_of_ne_nil _ hne
  intro e he
  rcases List.mem_cons.mp he with rfl | he
  · exact .inl List.prefix_rfl
  · rw [hhead]
    exact (h e he).imp_left fun he => he.trans hextends

/-- **Nothing is sent twice** just when every version grows or has a new first character. -/
theorem sendsOnce_increments_iff (h : Settled earlier previous) :
    SendsOnce earlier versions (increments previous versions) ↔
      Renews earlier previous versions := by
  induction versions generalizing earlier previous with
  | nil => exact Iff.rfl
  | cons version versions ih =>
      rw [increments, SendsOnce, Renews]
      by_cases hgrows : previous ≠ [] ∧ previous <+: version
      · -- what is in common with an earlier version is in the last one
        have honce : ∀ e ∈ earlier, ∀ common, common <+: e → common <+: version →
            ∃ before, common <+: before ∧ before ++ increment previous version = version := by
          intro e he common hcommon hversion
          have hhead : version.head? = previous.head? := by
            obtain ⟨rest, rfl⟩ := hgrows.2
            exact List.head?_append_of_ne_nil _ hgrows.1
          refine ⟨previous, ?_, increment_of_prefix hgrows.2⟩
          rcases h e he with hextends | hnew
          · exact hcommon.trans hextends
          · rw [common_eq_nil (hhead ▸ hnew) hcommon hversion]
            exact List.nil_prefix
        rw [ih (h.grow hgrows.1 hgrows.2)]
        exact and_congr_left fun _ => iff_of_true honce (.inl hgrows)
      · rw [increment_of_not hgrows, or_iff_right hgrows]
        constructor
        · rintro ⟨honce, hrest⟩
          have hnew : ∀ e ∈ earlier, e = [] ∨ e.head? ≠ version.head? := by
            intro e he
            by_contra hsame
            obtain ⟨hne, hhead⟩ := not_or.mp hsame
            rw [ne_eq, not_not] at hhead
            obtain ⟨a, rest, rfl⟩ := List.exists_cons_of_ne_nil hne
            obtain ⟨rest', rfl⟩ : ∃ rest', version = a :: rest' := by
              cases version with
              | nil => cases hhead
              | cons b rest' => exact ⟨rest', by rw [Option.some.inj hhead]⟩
            obtain ⟨before, hbefore, heq⟩ := honce _ he [a] ⟨rest, rfl⟩ ⟨rest', rfl⟩
            have hnil := List.append_left_eq_self.mp heq
            rw [hnil] at hbefore
            exact List.cons_ne_nil _ _ (List.prefix_nil.mp hbefore)
          exact ⟨hnew, (ih (.renew hnew)).mp hrest⟩
        · rintro ⟨hnew, hrest⟩
          refine ⟨fun e he common hcommon hversion => ⟨[], ?_, rfl⟩, (ih (.renew hnew)).mpr hrest⟩
          rw [common_eq_nil (hnew e he) hcommon hversion]

/-- What is sent for versions that grow is the last one. -/
theorem Grows.flatten (h : Grows previous versions) :
    previous ++ (increments previous versions).flatten = versions.getLastD previous := by
  induction versions generalizing previous with
  | nil => exact List.append_nil _
  | cons version versions ih =>
      rw [increments, List.flatten_cons, ← List.append_assoc, increment_of_prefix h.1, ih h.2,
        List.getLastD_cons]

omit [DecidableEq α] in
/-- Versions that grow are no reason to send anything twice. -/
theorem Grows.renews (h : Grows previous versions) (hearlier : ∀ e ∈ earlier, e <+: previous) :
    Renews earlier previous versions := by
  induction versions generalizing earlier previous with
  | nil => trivial
  | cons version versions ih =>
      refine ⟨?_, ih h.2 fun e he => ?_⟩
      · by_cases hnil : previous = []
        · refine .inr fun e he => .inl ?_
          rw [hnil] at hearlier
          exact List.prefix_nil.mp (hearlier e he)
        · exact .inl ⟨hnil, h.1⟩
      · rcases List.mem_cons.mp he with rfl | he
        · exact List.prefix_rfl
        · exact (hearlier e he).trans h.1

end MlxRuntime.Increments
