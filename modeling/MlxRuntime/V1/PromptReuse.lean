import MlxRuntime.Lib.FirstBest
import MlxRuntime.V1.PromptCacheStore
import MlxRuntime.V1.TextScheduler

/-!
# How much of a prompt is reused

The text path looks a prompt up and gives the generator what follows the tokens that were found.
What is found is worth the tokens it has in common with the prompt, but one token must be left, and
a prompt that is stored itself is not used at all.

## Main definitions

* `CompletionInput`, `completionInput` — what `complete_many` gives the generator.
* `PromptCacheStore.worth`, `PromptCacheStore.reusable` — what stored tokens are worth for a prompt.
* `PromptCacheStore.served` — the tokens that a lookup would find.
* `PromptCacheStore.lookup_eq_some` — what a lookup finds.
* `PromptCacheStore.longest_reuse` — what the text path skips.
-/

namespace MlxRuntime

/-- What the loop of `complete_many` keeps for a request. -/
structure CompletionInput (κ : Type) where
  effectivePrompt : List Token
  cacheInput : Option κ
  cachedPrefix : List Token
  promptCacheHit : Bool
  cachedTokenCount : ℕ
  promptCacheBytes : ℕ

/-- The body of that loop. -/
def completionInput {κ : Type} (tokens : List Token) (cachedPrompt : Option (CachedPrompt κ)) :
    CompletionInput κ :=
  let whole : CompletionInput κ := ⟨tokens, none, [], false, 0, 0⟩
  match cachedPrompt with
  | none => whole
  | some cached =>
      let suffix := tokens.drop cached.tokens.length
      if suffix = [] then whole
      else ⟨suffix, some cached.promptCache, cached.tokens, true, cached.tokens.length,
        cached.cacheBytes⟩

/-- The tokens of a prompt that the scheduler does not give to the generator. -/
def TextScheduler.skipped {ρ F κ : Type} (job : ScheduledRequest ρ F κ) : ℕ :=
  job.promptTokens.length - (insertOf job).1.prompt.length

/-- The tokens that `complete_many` does not give to it. -/
def CompletionInput.skipped {κ : Type} (tokens : List Token) (input : CompletionInput κ) : ℕ :=
  tokens.length - input.effectivePrompt.length

/-- The tokens that are skipped for what was found. -/
def skippedFor {κ : Type} (tokens : List Token) : Option (CachedPrompt κ) → ℕ
  | none => 0
  | some cached => if cached.tokens.length < tokens.length then cached.tokens.length else 0

theorem TextScheduler.skipped_eq {ρ F κ : Type} (job : ScheduledRequest ρ F κ) :
    skipped job = skippedFor job.promptTokens job.cachedPrompt := by
  rw [skipped, insertOf]
  cases hcached : job.cachedPrompt with
  | none => exact Nat.sub_self _
  | some cached =>
    dsimp only
    rw [skippedFor]
    split
    case isTrue hnil =>
      rw [if_neg (Nat.not_lt.mpr (List.drop_eq_nil_iff.mp hnil))]
      exact Nat.sub_self _
    case isFalse hrest =>
      have hlt : cached.tokens.length < job.promptTokens.length :=
        Nat.lt_of_not_le fun hle => hrest (List.drop_eq_nil_iff.mpr hle)
      rw [if_pos hlt]
      dsimp only
      rw [List.length_drop]
      omega

/-- Both paths skip the same. -/
theorem CompletionInput.skipped_eq {κ : Type} (tokens : List Token)
    (cached : Option (CachedPrompt κ)) :
    (completionInput tokens cached).skipped tokens = skippedFor tokens cached := by
  rw [skipped, completionInput.eq_def]
  cases cached with
  | none => exact Nat.sub_self _
  | some cached =>
    dsimp only
    rw [skippedFor]
    split
    case isTrue hnil =>
      rw [if_neg (Nat.not_lt.mpr (List.drop_eq_nil_iff.mp hnil))]
      exact Nat.sub_self _
    case isFalse hrest =>
      have hlt : cached.tokens.length < tokens.length :=
        Nat.lt_of_not_le fun hle => hrest (List.drop_eq_nil_iff.mpr hle)
      rw [if_pos hlt]
      dsimp only
      rw [List.length_drop]
      omega

/-! ## Common tokens -/

theorem commonPrefix_le_left (tokens tokens' : List Token) :
    commonPrefix tokens tokens' ≤ tokens.length := by
  induction tokens generalizing tokens' with
  | nil => cases tokens' <;> exact Nat.le_refl _
  | cons token tokens ih =>
    cases tokens' with
    | nil => exact Nat.zero_le _
    | cons token' tokens' =>
      rw [commonPrefix]
      split
      · exact Nat.succ_le_succ (ih tokens')
      · exact Nat.zero_le _

theorem commonPrefix_le_right (tokens tokens' : List Token) :
    commonPrefix tokens tokens' ≤ tokens'.length := by
  induction tokens generalizing tokens' with
  | nil => cases tokens' <;> exact Nat.zero_le _
  | cons token tokens ih =>
    cases tokens' with
    | nil => exact Nat.zero_le _
    | cons token' tokens' =>
      rw [commonPrefix]
      split
      · exact Nat.succ_le_succ (ih tokens')
      · exact Nat.zero_le _

/-- The tokens in common are the same. -/
theorem take_commonPrefix (tokens tokens' : List Token) :
    tokens.take (commonPrefix tokens tokens') = tokens'.take (commonPrefix tokens tokens') := by
  induction tokens generalizing tokens' with
  | nil => cases tokens' <;> rfl
  | cons token tokens ih =>
    cases tokens' with
    | nil => rfl
    | cons token' tokens' =>
      rw [commonPrefix]
      split
      case isTrue h => rw [List.take_succ_cons, List.take_succ_cons, h, ih]
      case isFalse => rfl

theorem commonPrefix_self (tokens : List Token) : commonPrefix tokens tokens = tokens.length := by
  induction tokens with
  | nil => rfl
  | cons token tokens ih => rw [commonPrefix, if_pos rfl, ih, List.length_cons]

/-- Tokens that are all in common are the first ones. -/
theorem prefix_of_commonPrefix {tokens tokens' : List Token}
    (h : commonPrefix tokens tokens' = tokens.length) : tokens <+: tokens' := by
  have htake := take_commonPrefix tokens tokens'
  rw [h, List.take_length] at htake
  rw [htake]
  exact List.take_prefix _ _

namespace PromptCacheStore

variable {ν κ : Type} {model : PromptCacheModel κ}

/-- What stored tokens are worth for a prompt. -/
def worth (promptTokens cachedTokens : List Token) : ℕ :=
  min (commonPrefix cachedTokens promptTokens) (promptTokens.length - 1)

/-- The tokens that a lookup would find in them. -/
def served (promptTokens cachedTokens : List Token) : ℕ :=
  if cachedTokens = promptTokens then promptTokens.length else worth promptTokens cachedTokens

/-- A lookup can find them. -/
def Serves (promptTokens cachedTokens : List Token) : Prop :=
  cachedTokens = [] ∨ cachedTokens = promptTokens ∨ 0 < worth promptTokens cachedTokens

instance (promptTokens cachedTokens : List Token) : Decidable (Serves promptTokens cachedTokens) :=
  inferInstanceAs (Decidable (_ ∨ _ ∨ _))

end PromptCacheStore

/-- Every cache can be trimmed. -/
def PromptCacheModel.Trims {κ : Type} (model : PromptCacheModel κ) : Prop :=
  ∀ promptCache n, (model.trim promptCache n).isSome

namespace PromptCacheStore

variable {ν κ : Type} {model : PromptCacheModel κ} {copy : ℕ} {promptTokens cachedTokens : List Token}
  {cached found : CachedPrompt κ}

/-- The tokens of a candidate. -/
theorem tokens_candidate
    (h : candidate model copy promptTokens cachedTokens cached = some found) :
    Serves promptTokens cachedTokens ∧
      found.tokens = promptTokens.take (served promptTokens cachedTokens) := by
  rw [candidate] at h
  dsimp only at h
  split at h
  case isTrue heq =>
    cases h
    exact ⟨.inr (.inl heq), by rw [served, if_pos heq, List.take_length]⟩
  case isFalse hne =>
    rw [served, if_neg hne]
    split at h
    case isTrue hshort =>
      cases h
      obtain ⟨hlength, hcommon⟩ := hshort
      have hinitial := prefix_of_commonPrefix hcommon
      have hworth : worth promptTokens cachedTokens = cachedTokens.length := by
        rw [worth, hcommon]
        omega
      refine ⟨?_, by rw [hworth]; exact (List.prefix_iff_eq_take.mp hinitial)⟩
      rw [Serves, hworth, List.length_pos_iff]
      by_cases hnil : cachedTokens = []
      · exact .inl hnil
      · exact .inr (.inr hnil)
    case isFalse hlong =>
      split at h
      case isTrue => cases h
      case isFalse hpos =>
        obtain ⟨trimmed, htrim, rfl⟩ := Option.map_eq_some_iff.mp h
        exact ⟨.inr (.inr (Nat.pos_of_ne_zero hpos)), rfl⟩

/-- What serves has a candidate, when it can be trimmed. -/
theorem candidate_of_serves (hserves : Serves promptTokens cachedTokens)
    (htrim : (model.trim cached.promptCache
      (cachedTokens.length - worth promptTokens cachedTokens)).isSome) :
    ∃ found, candidate model copy promptTokens cachedTokens cached = some found := by
  rw [candidate]
  dsimp only
  split
  case isTrue => exact ⟨_, rfl⟩
  case isFalse hne =>
    split
    case isTrue => exact ⟨_, rfl⟩
    case isFalse hlong =>
      have hpos : 0 < worth promptTokens cachedTokens := by
        rcases hserves with rfl | heq | hpos
        · refine absurd ⟨List.length_pos_iff.mpr fun h => hne h.symm, ?_⟩ hlong
          cases promptTokens <;> rfl
        · exact absurd heq hne
        · exact hpos
      obtain ⟨trimmed, htrimmed⟩ := Option.isSome_iff_exists.mp htrim
      rw [worth] at htrimmed hpos
      rw [if_neg (Nat.pos_iff_ne_zero.mp hpos), htrimmed]
      exact ⟨_, rfl⟩

variable [DecidableEq ν] {cacheKey : ν} {entries : List ((ν × List Token) × CachedPrompt κ)}

/-- An entry of the namespace has a candidate. -/
def offers (model : PromptCacheModel κ) (copy : ℕ) (promptTokens : List Token) (cacheKey : ν)
    (entry : (ν × List Token) × CachedPrompt κ) : Bool :=
  entry.1.1 = cacheKey ∧ (candidate model copy promptTokens entry.1.2 entry.2).isSome

theorem served_le (promptTokens cachedTokens : List Token) :
    served promptTokens cachedTokens ≤ promptTokens.length := by
  rw [served]
  split
  · exact Nat.le_refl _
  · exact Nat.le_trans (Nat.min_le_right _ _) (Nat.sub_le _ _)

/-- The number of tokens of a candidate. -/
theorem length_candidate
    (h : candidate model copy promptTokens cachedTokens cached = some found) :
    found.tokens.length = served promptTokens cachedTokens := by
  rw [(tokens_candidate h).2, List.length_take, Nat.min_eq_left (served_le _ _)]

theorem best_append_singleton (entry : (ν × List Token) × CachedPrompt κ) :
    best model copy promptTokens cacheKey (entries ++ [entry]) =
      if entry.1.1 ≠ cacheKey then best model copy promptTokens cacheKey entries
      else better (best model copy promptTokens cacheKey entries)
        (candidate model copy promptTokens entry.1.2 entry.2) := by
  rw [best, List.foldl_append]
  rfl

/-- The loop finds the candidate of the first entry that serves the most tokens. -/
theorem best_spec (h : best model copy promptTokens cacheKey entries = some found) :
    ∃ entry, FirstBest (fun entry => served promptTokens entry.1.2)
        (entries.filter (offers model copy promptTokens cacheKey)) entry ∧
      candidate model copy promptTokens entry.1.2 entry.2 = some found := by
  induction entries using List.reverseRecOn generalizing found with
  | nil => cases h
  | append_singleton entries entry ih =>
    rw [best_append_singleton] at h
    rw [List.filter_append]
    by_cases hoffers : offers model copy promptTokens cacheKey entry
    · obtain ⟨hkey, hsome⟩ := of_decide_eq_true hoffers
      obtain ⟨new, hnew⟩ := Option.isSome_iff_exists.mp hsome
      rw [if_neg (not_not.mpr hkey), hnew] at h
      rw [List.filter_cons_of_pos hoffers, List.filter_nil]
      cases hbest : best model copy promptTokens cacheKey entries with
      | none =>
        have hnil : entries.filter (offers model copy promptTokens cacheKey) = [] := by
          rw [List.filter_eq_nil_iff]
          intro other hother hoffer
          obtain ⟨hkey', hsome'⟩ := of_decide_eq_true hoffer
          rw [best_eq_none hbest other hother hkey'] at hsome'
          cases hsome'
        rw [hbest] at h
        obtain rfl := Option.some.inj h
        rw [hnil]
        exact ⟨entry, firstBest_singleton entry, hnew⟩
      | some old =>
        obtain ⟨first, hfirst, hold⟩ := ih hbest
        rw [hbest, better, length_candidate hold, length_candidate hnew] at h
        split at h
        case isTrue hlt =>
          obtain rfl := Option.some.inj h
          exact ⟨entry, hfirst.append_better hlt, hnew⟩
        case isFalse hle =>
          obtain rfl := Option.some.inj h
          exact ⟨first, hfirst.append_not_better (Nat.not_lt.mp hle), hold⟩
    · have hsame : best model copy promptTokens cacheKey entries = some found := by
        rw [← h]
        split
        case isTrue => rfl
        case isFalse hkey =>
          have hnone : candidate model copy promptTokens entry.1.2 entry.2 = none := by
            rw [← Option.not_isSome_iff_eq_none]
            exact fun hsome => hoffers (decide_eq_true ⟨not_not.mp hkey, hsome⟩)
          rw [hnone]
          cases best model copy promptTokens cacheKey entries <;> rfl
      rw [List.filter_cons_of_neg hoffers, List.filter_nil, List.append_nil]
      exact ih hsame

/-! ## The longest reuse -/

/-- The entries of a namespace, newest first. -/
def stored (s : PromptCacheStore ν κ) (cacheKey : ν) : List ((ν × List Token) × CachedPrompt κ) :=
  s.entries.entries.reverse.filter fun entry => entry.1.1 = cacheKey

/-- The most that an entry of the namespace is worth. -/
def reusable (s : PromptCacheStore ν κ) (promptTokens : List Token) (cacheKey : ν) : ℕ :=
  greatest (fun entry => worth promptTokens entry.1.2) (s.stored cacheKey)

variable {s : PromptCacheStore ν κ}

theorem mem_stored {entry : (ν × List Token) × CachedPrompt κ} :
    entry ∈ s.stored cacheKey ↔ entry ∈ s.entries.entries ∧ entry.1.1 = cacheKey := by
  rw [stored, List.mem_filter, List.mem_reverse, decide_eq_true_iff]

/-- What a lookup finds is that of the newest entry that serves the most tokens, of those that
can be found. -/
theorem lookup_eq_some (h : (s.lookup model promptTokens cacheKey).1 = some found) :
    ∃ entry, FirstBest (fun entry => served promptTokens entry.1.2)
        ((s.stored cacheKey).filter (offers model s.copies promptTokens cacheKey)) entry ∧
      candidate model s.copies promptTokens entry.1.2 entry.2 = some found := by
  obtain ⟨entry, hfirst, hcandidate⟩ := best_spec h
  refine ⟨entry, ?_, hcandidate⟩
  have hoffers : ∀ entry, (offers model s.copies promptTokens cacheKey entry &&
      decide (entry.1.1 = cacheKey)) = offers model s.copies promptTokens cacheKey entry := by
    intro entry
    cases hoffer : offers model s.copies promptTokens cacheKey entry with
    | false => rfl
    | true => rw [Bool.true_and, decide_eq_true (of_decide_eq_true hoffer).1]
  rw [stored, List.filter_filter, List.filter_congr fun entry _ => hoffers entry]
  exact hfirst

/-- A lookup finds something when an entry serves, and can be trimmed. -/
theorem lookup_isSome (htrim : model.Trims) {entry : (ν × List Token) × CachedPrompt κ}
    (hentry : entry ∈ s.stored cacheKey) (hserves : Serves promptTokens entry.1.2) :
    ((s.lookup model promptTokens cacheKey).1).isSome := by
  rw [Option.isSome_iff_ne_none]
  intro hnone
  obtain ⟨hmem, hkey⟩ := mem_stored.mp hentry
  obtain ⟨found, hfound⟩ : ∃ found, candidate model s.copies promptTokens entry.1.2 entry.2 =
      some found := candidate_of_serves hserves (htrim _ _)
  have hnone' := best_eq_none hnone entry (List.mem_reverse.mpr hmem) hkey
  rw [hfound] at hnone'
  cases hnone'

/-- An entry that offers nothing is worth nothing. -/
theorem worth_eq_zero (htrim : model.Trims) {entry : (ν × List Token) × CachedPrompt κ}
    (hkey : entry.1.1 = cacheKey) (h : offers model copy promptTokens cacheKey entry = false) :
    worth promptTokens entry.1.2 = 0 := by
  by_contra hpos
  obtain ⟨found, hfound⟩ : ∃ found, candidate model copy promptTokens entry.1.2 entry.2 =
      some found := candidate_of_serves (.inr (.inr (Nat.pos_of_ne_zero hpos))) (htrim _ _)
  have hoffers : offers model copy promptTokens cacheKey entry := by
    rw [offers, hfound]
    simp [hkey]
  rw [h] at hoffers
  cases hoffers

/-- A prompt that is stored itself is found, whole. -/
theorem skippedFor_of_stored (htrim : model.Trims)
    (h : (cacheKey, promptTokens) ∈ s.entries.keys) :
    skippedFor promptTokens (s.lookup model promptTokens cacheKey).1 = 0 := by
  obtain ⟨cached, hmem⟩ := Dict.mem_keys.mp h
  have hentry : ((cacheKey, promptTokens), cached) ∈ s.stored cacheKey :=
    mem_stored.mpr ⟨hmem, rfl⟩
  obtain ⟨found, hfound⟩ := Option.isSome_iff_exists.mp
    (lookup_isSome htrim hentry (.inr (.inl rfl)))
  obtain ⟨entry, hfirst, hcandidate⟩ := lookup_eq_some hfound
  have hexact : ((cacheKey, promptTokens), cached) ∈
      (s.stored cacheKey).filter (offers model s.copies promptTokens cacheKey) := by
    obtain ⟨own, hown⟩ : ∃ own, candidate model s.copies promptTokens promptTokens cached =
        some own := candidate_of_serves (.inr (.inl rfl)) (htrim _ _)
    exact List.mem_filter.mpr ⟨hentry, decide_eq_true ⟨rfl, by rw [hown]; rfl⟩⟩
  have hle := hfirst.1 _ hexact
  dsimp only at hle
  rw [served, if_pos rfl, ← length_candidate hcandidate] at hle
  rw [hfound, skippedFor, if_neg (Nat.not_lt.mpr hle)]

/-- Otherwise as many tokens are skipped as any entry is worth, and the newest of the best entries
serves them. -/
theorem skippedFor_of_not_stored (htrim : model.Trims)
    (h : (cacheKey, promptTokens) ∉ s.entries.keys) :
    skippedFor promptTokens (s.lookup model promptTokens cacheKey).1 =
        s.reusable promptTokens cacheKey ∧
      (0 < s.reusable promptTokens cacheKey → ∃ entry found,
        FirstBest (fun entry => worth promptTokens entry.1.2) (s.stored cacheKey) entry ∧
        candidate model s.copies promptTokens entry.1.2 entry.2 = some found ∧
        (s.lookup model promptTokens cacheKey).1 = some found) := by
  have hne : ∀ entry ∈ s.stored cacheKey, entry.1.2 ≠ promptTokens := by
    rintro ⟨⟨key, tokens⟩, cached⟩ hentry rfl
    obtain ⟨hmem, rfl⟩ := mem_stored.mp hentry
    exact h (Dict.mem_keys.mpr ⟨cached, hmem⟩)
  have hserved : ∀ entry ∈ s.stored cacheKey,
      served promptTokens entry.1.2 = worth promptTokens entry.1.2 := fun entry hentry => by
    rw [served, if_neg (hne entry hentry)]
  cases hlookup : (s.lookup model promptTokens cacheKey).1 with
  | none =>
    have hzero : s.reusable promptTokens cacheKey = 0 := by
      refine Nat.le_zero.mp (greatest_le fun entry hentry => ?_)
      by_contra hpos
      have hsome := lookup_isSome htrim hentry (.inr (.inr (Nat.lt_of_not_le hpos)))
      rw [hlookup] at hsome
      cases hsome
    rw [hzero]
    exact ⟨rfl, fun hpos => absurd hpos (Nat.lt_irrefl 0)⟩
  | some found =>
    obtain ⟨entry, hfirst, hcandidate⟩ := lookup_eq_some hlookup
    have hfilter := hfirst.congr fun other hother => hserved other (List.mem_of_mem_filter hother)
    have hentry := List.mem_of_mem_filter hfirst.mem
    have hlow : ∀ other ∈ s.stored cacheKey,
        offers model s.copies promptTokens cacheKey other = false →
        worth promptTokens other.1.2 = 0 := fun other hother hoffers =>
      worth_eq_zero htrim (mem_stored.mp hother).2 hoffers
    have hlength : found.tokens.length = worth promptTokens entry.1.2 := by
      rw [length_candidate hcandidate, hserved entry hentry]
    have hle : worth promptTokens entry.1.2 ≤
        greatest (fun entry => worth promptTokens entry.1.2) (s.stored cacheKey) :=
      @le_greatest _ (fun entry => worth promptTokens entry.1.2) _ entry hentry
    have hreusable : s.reusable promptTokens cacheKey = worth promptTokens entry.1.2 := by
      refine Nat.le_antisymm (greatest_le fun other hother => ?_) hle
      cases hoffers : offers model s.copies promptTokens cacheKey other with
      | true => exact hfilter.1 other (List.mem_filter.mpr ⟨hother, hoffers⟩)
      | false => rw [hlow other hother hoffers]; exact Nat.zero_le _
    have hshort : found.tokens.length < promptTokens.length := by
      have hpos : 0 < promptTokens.length := by
        refine List.length_pos_iff.mpr fun hnil => hne entry hentry ?_
        rcases (tokens_candidate hcandidate).1 with heq | heq | hpos
        · rw [heq, hnil]
        · exact heq
        · rw [worth, hnil] at hpos
          exact absurd hpos (by simp)
      rw [hlength, worth]
      omega
    rw [skippedFor, if_pos hshort, hreusable]
    refine ⟨hlength, fun hpos => ⟨entry, found, hfilter.of_filter ?_, hcandidate, rfl⟩⟩
    intro other hother hoffers
    rw [hlow other hother hoffers]
    exact hpos

/-- As many tokens are skipped as any entry is worth, and what is used is that of the newest of the
best entries. -/
def ReusesLongest (model : PromptCacheModel κ) (s : PromptCacheStore ν κ)
    (promptTokens : List Token) (cacheKey : ν) : Prop :=
  (completionInput promptTokens (s.lookup model promptTokens cacheKey).1).skipped promptTokens =
      s.reusable promptTokens cacheKey ∧
    ∀ found, (s.lookup model promptTokens cacheKey).1 = some found →
      found.tokens.length < promptTokens.length → ∃ entry,
        FirstBest (fun entry => worth promptTokens entry.1.2) (s.stored cacheKey) entry ∧
        candidate model s.copies promptTokens entry.1.2 entry.2 = some found

/-- The tokens that are skipped: none if the prompt is stored, and the most that an entry is worth
otherwise. -/
def skips (s : PromptCacheStore ν κ) (promptTokens : List Token) (cacheKey : ν) : ℕ :=
  if (cacheKey, promptTokens) ∈ s.entries.keys then 0 else s.reusable promptTokens cacheKey

/-- **The longest reuse**, on both paths of the text engine. -/
theorem longest_reuse {ρ F : Type} (htrim : model.Trims) (s : PromptCacheStore ν κ)
    (promptTokens : List Token) (cacheKey : ν) (job : ScheduledRequest ρ F κ) :
    TextScheduler.skipped { job with
        promptTokens := promptTokens
        cachedPrompt := (s.lookup model promptTokens cacheKey).1 } =
      s.skips promptTokens cacheKey ∧
    (completionInput promptTokens (s.lookup model promptTokens cacheKey).1).skipped promptTokens =
      s.skips promptTokens cacheKey ∧
    (0 < s.skips promptTokens cacheKey → ∃ entry found,
      FirstBest (fun entry => worth promptTokens entry.1.2) (s.stored cacheKey) entry ∧
      candidate model s.copies promptTokens entry.1.2 entry.2 = some found ∧
      (s.lookup model promptTokens cacheKey).1 = some found) := by
  rw [TextScheduler.skipped_eq, CompletionInput.skipped_eq, skips]
  split
  case isTrue h =>
    have hzero := skippedFor_of_stored htrim h
    exact ⟨hzero, hzero, fun hpos => absurd hpos (Nat.lt_irrefl 0)⟩
  case isFalse h =>
    obtain ⟨hskipped, hnewest⟩ := skippedFor_of_not_stored htrim h
    exact ⟨hskipped, hskipped, hnewest⟩

end PromptCacheStore

/-- Caches that are the tokens they cover. -/
def tokenCaches : PromptCacheModel (List Token) where
  nbytes := List.length
  isEmpty _ := false
  trim promptCache n := some (promptCache.take (promptCache.length - n))
  deepcopy _ promptCache := promptCache

namespace PromptCacheStore

/-- A store in which the tokens were remembered, in this order. -/
def remembering (prompts : List (List Token)) : PromptCacheStore Unit (List Token) :=
  prompts.foldl (fun s tokens => (s.remember tokenCaches tokens tokens ()).getD s) {}

theorem longest_reuse_tokenCaches :
    (remembering [[1, 2, 9], [1, 2, 3, 4]]).skips [1, 2, 3] () = 2 ∧
      (completionInput [1, 2, 3]
        ((remembering [[1, 2, 9], [1, 2, 3, 4]]).lookup tokenCaches [1, 2, 3] ()).1).skipped
          [1, 2, 3] = 2 := by
  have htrim : tokenCaches.Trims := fun _ _ => rfl
  have hskips : (remembering [[1, 2, 9], [1, 2, 3, 4]]).skips [1, 2, 3] () = 2 := by decide
  have hreuse := longest_reuse htrim (remembering [[1, 2, 9], [1, 2, 3, 4]]) [1, 2, 3] ()
    ({ request := ⟨0, "", [], 0, 0, 0, 0, 0, 0, [], false⟩, stream := false, promptTokens := [],
       cachedPrompt := none } : ScheduledRequest ℕ ℕ (List Token))
  rw [hskips] at hreuse
  exact ⟨hskips, hreuse.2.1⟩

/-- A prompt that is stored is not reused, though all of it but one token could be; and the tokens
of an empty prompt are found although a newer entry is worth as much. -/
theorem not_reusesLongest :
    ¬ ReusesLongest tokenCaches (remembering [[1, 2, 3]]) [1, 2, 3] () ∧
      ¬ ReusesLongest tokenCaches (remembering [[], [5]]) [1, 2] () := by
  constructor
  · rintro ⟨hskipped, -⟩
    revert hskipped
    decide
  · rintro ⟨-, hnewest⟩
    obtain ⟨entry, hfirst, hcandidate⟩ := hnewest ⟨[], [], 0, .shorterPrefix⟩ rfl (by decide)
    have hnewer : FirstBest (fun entry => worth [1, 2] entry.1.2)
        ((remembering [[], [5]]).stored ()) (((), [5]), ⟨[5], [5], 1, .exact⟩) :=
      ⟨by decide, [], ⟨_, rfl⟩, by simp⟩
    rw [hfirst.unique hnewer] at hcandidate
    cases hcandidate

end PromptCacheStore
end MlxRuntime
