import MlxRuntime.Prefix.Reuse

/-!
# Block-hash entries that a lookup can reach

A lookup walks the chain of hashes from the first page and stops at the first page without an
entry, so an entry is found only when every shorter part of its chain has one.  A publication
stores a chain from its start.  An eviction takes the entry that was used longest ago, whatever
hangs on it, and a lookup refreshes the deepest entry of its chain only: the entries before that
one may go first.

## Main definitions

* `InjectiveHash` — what is asked of the page hash.
* `BlockHashPrefixCache.Rooted` — every entry is the first of its chain, or its parent is stored.
* `BlockHashPrefixCache.EvictsLeaves` — the rounds of an eviction take entries without children.
* `PrefixStore.rooted_of_evictsLeaves` — the entries of a run whose evictions do so.
-/

namespace MlxRuntime

variable {ρ κ η : Type}

/-- The hash of a page tells its parent and its tokens, and no page has the hash that stands for
no parent. -/
structure InjectiveHash (pageHash : η → List Token → η) (noParent : η) : Prop where
  inj : ∀ {parent page parent' page'}, pageHash parent page = pageHash parent' page' →
    parent = parent' ∧ page = page'
  ne_noParent : ∀ parent page, pageHash parent page ≠ noParent

namespace BlockHashPrefixCache

open Indexes (chainPart)

variable {c c' : BlockHashPrefixCache ρ η} {s s' : PagedKVCacheBackend ρ κ}

/-- The hash of a chain tells how many pages it has, and their tokens. -/
theorem chainHash_inj (hhash : InjectiveHash c.pageHash c.noParent) {tokens tokens' : List Token}
    {i j : ℕ} (h : c.chainHash tokens i = c.chainHash tokens' j) :
    i = j ∧ tokens.take (i * c.pageSize) = tokens'.take (j * c.pageSize) := by
  induction i generalizing j with
  | zero =>
      cases j with
      | zero => simp
      | succ j => exact absurd h.symm (hhash.ne_noParent _ _)
  | succ i ih =>
      cases j with
      | zero => exact absurd h (hhash.ne_noParent _ _)
      | succ j =>
          obtain ⟨hparent, hpage⟩ := hhash.inj h
          obtain ⟨rfl, hbefore⟩ := ih hparent
          refine ⟨rfl, ?_⟩
          rw [Nat.add_mul, Nat.one_mul, List.take_add, List.take_add, hbefore, hpage]

/-- An entry is filed under the hash of its tokens, which are `pages + 1` whole pages; its parent
is the hash of all but the last. -/
structure Chained (chainHash : List Token → ℕ → η) (pageSize : ℕ) (digest : String) (hash : η)
    (entry : BlockEntry η) (pages : ℕ) : Prop where
  hash_eq : entry.blockHash = hash
  digest_eq : entry.compatibilityDigest = digest
  cachedLength_eq : entry.cachedLength = (pages + 1) * pageSize
  length_eq : entry.tokenPrefix.length = entry.cachedLength
  chain : chainHash entry.tokenPrefix (pages + 1) = hash
  parent : entry.parentHash = chainHash entry.tokenPrefix pages

/-- The entry under the hash of a chain has the tokens of the chain. -/
theorem Chained.of_chainHash (hhash : InjectiveHash c.pageHash c.noParent) {hash : η}
    {e : BlockEntry η} {pages i : ℕ} {tokens : List Token}
    (h : Chained c.chainHash c.pageSize c.compatibilityDigest hash e pages)
    (hchain : c.chainHash tokens i = hash) :
    pages + 1 = i ∧ e.tokenPrefix = tokens.take e.cachedLength := by
  obtain ⟨rfl, htokens⟩ := chainHash_inj hhash (h.chain.trans hchain.symm)
  rw [← h.cachedLength_eq, ← h.length_eq, List.take_length] at htokens
  rw [← h.length_eq]
  exact ⟨rfl, htokens⟩

variable [DecidableEq η]

/-- Every stored entry is the first of its chain, or its parent is stored too. -/
def Rooted (c : BlockHashPrefixCache ρ η) : Prop :=
  ∀ {hash e}, c.entries.get? hash = some e → e.parentHash ≠ c.noParent →
    e.parentHash ∈ c.entries.keys

/-- No stored entry has the parent `hash`. -/
def Childless (c : BlockHashPrefixCache ρ η) (hash : η) : Prop :=
  ∀ child ∈ c.entries.values, child.parentHash ≠ hash

instance (c : BlockHashPrefixCache ρ η) (hash : η) : Decidable (c.Childless hash) :=
  inferInstanceAs (Decidable (∀ child ∈ c.entries.values, _))

/-- The rounds of `_evict_until_within_limits` take entries without children. -/
def EvictsLeaves (protected_ : Option η) : ℕ → BlockHashPrefixCache ρ η → Prop
  | 0, _ => True
  | rounds + 1, c => c.OverLimits → ∀ entry ∈ c.victim protected_,
      c.Childless entry.blockHash ∧
        EvictsLeaves protected_ rounds { c with entries := c.entries.pop entry.blockHash }

instance EvictsLeaves.decidable (protected_ : Option η) :
    ∀ (rounds : ℕ) (c : BlockHashPrefixCache ρ η), Decidable (EvictsLeaves protected_ rounds c)
  | 0, _ => inferInstanceAs (Decidable True)
  | rounds + 1, c =>
      have := fun c : BlockHashPrefixCache ρ η => EvictsLeaves.decidable protected_ rounds c
      inferInstanceAs (Decidable (c.OverLimits → ∀ entry ∈ c.victim protected_,
        c.Childless entry.blockHash ∧
          EvictsLeaves protected_ rounds { c with entries := c.entries.pop entry.blockHash }))

/-- The index in which `publish` evicts, and the hash that it protects. -/
def publishEvicts (c : BlockHashPrefixCache ρ η) (s : PagedKVCacheBackend ρ κ) (handle : Handle)
    (tokens : List Token) (committedLength : ℕ) : Option (Option η × BlockHashPrefixCache ρ η) :=
  let publishLength := min committedLength tokens.length / c.pageSize * c.pageSize
  if publishLength = 0 then none
  else
    let chain := (c.hashChain (tokens.take publishLength)).take (c.publishableChainPages s)
    match publishChain handle tokens c.tick.1 chain 0 c.tick.2 s with
    | (.error _, _, _) => none
    | (.ok _, c', _) => some (some ((chain.map Prod.fst).getLastD c'.noParent), c')

/-- The index in which `release` evicts: the handle no longer pins its entry. -/
def releaseEvicts (c : BlockHashPrefixCache ρ η) (handle : Handle) :
    Option (Option η × BlockHashPrefixCache ρ η) :=
  (c.activeHandles.get? handle).map fun hash =>
    let c := { c with activeHandles := c.activeHandles.pop handle }
    (none, match c.entries.get? hash with
      | none => c
      | some entry =>
          { c with entries := c.entries.set hash { entry with pins := entry.pins - 1 } })

/-- The invariant: the entries are filed under their chains, and hang on stored ones. -/
structure Reaches (c : BlockHashPrefixCache ρ η) : Prop where
  pageSize_pos : 0 < c.pageSize
  hash : InjectiveHash c.pageHash c.noParent
  chained : ∀ {hash e}, c.entries.get? hash = some e → ∃ pages,
    Chained c.chainHash c.pageSize c.compatibilityDigest hash e pages
  rooted : c.Rooted

namespace Reaches

/-! ## Lookup -/

/-- The first pages of a stored chain are stored. -/
theorem stored_before (h : c.Reaches) {hash : η} {e : BlockEntry η} {pages : ℕ}
    (hget : c.entries.get? hash = some e)
    (hchained : Chained c.chainHash c.pageSize c.compatibilityDigest hash e pages) {i : ℕ}
    (hi : i ≤ pages) : ∃ e', c.entries.get? (c.chainHash e.tokenPrefix (i + 1)) = some e' := by
  -- from the last page down: the parent of a stored page is stored
  obtain ⟨k, rfl⟩ := Nat.exists_eq_add_of_le hi
  clear hi
  induction k generalizing i with
  | zero =>
      refine ⟨e, ?_⟩
      rw [Nat.add_zero] at hchained
      rw [hchained.chain, hget]
  | succ k ih =>
      obtain ⟨child, hchild⟩ := ih (by rwa [Nat.add_right_comm, Nat.add_assoc])
      obtain ⟨n, hn⟩ := h.chained hchild
      obtain ⟨hpages, htokens⟩ := hn.of_chainHash h.hash rfl
      obtain rfl : n = i + 1 := by omega
      have hparent : child.parentHash = c.chainHash e.tokenPrefix (i + 1) := by
        rw [hn.parent, htokens]
        refine chainHash_congr ?_
        rw [List.take_take, min_eq_left]
        rw [hn.cachedLength_eq]
        exact Nat.mul_le_mul_right _ (Nat.le_succ _)
      have hne : child.parentHash ≠ c.noParent := by
        rw [hparent]
        exact h.hash.ne_noParent _ _
      obtain ⟨e', hmem⟩ := Dict.mem_keys.mp (h.rooted hchild hne)
      rw [hparent] at hmem
      exact ⟨e', Dict.get?_eq_some.mpr hmem⟩

/-- A walk along a chain whose pages are all stored ends at the last of them. -/
theorem lookupChain_eq (h : c.Reaches) {tokens : List Token} {e : BlockEntry η} {start pages : ℕ}
    (hstored : ∀ i, start ≤ i → i ≤ start + pages →
      ∃ e', c.entries.get? (c.chainHash tokens (i + 1)) = some e')
    (hlast : c.entries.get? (c.chainHash tokens (start + pages + 1)) = some e)
    (best : Option (BlockEntry η)) :
    c.lookupChain tokens (chainPart c tokens start (pages + 1)) best = some e := by
  induction pages generalizing start best with
  | zero =>
      obtain ⟨n, hn⟩ := h.chained hlast
      have htokens := (hn.of_chainHash h.hash rfl).2
      rw [chainPart, List.range'_succ, List.map_cons, lookupChain]
      rw [Nat.add_zero] at hlast
      rw [hlast]
      simp [hn.digest_eq, htokens.symm, lookupChain]
  | succ pages ih =>
      obtain ⟨e', hget⟩ := hstored start le_rfl (Nat.le_add_right _ _)
      obtain ⟨n, hn⟩ := h.chained hget
      have htokens := (hn.of_chainHash h.hash rfl).2
      rw [chainPart, List.range'_succ, List.map_cons, lookupChain, hget, ← chainPart]
      dsimp only
      rw [if_neg (by simp [hn.digest_eq, htokens.symm])]
      refine ih (fun i hi hle => hstored i (by omega) (by omega)) ?_ _
      rwa [Nat.add_right_comm start 1, Nat.add_assoc start pages 1]

/-- **Every entry is found**, by a prompt that goes on after its tokens. -/
theorem lookup_eq (h : c.Reaches) {hash : η} {e : BlockEntry η}
    (hget : c.entries.get? hash = some e) (token : Token) :
    c.lookup (e.tokenPrefix ++ [token]) = some e := by
  obtain ⟨pages, hchained⟩ := h.chained hget
  have hlength : e.tokenPrefix.length = (pages + 1) * c.pageSize :=
    hchained.length_eq.trans hchained.cachedLength_eq
  have hmax : maxReusable c.pageSize (e.tokenPrefix ++ [token]) = e.tokenPrefix.length := by
    rw [maxReusable, List.length_append, List.length_singleton, Nat.add_sub_cancel, hlength,
      Nat.mul_div_cancel _ h.pageSize_pos]
  have hpos : e.tokenPrefix.length ≠ 0 := by
    rw [hlength]
    exact (Nat.mul_pos (Nat.succ_pos _) h.pageSize_pos).ne'
  have hsame : ∀ i ≤ pages + 1,
      c.chainHash (e.tokenPrefix ++ [token]) i = c.chainHash e.tokenPrefix i := by
    intro i hi
    refine chainHash_congr ?_
    rw [List.take_append_of_le_length]
    rw [hlength]
    exact Nat.mul_le_mul_right _ hi
  have hchain : c.hashChain ((e.tokenPrefix ++ [token]).take e.tokenPrefix.length) =
      chainPart c (e.tokenPrefix ++ [token]) 0 (pages + 1) := by
    rw [hashChain_take (by simp), hlength, Nat.mul_div_cancel _ h.pageSize_pos,
      List.range_eq_range', chainPart]
  rw [lookup, hmax, if_neg hpos, hchain]
  refine h.lookupChain_eq (fun i _ hi => ?_) ?_ none
  · rw [hsame _ (by omega)]
    exact h.stored_before hget hchained (by omega)
  · rw [hsame _ (by omega), Nat.zero_add, hchained.chain]
    exact hget

/-! ## What the methods keep -/

/-- An entry may be touched, and pinned or unpinned. -/
theorem update (h : c.Reaches) {hash : η} {e : BlockEntry η} (hget : c.entries.get? hash = some e)
    (lastUsed pins : ℕ) : Reaches { c with
      entries := c.entries.set hash { e with lastUsed := lastUsed, pins := pins } } := by
  have hold : ∀ {hash' e'},
      (c.entries.set hash { e with lastUsed := lastUsed, pins := pins }).get? hash' = some e' →
      ∃ e'', c.entries.get? hash' = some e'' ∧
        e' = { e'' with lastUsed := e'.lastUsed, pins := e'.pins } := by
    intro hash' e' hget'
    rw [Dict.get?_set] at hget'
    split at hget'
    case isTrue heq =>
      obtain rfl := Option.some.inj hget'
      exact ⟨e, heq ▸ hget, rfl⟩
    case isFalse => exact ⟨e', hget', rfl⟩
  refine ⟨h.pageSize_pos, h.hash, fun {hash' e'} hget' => ?_, fun {hash' e'} hget' hne => ?_⟩
  · obtain ⟨e'', hget'', heq⟩ := hold hget'
    obtain ⟨pages, hchained⟩ := h.chained hget''
    rw [heq]
    exact ⟨pages, { hchained with }⟩
  · obtain ⟨e'', hget'', heq⟩ := hold hget'
    have hsame : e'.parentHash = e''.parentHash := by rw [heq]
    rw [hsame] at hne ⊢
    exact Dict.mem_keys_set.mpr (.inr (h.rooted hget'' hne))

/-- The clock and the active handles are no part of it. -/
theorem of_clock (h : c.Reaches) (active : Dict Handle η) (clock : ℕ) (readings : ClockReadings) :
    Reaches { c with activeHandles := active, clock := clock, readings := readings } :=
  ⟨h.pageSize_pos, h.hash, h.chained, h.rooted⟩

/-- A page is stored whose parent is. -/
theorem insert (h : c.Reaches) {hash : η} {e : BlockEntry η} {pages : ℕ}
    (hchained : Chained c.chainHash c.pageSize c.compatibilityDigest hash e pages)
    (hparent : e.parentHash ≠ c.noParent → e.parentHash ∈ c.entries.keys) :
    Reaches { c with entries := c.entries.set hash e } := by
  refine ⟨h.pageSize_pos, h.hash, fun {hash' e'} hget => ?_, fun {hash' e'} hget hne => ?_⟩
  · rw [Dict.get?_set] at hget
    split at hget
    case isTrue heq =>
      obtain rfl := Option.some.inj hget
      exact ⟨pages, heq ▸ hchained⟩
    case isFalse => exact h.chained hget
  · rw [Dict.get?_set] at hget
    refine Dict.mem_keys_set.mpr (.inr ?_)
    split at hget
    case isTrue =>
      obtain rfl := Option.some.inj hget
      exact hparent hne
    case isFalse => exact h.rooted hget hne

/-- **An entry may go** just when no other hangs on it. -/
theorem rooted_pop_iff (h : c.Reaches) {hash : η} (hmem : hash ∈ c.entries.keys) :
    Rooted { c with entries := c.entries.pop hash } ↔ c.Childless hash := by
  have hpop : ∀ {hash' e'}, (c.entries.pop hash).get? hash' = some e' ↔
      hash' ≠ hash ∧ c.entries.get? hash' = some e' := by
    intro hash' e'
    rw [Dict.get?_pop]
    split
    case isTrue heq => simp [heq]
    case isFalse hne => simp [hne]
  have hparent : hash ≠ c.noParent := by
    obtain ⟨e, he⟩ := Dict.mem_keys.mp hmem
    obtain ⟨pages, hchained⟩ := h.chained (Dict.get?_eq_some.mpr he)
    rw [← hchained.chain]
    exact h.hash.ne_noParent _ _
  constructor
  · intro hrooted child hchild heq
    obtain ⟨hash', hentry⟩ := Dict.mem_values.mp hchild
    have hget := Dict.get?_eq_some.mpr hentry
    obtain ⟨pages, hchained⟩ := h.chained hget
    -- no page is its own parent
    have hne : hash' ≠ hash := by
      rintro rfl
      have hself := hchained.chain.trans (heq.symm.trans hchained.parent)
      have := (chainHash_inj h.hash hself).1
      omega
    have hstored := hrooted (hpop.mpr ⟨hne, hget⟩) (heq ▸ hparent)
    rw [heq] at hstored
    exact (Dict.mem_keys_pop.mp hstored).1 rfl
  · intro hleaf hash' e' hget hne
    obtain ⟨-, hget⟩ := hpop.mp hget
    refine Dict.mem_keys_pop.mpr ⟨?_, h.rooted hget hne⟩
    exact hleaf e' (Dict.mem_values.mpr ⟨hash', Dict.get?_eq_some.mp hget⟩)

theorem pop (h : c.Reaches) {hash : η} (hmem : hash ∈ c.entries.keys)
    (hleaf : c.Childless hash) : Reaches { c with entries := c.entries.pop hash } := by
  refine ⟨h.pageSize_pos, h.hash, fun {hash' e'} hget => ?_, (h.rooted_pop_iff hmem).mpr hleaf⟩
  rw [Dict.get?_pop] at hget
  split at hget
  · cases hget
  · exact h.chained hget

/-- What is evicted is stored, under its hash. -/
theorem victim_mem (h : c.Reaches) {protected_ : Option η} {e : BlockEntry η}
    (hvictim : c.victim protected_ = some e) : e.blockHash ∈ c.entries.keys := by
  have hmem := (List.mem_filter.mp (mem_of_firstMin hvictim)).1
  obtain ⟨hash, hentry⟩ := Dict.mem_values.mp hmem
  obtain ⟨pages, hchained⟩ := h.chained (Dict.get?_eq_some.mpr hentry)
  rw [hchained.hash_eq]
  exact Dict.mem_keys.mpr ⟨e, hentry⟩

theorem evictRounds (h : c.Reaches) {protected_ : Option η} {rounds : ℕ}
    (hleaves : EvictsLeaves protected_ rounds c) (s : PagedKVCacheBackend ρ κ) :
    (BlockHashPrefixCache.evictRounds protected_ rounds c s).2.1.Reaches := by
  induction rounds generalizing c s with
  | zero => exact h
  | succ rounds ih =>
      rw [BlockHashPrefixCache.evictRounds]
      by_cases hover : c.OverLimits
      case neg => rwa [if_neg hover]
      rw [if_pos hover]
      cases hvictim : c.victim protected_ with
      | none => exact h
      | some e =>
          obtain ⟨hleaf, hrest⟩ := hleaves hover e hvictim
          have hpopped := h.pop (h.victim_mem hvictim) hleaf
          dsimp only
          cases s.release (some e.cacheHandle) with
          | mk result s' =>
              cases result with
              | error e => exact hpopped
              | ok => exact ih hpopped hrest s'

/-- The loop of `publish` goes on from a stored page. -/
theorem publishChain (h : c.Reaches) (handle : Handle) {tokens : List Token} (now : ℕ)
    {start pages : ℕ} (published : ℕ) (s : PagedKVCacheBackend ρ κ)
    (hle : (start + pages) * c.pageSize ≤ tokens.length)
    (hbefore : c.chainHash tokens start ≠ c.noParent → c.chainHash tokens start ∈ c.entries.keys) :
    (BlockHashPrefixCache.publishChain handle tokens now (chainPart c tokens start pages) published
      c s).2.1.Reaches := by
  induction pages generalizing c s start published with
  | zero => exact h
  | succ pages ih =>
      rw [chainPart, List.range'_succ, List.map_cons, BlockHashPrefixCache.publishChain,
        ← chainPart]
      have hnext : (start + 1 + pages) * c.pageSize ≤ tokens.length := by
        rwa [Nat.add_right_comm, Nat.add_assoc]
      by_cases hnew : c.chainHash tokens (start + 1) ∈ c.entries.keys
      · rw [if_pos hnew]
        exact ih h published s hnext fun _ => hnew
      rw [if_neg hnew]
      cases s.fork handle (c.snapshotId (c.chainHash tokens (start + 1)))
          (some (((start + 1) * c.pageSize : ℕ) : ℤ)) with
      | mk result s' =>
          cases result with
          | error e => exact h
          | ok snapshot =>
              have hlength : (start + 1) * c.pageSize ≤ tokens.length :=
                (Nat.mul_le_mul_right _ (by omega)).trans hnext
              have hsame : ∀ i ≤ start + 1,
                  c.chainHash (tokens.take ((start + 1) * c.pageSize)) i =
                    c.chainHash tokens i := by
                intro i hi
                refine chainHash_congr ?_
                rw [List.take_take, min_eq_left (Nat.mul_le_mul_right _ hi)]
              have hchained : Chained c.chainHash c.pageSize c.compatibilityDigest
                  (c.chainHash tokens (start + 1)) {
                    blockHash := c.chainHash tokens (start + 1)
                    parentHash := c.chainHash tokens start
                    tokenPrefix := tokens.take ((start + 1) * c.pageSize)
                    compatibilityDigest := c.compatibilityDigest
                    cacheHandle := snapshot
                    cachedLength := (start + 1) * c.pageSize
                    pages := (start + 1) * c.pageSize / c.pageSize
                    bytes := bytesForPages s' 1
                    lastUsed := now } start :=
                ⟨rfl, rfl, rfl, List.length_take_of_le hlength, hsame _ le_rfl,
                  (hsame _ (Nat.le_succ _)).symm⟩
              have hinsert := h.insert hchained hbefore
              exact ih hinsert _ s' hnext fun _ => Dict.mem_keys_set.mpr (.inl rfl)

theorem acquire (h : c.Reaches) (s : PagedKVCacheBackend ρ κ) (requestId : ρ)
    (tokens : List Token) (probe : PrefixProbe) :
    (c.acquire s requestId tokens probe).2.1.Reaches := by
  rw [BlockHashPrefixCache.acquire]
  split
  · exact h
  rw [lookupTouch]
  cases hlookup : c.lookup tokens with
  | none => exact h
  | some e =>
      have hget : c.entries.get? e.blockHash = some e := by
        rw [lookup] at hlookup
        split at hlookup
        · cases hlookup
        rcases Indexes.lookupChain_eq_some hlookup with hnone | ⟨x, -, hget, -⟩
        · cases hnone
        obtain ⟨pages, hchained⟩ := h.chained hget
        rwa [hchained.hash_eq]
      have htouched : Reaches { c.tick.2 with
          entries := c.entries.set e.blockHash { e with lastUsed := c.tick.1 } } :=
        (h.update hget c.tick.1 e.pins).of_clock c.activeHandles _ _
      dsimp only
      split
      · exact htouched
      have hpinned := htouched.update (Dict.get?_set_self _ _) c.tick.1 (e.pins + 1)
      cases s.fork e.cacheHandle requestId (some (e.cachedLength : ℤ)) with
      | mk result s' =>
          cases result with
          | error e => exact hpinned
          | ok child => exact hpinned.of_clock _ _ _

theorem publish (h : c.Reaches) (s : PagedKVCacheBackend ρ κ) (handle : Handle)
    (tokens : List Token) (n : ℕ)
    (hleaves : ∀ p ∈ c.publishEvicts s handle tokens n,
      EvictsLeaves p.1 p.2.entries.keys.length p.2) :
    (c.publish s handle tokens n).2.1.Reaches := by
  rw [publishEvicts] at hleaves
  rw [BlockHashPrefixCache.publish]
  dsimp only at hleaves ⊢
  split
  · exact h
  case isFalse hsome =>
  rw [if_neg hsome] at hleaves
  have hle : min n tokens.length / c.pageSize * c.pageSize ≤ tokens.length :=
    (Nat.div_mul_le_self _ _).trans (min_le_right _ _)
  have hchain : (c.hashChain (tokens.take
        (min n tokens.length / c.pageSize * c.pageSize))).take (c.publishableChainPages s) =
      chainPart c.tick.2 tokens 0
        (min (c.publishableChainPages s) (min n tokens.length / c.pageSize)) := by
    rw [hashChain_take hle, Nat.mul_div_cancel _ h.pageSize_pos, ← List.map_take,
      List.take_range, List.range_eq_range']
    rfl
  have hticked : c.tick.2.Reaches := h.of_clock c.activeHandles _ _
  have hstored : (BlockHashPrefixCache.publishChain handle tokens c.tick.1 (chainPart c.tick.2 tokens
      0 (min (c.publishableChainPages s) (min n tokens.length / c.pageSize))) 0 c.tick.2
      s).2.1.Reaches := by
    refine hticked.publishChain handle c.tick.1 0 s ?_ fun hne => (hne rfl).elim
    rw [Nat.zero_add]
    exact (Nat.mul_le_mul_right _ (min_le_right _ _)).trans hle
  rw [← hchain] at hstored
  cases hcall : BlockHashPrefixCache.publishChain handle tokens c.tick.1 ((c.hashChain (tokens.take
      (min n tokens.length / c.pageSize * c.pageSize))).take (c.publishableChainPages s)) 0 c.tick.2
      s with
  | mk result after =>
      rw [hcall] at hstored hleaves
      obtain ⟨c', s'⟩ := after
      cases result with
      | error e => exact hstored
      | ok last =>
          have hevicted := hstored.evictRounds (hleaves _ rfl) s'
          dsimp only at hevicted ⊢
          rw [evictUntilWithinLimits]
          cases hevict : BlockHashPrefixCache.evictRounds _ _ c' s' with
          | mk result after =>
              rw [hevict] at hevicted
              obtain ⟨c'', s''⟩ := after
              cases result <;> exact hevicted

theorem release (h : c.Reaches) (s : PagedKVCacheBackend ρ κ) (handle : Handle)
    (hleaves : ∀ p ∈ c.releaseEvicts handle, EvictsLeaves p.1 p.2.entries.keys.length p.2) :
    (c.release s (some handle)).2.1.Reaches := by
  rw [BlockHashPrefixCache.release]
  dsimp only
  rw [releaseEvicts] at hleaves
  cases hactive : c.activeHandles.get? handle with
  | none => exact h
  | some hash =>
      rw [hactive] at hleaves
      have hleaves := hleaves _ rfl
      dsimp only at hleaves ⊢
      cases hget : c.entries.get? hash with
      | none =>
          rw [hget] at hleaves
          exact (h.of_clock _ _ _).evictRounds hleaves s
      | some e =>
          rw [hget] at hleaves
          exact ((h.update hget e.lastUsed (e.pins - 1)).of_clock _ _ _).evictRounds hleaves s

end Reaches
end BlockHashPrefixCache

/-! ## Runs -/

namespace PrefixStore

variable [DecidableEq η]

/-- The block-hash index in which a call evicts, and the hash that it protects. -/
def evicts (w : PrefixStore ρ κ η) (op : PrefixOp ρ κ) :
    Option (Option η × BlockHashPrefixCache ρ η) :=
  match w.coordinator.prefixCache, op with
  | .blockHash c, .publishCommitted handle tokens n =>
      c.publishEvicts w.coordinator.backend handle tokens n
  | .blockHash c, .release (some handle) => c.releaseEvicts handle
  | _, _ => none

/-- Whenever a call evicts an entry, no stored one has it for a parent. -/
def EvictsLeaves (w : PrefixStore ρ κ η) (op : PrefixOp ρ κ) : Prop :=
  ∀ p ∈ w.evicts op, BlockHashPrefixCache.EvictsLeaves p.1 p.2.entries.keys.length p.2

instance (w : PrefixStore ρ κ η) (op : PrefixOp ρ κ) : Decidable (w.EvictsLeaves op) :=
  inferInstanceAs (Decidable (∀ p ∈ w.evicts op, _))

/-- The index is a block-hash index whose entries are within reach. -/
def Reaches (w : PrefixStore ρ κ η) : Prop :=
  ∃ c, w.coordinator.prefixCache = .blockHash c ∧ c.Reaches

/-- **The step lemma.** -/
theorem reaches_step [DecidableEq ρ] {w : PrefixStore ρ κ η} {op : PrefixOp ρ κ} (h : w.Reaches)
    (hleaves : w.EvictsLeaves op) : (w.step op).2.Reaches := by
  obtain ⟨c, hcache, h⟩ := h
  obtain ⟨⟨s, cache⟩, reservation, held⟩ := w
  obtain rfl : cache = .blockHash c := hcache
  cases op with
  | probe tokens => exact ⟨c, rfl, h⟩
  | execute op => exact ⟨c, rfl, h⟩
  | acquire requestId tokens probe =>
      rw [step, NativeCacheCoordinator.acquire]
      dsimp only
      split
      · exact ⟨c, rfl, h⟩
      rw [PrefixCache.acquire]
      have hacquired := h.acquire s requestId tokens (probe.getD (c.probe tokens))
      rw [NativeCacheCoordinator.probe, PrefixCache.probe]
      cases hcall : c.acquire s requestId tokens (probe.getD (c.probe tokens)) with
      | mk result after =>
          rw [hcall] at hacquired
          obtain ⟨c', s'⟩ := after
          cases result with
          | error e => exact ⟨c', rfl, hacquired⟩
          | ok admission => cases admission <;> exact ⟨c', rfl, hacquired⟩
  | publishCommitted handle tokens n =>
      exact ⟨_, rfl, h.publish s handle tokens n hleaves⟩
  | release handle =>
      cases handle with
      | none => exact ⟨c, rfl, h⟩
      | some handle =>
          have hreleased := h.release s handle hleaves
          rw [step, NativeCacheCoordinator.release, PrefixCache.release]
          dsimp only
          cases hcall : c.release s (some handle) with
          | mk result after =>
              rw [hcall] at hreleased
              obtain ⟨c', s'⟩ := after
              cases result <;> exact ⟨c', rfl, hreleased⟩

/-- The entries of a block-hash index hang together: each is the first of its chain, or its parent
is stored, and each is what some lookup finds. -/
def Connected (w : PrefixStore ρ κ η) : Prop :=
  ∃ c, w.coordinator.prefixCache = .blockHash c ∧ c.Rooted ∧
    ∀ hash e, c.entries.get? hash = some e → ∃ tokens, c.lookup tokens = some e

/-- An index of at most two pages, whose page hash is the list of the pages before. -/
def twoPages : BlockHashPrefixCache ℕ (List (List Token)) where
  compatibilityDigest := ""
  pageSize := 8
  maxEntries := 2
  maxBytes := 96
  pageHash := fun parent page => page :: parent
  noParent := []
  snapshotId := fun _ => 9
  readings := fun _ => 0

theorem injectiveHash_twoPages : InjectiveHash twoPages.pageHash twoPages.noParent where
  inj h := ⟨(List.cons.inj h).2, (List.cons.inj h).1⟩
  ne_noParent _ _ := List.cons_ne_nil _ _

/-- Two prompts, of sixteen and of eight tokens, computed together; the first is published. -/
def publishFirst : List (PrefixOp ℕ ℕ) :=
  [.acquire 0 (List.range 16) none, .acquire 1 (List.range' 100 8) none,
    .execute (.reserveBatch [0, 1] [16, 8]),
    .execute (.stageLayer 0 ⟨[2, 1, 16, 1], .float16, fun _ i => i⟩
      ⟨[2, 1, 16, 1], .float16, fun _ i => i⟩),
    .execute (.commit none), .publishCommitted 0 (List.range 16) 16]

end PrefixStore
end MlxRuntime
