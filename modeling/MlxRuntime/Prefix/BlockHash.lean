import MlxRuntime.Lib.Dict
import MlxRuntime.Cache.Paged
import MlxRuntime.Interfaces
import Mathlib.Algebra.GroupWithZero.Nat

/-!
# The block-hash prefix cache

`BlockHashPrefixCache` indexes full pages of committed prompts by a chain of hashes:
the hash of a page covers the hash of the page before it.  An entry keeps a snapshot
of the whole prefix, a fork in the paged store, and the tokens themselves, so that a
colliding hash is noticed.

The hash function is a parameter: nothing is assumed of it.  `time.monotonic_ns` is
a stream of readings, consumed one at a time.  The counters that only `metrics`
reads are left out.

## Main definitions

* `BlockEntry`, `BlockHashPrefixCache` — the state.
* `hashChain`, `lookup`, `evictUntilWithinLimits` — the private methods.
* `probe`, `acquire`, `publish`, `release` — the methods of the prefix index.
-/

namespace MlxRuntime

variable {ρ κ η : Type}

/-- The readings of `time.monotonic_ns` still to come. -/
abbrev ClockReadings := ℕ → ℕ

/-- `_BlockEntry`. -/
structure BlockEntry (η : Type) where
  blockHash : η
  parentHash : η
  tokenPrefix : List Token
  compatibilityDigest : String
  cacheHandle : Handle
  cachedLength : ℕ
  pages : ℕ
  bytes : ℕ
  lastUsed : ℕ
  pins : ℕ := 0
  deriving DecidableEq

/-- `BlockHashPrefixCache`.  `pageHash` is `_block_hash`, whose payload starts with the
compatibility digest; `noParent` is the empty parent hash and `snapshotId` the
`prefix-cache-…` request id of a snapshot. -/
structure BlockHashPrefixCache (ρ η : Type) where
  compatibilityDigest : String
  pageSize : ℕ
  maxEntries : ℕ
  maxBytes : ℕ
  pageHash : η → List Token → η
  noParent : η
  snapshotId : η → ρ
  entries : Dict η (BlockEntry η) := .empty
  activeHandles : Dict Handle η := .empty
  clock : ℕ := 0
  readings : ClockReadings

namespace BlockHashPrefixCache

/-- `__post_init__`, on the arguments of the constructor. -/
def postInit (c : BlockHashPrefixCache ρ η) : Except PyError (BlockHashPrefixCache ρ η) :=
  if c.pageSize = 0 then
    .error (.valueError "block-hash prefix cache page size must be positive")
  else if c.maxEntries = 0 then
    .error (.valueError "block-hash prefix cache max entries must be positive")
  else if c.maxBytes = 0 then
    .error (.valueError "block-hash prefix cache max bytes must be positive")
  else .ok { c with entries := .empty, activeHandles := .empty, clock := 0 }

/-- `_tick`. -/
def tick (c : BlockHashPrefixCache ρ η) : ℕ × BlockHashPrefixCache ρ η :=
  let now := max (c.clock + 1) (c.readings 0)
  (now, { c with clock := now, readings := fun i => c.readings (i + 1) })

/-- `_bytes_for_pages`. -/
def bytesForPages (s : PagedKVCacheBackend ρ κ) (pages : ℕ) : ℕ := s.bytesPerPage * pages

/-- `_publishable_chain_pages`. -/
def publishableChainPages (c : BlockHashPrefixCache ρ η) (s : PagedKVCacheBackend ρ κ) : ℕ :=
  max 1 (min c.maxEntries (c.maxBytes / max 1 (bytesForPages s 1)))

/-- The hashes of the next `pages` pages after the first `done` tokens, each with its
parent and the length it covers. -/
def hashChainFrom (c : BlockHashPrefixCache ρ η) (tokens : List Token) :
    (pages : ℕ) → (parent : η) → (done : ℕ) → List (η × η × ℕ)
  | 0, _, _ => []
  | pages + 1, parent, done =>
      let hash := c.pageHash parent ((tokens.drop done).take c.pageSize)
      (hash, parent, done + c.pageSize) :: hashChainFrom c tokens pages hash (done + c.pageSize)

/-- `_hash_chain`. -/
def hashChain (c : BlockHashPrefixCache ρ η) (tokens : List Token) : List (η × η × ℕ) :=
  c.hashChainFrom tokens (tokens.length / c.pageSize) c.noParent 0

/-- The most tokens of a prompt a prefix may cover: whole pages, and not all of it. -/
def maxReusable (pageSize : ℕ) (tokens : List Token) : ℕ :=
  (tokens.length - 1) / pageSize * pageSize

variable [DecidableEq η]

/-- The loop of `_lookup`: the last entry of the chain before the first miss or
collision. -/
def lookupChain (c : BlockHashPrefixCache ρ η) (tokens : List Token) :
    List (η × η × ℕ) → Option (BlockEntry η) → Option (BlockEntry η)
  | [], best => best
  | (hash, _, _) :: rest, best =>
      match c.entries.get? hash with
      | none => best
      | some entry =>
          if entry.compatibilityDigest ≠ c.compatibilityDigest ∨
              entry.tokenPrefix ≠ tokens.take entry.cachedLength then best
          else lookupChain c tokens rest (some entry)

/-- `_lookup` without the touch of `mutate`. -/
def lookup (c : BlockHashPrefixCache ρ η) (tokens : List Token) : Option (BlockEntry η) :=
  let maxReusable := maxReusable c.pageSize tokens
  if maxReusable = 0 then none
  else c.lookupChain tokens (c.hashChain (tokens.take maxReusable)) none

/-- `_lookup(…, mutate=True)` touches what it found. -/
def lookupTouch (c : BlockHashPrefixCache ρ η) (tokens : List Token) :
    Option (BlockEntry η) × BlockHashPrefixCache ρ η :=
  match c.lookup tokens with
  | none => (none, c)
  | some best =>
      let (now, c) := c.tick
      let best := { best with lastUsed := now }
      (some best, { c with entries := c.entries.set best.blockHash best })

/-- `probe`. -/
def probe (c : BlockHashPrefixCache ρ η) (tokens : List Token) : PrefixProbe :=
  match c.lookup tokens with
  | none => {}
  | some found => ⟨found.cachedLength, found.pages, some found.cacheHandle⟩

/-- `acquire`. -/
def acquire (c : BlockHashPrefixCache ρ η) (s : PagedKVCacheBackend ρ κ) (requestId : ρ)
    (tokens : List Token) (probe : PrefixProbe) :
    Except PyError (Option CacheAdmission) × BlockHashPrefixCache ρ η ×
      PagedKVCacheBackend ρ κ :=
  if probe.cacheHandle = none ∨ probe.matchedTokens = 0 then (.ok none, c, s)
  else
    match c.lookupTouch tokens with
    | (none, c) => (.ok none, c, s)
    | (some entry, c) =>
        if some entry.cacheHandle ≠ probe.cacheHandle then (.ok none, c, s)
        else
          let c := { c with
            entries := c.entries.set entry.blockHash { entry with pins := entry.pins + 1 } }
          match s.fork entry.cacheHandle requestId (some entry.cachedLength) with
          | (.error e, s) => (.error e, c, s)
          | (.ok child, s) =>
              (.ok (some ⟨child, entry.cachedLength, entry.cachedLength, entry.pages⟩),
                { c with activeHandles := c.activeHandles.set child entry.blockHash }, s)

/-! ## Eviction -/

/-- `_stored_bytes`. -/
def storedBytes (c : BlockHashPrefixCache ρ η) : ℕ :=
  (c.entries.values.map BlockEntry.bytes).sum

/-- Whether the index is over one of its limits. -/
def OverLimits (c : BlockHashPrefixCache ρ η) : Prop :=
  c.maxEntries < c.entries.keys.length ∨ c.maxBytes < c.storedBytes

instance (c : BlockHashPrefixCache ρ η) : Decidable c.OverLimits :=
  inferInstanceAs (Decidable (_ ∨ _))

/-- The entry to evict: unpinned and not protected, least recently used, the longer of
two used at the same time. -/
def victim (c : BlockHashPrefixCache ρ η) (protected_ : Option η) : Option (BlockEntry η) :=
  firstMin (fun a b => a.lastUsed < b.lastUsed ∨ a.lastUsed = b.lastUsed ∧ b.pages < a.pages)
    (c.entries.values.filter fun entry => entry.pins = 0 ∧ some entry.blockHash ≠ protected_)

/-- The loop of `_evict_until_within_limits`; each round takes one entry out. -/
def evictRounds (protected_ : Option η) : ℕ → BlockHashPrefixCache ρ η →
    PagedKVCacheBackend ρ κ →
    Except PyError Unit × BlockHashPrefixCache ρ η × PagedKVCacheBackend ρ κ
  | 0, c, s => (.ok (), c, s)
  | rounds + 1, c, s =>
      if c.OverLimits then
        match c.victim protected_ with
        | none => (.ok (), c, s)
        | some entry =>
            let c := { c with entries := c.entries.pop entry.blockHash }
            match s.release (some entry.cacheHandle) with
            | (.error e, s) => (.error e, c, s)
            | (.ok (), s) => evictRounds protected_ rounds c s
      else (.ok (), c, s)

/-- `_evict_until_within_limits`. -/
def evictUntilWithinLimits (c : BlockHashPrefixCache ρ η) (s : PagedKVCacheBackend ρ κ)
    (protected_ : Option η) :
    Except PyError Unit × BlockHashPrefixCache ρ η × PagedKVCacheBackend ρ κ :=
  evictRounds protected_ c.entries.keys.length c s

/-! ## Publishing and releasing -/

/-- The loop of `publish`: a snapshot for every page of the chain that has no entry.
Answers the length of the last one. -/
def publishChain (handle : Handle) (tokens : List Token) (now : ℕ) :
    List (η × η × ℕ) → ℕ → BlockHashPrefixCache ρ η → PagedKVCacheBackend ρ κ →
      Except PyError ℕ × BlockHashPrefixCache ρ η × PagedKVCacheBackend ρ κ
  | [], published, c, s => (.ok published, c, s)
  | (hash, parent, length) :: rest, published, c, s =>
      if hash ∈ c.entries.keys then publishChain handle tokens now rest published c s
      else
        match s.fork handle (c.snapshotId hash) (some length) with
        | (.error e, s) => (.error e, c, s)
        | (.ok snapshot, s) =>
            let entry : BlockEntry η := {
              blockHash := hash
              parentHash := parent
              tokenPrefix := tokens.take length
              compatibilityDigest := c.compatibilityDigest
              cacheHandle := snapshot
              cachedLength := length
              pages := length / c.pageSize
              bytes := bytesForPages s 1
              lastUsed := now }
            publishChain handle tokens now rest length
              { c with entries := c.entries.set hash entry } s

/-- `publish`. -/
def publish (c : BlockHashPrefixCache ρ η) (s : PagedKVCacheBackend ρ κ) (handle : Handle)
    (tokens : List Token) (committedLength : ℕ) :
    Except PyError CachePublication × BlockHashPrefixCache ρ η × PagedKVCacheBackend ρ κ :=
  let publishLength := min committedLength tokens.length / c.pageSize * c.pageSize
  if publishLength = 0 then (.ok {}, c, s)
  else
    let chain := (c.hashChain (tokens.take publishLength)).take (c.publishableChainPages s)
    let (now, c) := c.tick
    match publishChain handle tokens now chain 0 c s with
    | (.error e, c, s) => (.error e, c, s)
    | (.ok published, c, s) =>
        match c.evictUntilWithinLimits s (some ((chain.map Prod.fst).getLastD c.noParent)) with
        | (.error e, c, s) => (.error e, c, s)
        | (.ok (), c, s) => (.ok ⟨published, published / c.pageSize⟩, c, s)

/-- `release`. -/
def release (c : BlockHashPrefixCache ρ η) (s : PagedKVCacheBackend ρ κ)
    (handle : Option Handle) :
    Except PyError Unit × BlockHashPrefixCache ρ η × PagedKVCacheBackend ρ κ :=
  match handle with
  | none => (.ok (), c, s)
  | some h =>
      match c.activeHandles.get? h with
      | none => (.ok (), c, s)
      | some hash =>
          let c := { c with activeHandles := c.activeHandles.pop h }
          let c :=
            match c.entries.get? hash with
            | none => c
            | some entry =>
                { c with entries := c.entries.set hash { entry with pins := entry.pins - 1 } }
          c.evictUntilWithinLimits s none

end BlockHashPrefixCache
end MlxRuntime
