import MlxRuntime.Prefix.BlockHash

/-!
# The radix prefix cache

`RadixPrefixCache` keeps the token prefixes with snapshots in a compressed tree: an
edge carries a run of tokens, and inserting a prefix that leaves an edge in the middle
splits it.

The nodes are objects with identity: the tree points down through `children` and up
through `parent`, and the index of active handles points into it.  `nodes` is the heap
of those objects; a node that was cut off stays in it.  The loops that walk down or up
the tree get as many rounds as the tokens they can consume or give back, and the walk
over all nodes as many as there are nodes.

## Main definitions

* `RadixNode`, `RadixPrefixCache` — the state.
* `lookup`, `insertPrefix`, `walkNodes`, `pruneEmptyAncestors` — the tree.
* `probe`, `acquire`, `publish`, `release` — the methods of the prefix index.
-/

namespace MlxRuntime

variable {ρ κ : Type}

/-- `_RadixNode`. -/
structure RadixNode where
  edgeTokens : List Token := []
  tokenPrefix : List Token := []
  cacheHandle : Option Handle := none
  cachedLength : ℕ := 0
  pages : ℕ := 0
  bytes : ℕ := 0
  lastUsed : ℕ := 0
  pins : ℕ := 0
  parent : Option ℕ := none
  children : Dict Token ℕ := .empty
  deriving DecidableEq

/-- `RadixPrefixCache`.  Node `0` is the root; `snapshotId` is the `prefix-radix-…`
request id of a snapshot. -/
structure RadixPrefixCache (ρ : Type) where
  pageSize : ℕ
  maxEntries : ℕ
  maxBytes : ℕ
  snapshotId : List Token → ρ
  nodes : ℕ → RadixNode := fun _ => {}
  nextNode : ℕ := 1
  activeHandles : Dict Handle ℕ := .empty
  publishedLengths : Dict Handle ℕ := .empty
  clock : ℕ := 0
  readings : ClockReadings

/-- `_common_prefix_len`. -/
def commonPrefixLen : List Token → List Token → ℕ
  | x :: xs, y :: ys => if x = y then commonPrefixLen xs ys + 1 else 0
  | _, _ => 0

/-- `_common_prefix_len_at`. -/
def commonPrefixLenAt (left right : List Token) (offset limit : ℕ) : ℕ :=
  commonPrefixLen (left.take (limit - offset)) (right.drop offset)

namespace RadixPrefixCache

/-- `__post_init__`, on the arguments of the constructor. -/
def postInit (c : RadixPrefixCache ρ) : Except PyError (RadixPrefixCache ρ) :=
  if c.pageSize = 0 then .error (.valueError "radix prefix cache page size must be positive")
  else if c.maxEntries = 0 then
    .error (.valueError "radix prefix cache max entries must be positive")
  else if c.maxBytes = 0 then .error (.valueError "radix prefix cache max bytes must be positive")
  else .ok { c with
    nodes := fun _ => {}, nextNode := 1, activeHandles := .empty, publishedLengths := .empty,
    clock := 0 }

/-- `_tick`. -/
def tick (c : RadixPrefixCache ρ) : ℕ × RadixPrefixCache ρ :=
  let now := max (c.clock + 1) (c.readings 0)
  (now, { c with clock := now, readings := fun i => c.readings (i + 1) })

/-- Assign to the fields of a node. -/
def setNode (c : RadixPrefixCache ρ) (id : ℕ) (node : RadixNode) : RadixPrefixCache ρ :=
  { c with nodes := Function.update c.nodes id node }

/-- A new node object. -/
def newNode (c : RadixPrefixCache ρ) (node : RadixNode) : ℕ × RadixPrefixCache ρ :=
  (c.nextNode, { c.setNode c.nextNode node with nextNode := c.nextNode + 1 })

/-- `_publishable_chain_pages`. -/
def publishableChainPages (c : RadixPrefixCache ρ) (s : PagedKVCacheBackend ρ κ) : ℕ :=
  max 1 (min c.maxEntries (c.maxBytes / max 1 (BlockHashPrefixCache.bytesForPages s 1)))

/-! ## Walking down -/

/-- The loop of `_lookup`: the deepest node with a snapshot on the way. -/
def lookupFrom (c : RadixPrefixCache ρ) (tokens : List Token) (limit : ℕ) :
    (rounds : ℕ) → (node offset : ℕ) → Option ℕ → Option ℕ
  | 0, _, _, best => best
  | rounds + 1, node, offset, best =>
      if limit ≤ offset then best
      else
        match (c.nodes node).children.get? (tokens.getD offset 0) with
        | none => best
        | some child =>
            let common := commonPrefixLenAt (c.nodes child).edgeTokens tokens offset limit
            if common < (c.nodes child).edgeTokens.length then best
            else
              lookupFrom c tokens limit rounds child (offset + common)
                (if (c.nodes child).cacheHandle.isSome ∧ (c.nodes child).cachedLength ≤ limit then
                  some child
                else best)

/-- `_lookup` without the touch of `mutate`. -/
def lookup (c : RadixPrefixCache ρ) (tokens : List Token) : Option ℕ :=
  let limit := BlockHashPrefixCache.maxReusable c.pageSize tokens
  if limit = 0 then none else c.lookupFrom tokens limit limit 0 0 none

/-- `_lookup(…, mutate=True)` touches what it found. -/
def lookupTouch (c : RadixPrefixCache ρ) (tokens : List Token) :
    Option ℕ × RadixPrefixCache ρ :=
  match c.lookup tokens with
  | none => (none, c)
  | some best =>
      let (now, c) := c.tick
      (some best, c.setNode best { c.nodes best with lastUsed := now })

/-- The split of `_insert_prefix`: a node for the first `common` tokens of the edge to
`child` comes between `node` and `child`. -/
def splitEdge (c : RadixPrefixCache ρ) (tokenPrefix : List Token) (node child offset common : ℕ) :
    ℕ × RadixPrefixCache ρ :=
  let edge := (c.nodes child).edgeTokens
  let (split, c) := c.newNode {
    edgeTokens := edge.take common
    tokenPrefix := tokenPrefix.take (offset + common)
    parent := some node }
  let c := c.setNode node { c.nodes node with
    children := (c.nodes node).children.set ((edge.take common).headD 0) split }
  let c := c.setNode child { c.nodes child with
    edgeTokens := edge.drop common, parent := some split }
  let c := c.setNode split { c.nodes split with
    children := (c.nodes split).children.set ((edge.drop common).headD 0) child }
  (split, c)

/-- A new leaf under `node` for the tokens from `offset` on. -/
def addLeaf (c : RadixPrefixCache ρ) (tokenPrefix : List Token) (node offset : ℕ) :
    ℕ × RadixPrefixCache ρ :=
  let edge := tokenPrefix.drop offset
  let (leaf, c) := c.newNode {
    edgeTokens := edge, tokenPrefix := tokenPrefix, parent := some node }
  (leaf, c.setNode node { c.nodes node with
    children := (c.nodes node).children.set (edge.headD 0) leaf })

/-- The loop of `_insert_prefix`. -/
def insertFrom (tokenPrefix : List Token) :
    (rounds : ℕ) → (node offset : ℕ) → RadixPrefixCache ρ → ℕ × RadixPrefixCache ρ
  | 0, node, _, c => (node, c)
  | rounds + 1, node, offset, c =>
      if tokenPrefix.length ≤ offset then (node, c)
      else
        match (c.nodes node).children.get? (tokenPrefix.getD offset 0) with
        | none => c.addLeaf tokenPrefix node offset
        | some child =>
            let common := commonPrefixLen (c.nodes child).edgeTokens (tokenPrefix.drop offset)
            if common = (c.nodes child).edgeTokens.length then
              insertFrom tokenPrefix rounds child (offset + common) c
            else
              let (split, c) := c.splitEdge tokenPrefix node child offset common
              if offset + common = tokenPrefix.length then (split, c)
              else c.addLeaf tokenPrefix split (offset + common)

/-- `_insert_prefix`. -/
def insertPrefix (c : RadixPrefixCache ρ) (tokenPrefix : List Token) :
    ℕ × RadixPrefixCache ρ :=
  insertFrom tokenPrefix (tokenPrefix.length + 1) 0 0 c

/-! ## Eviction -/

/-- The loop of `_walk_nodes`; `pending` is the stack, its top last. -/
def walkFrom (c : RadixPrefixCache ρ) : (rounds : ℕ) → (pending : List ℕ) → List ℕ
  | 0, _ => []
  | rounds + 1, pending =>
      match pending.getLast? with
      | none => []
      | some node => node :: walkFrom c rounds (pending.dropLast ++ (c.nodes node).children.values)

/-- `_walk_nodes`. -/
def walkNodes (c : RadixPrefixCache ρ) : List ℕ :=
  c.walkFrom c.nextNode (c.nodes 0).children.values

/-- `_entry_count`. -/
def entryCount (c : RadixPrefixCache ρ) : ℕ :=
  c.walkNodes.countP fun id => (c.nodes id).cacheHandle.isSome

/-- `_stored_bytes`. -/
def storedBytes (c : RadixPrefixCache ρ) : ℕ := (c.walkNodes.map fun id => (c.nodes id).bytes).sum

/-- Whether the index is over one of its limits. -/
def OverLimits (c : RadixPrefixCache ρ) : Prop :=
  c.maxEntries < c.entryCount ∨ c.maxBytes < c.storedBytes

instance (c : RadixPrefixCache ρ) : Decidable c.OverLimits :=
  inferInstanceAs (Decidable (_ ∨ _))

/-- The leaf to evict: unpinned, least recently used, the longer of two used at the
same time. -/
def victim (c : RadixPrefixCache ρ) : Option ℕ :=
  firstMin (fun a b => (c.nodes a).lastUsed < (c.nodes b).lastUsed ∨
      (c.nodes a).lastUsed = (c.nodes b).lastUsed ∧ (c.nodes b).pages < (c.nodes a).pages)
    (c.walkNodes.filter fun id => (c.nodes id).cacheHandle.isSome ∧ (c.nodes id).pins = 0 ∧
      (c.nodes id).children.entries.isEmpty)

/-- `_prune_empty_ancestors`. -/
def pruneFrom : (rounds : ℕ) → ℕ → RadixPrefixCache ρ → RadixPrefixCache ρ
  | 0, _, c => c
  | rounds + 1, id, c =>
      let node := c.nodes id
      match node.parent with
      | none => c
      | some parent =>
          if node.cacheHandle = none ∧ node.children.entries.isEmpty ∧ node.pins = 0 then
            pruneFrom rounds parent (c.setNode parent { c.nodes parent with
              children := (c.nodes parent).children.pop (node.edgeTokens.headD 0) })
          else c

/-- The loop of `_evict_until_within_limits`; each round drops one snapshot. -/
def evictRounds : ℕ → RadixPrefixCache ρ → PagedKVCacheBackend ρ κ →
    Except PyError Unit × RadixPrefixCache ρ × PagedKVCacheBackend ρ κ
  | 0, c, s => (.ok (), c, s)
  | rounds + 1, c, s =>
      if c.OverLimits then
        match c.victim with
        | none => (.ok (), c, s)
        | some id =>
            match s.release (c.nodes id).cacheHandle with
            | (.error e, s) => (.error e, c, s)
            | (.ok (), s) =>
                let c := c.setNode id { c.nodes id with
                  cacheHandle := none, cachedLength := 0, pages := 0, bytes := 0 }
                evictRounds rounds (pruneFrom ((c.nodes id).tokenPrefix.length + 1) id c) s
      else (.ok (), c, s)

/-- `_evict_until_within_limits`. -/
def evictUntilWithinLimits (c : RadixPrefixCache ρ) (s : PagedKVCacheBackend ρ κ) :
    Except PyError Unit × RadixPrefixCache ρ × PagedKVCacheBackend ρ κ :=
  evictRounds c.entryCount c s

/-! ## The methods of the prefix index -/

/-- `probe`. -/
def probe (c : RadixPrefixCache ρ) (tokens : List Token) : PrefixProbe :=
  match c.lookup tokens with
  | none => {}
  | some id => ⟨(c.nodes id).cachedLength, (c.nodes id).pages, (c.nodes id).cacheHandle⟩

/-- `acquire`. -/
def acquire (c : RadixPrefixCache ρ) (s : PagedKVCacheBackend ρ κ) (requestId : ρ)
    (tokens : List Token) (probe : PrefixProbe) :
    Except PyError (Option CacheAdmission) × RadixPrefixCache ρ × PagedKVCacheBackend ρ κ :=
  if probe.cacheHandle = none ∨ probe.matchedTokens = 0 then (.ok none, c, s)
  else
    match c.lookupTouch tokens with
    | (none, c) => (.ok none, c, s)
    | (some id, c) =>
        if (c.nodes id).cacheHandle ≠ probe.cacheHandle then (.ok none, c, s)
        else
          let c := c.setNode id { c.nodes id with pins := (c.nodes id).pins + 1 }
          let node := c.nodes id
          match node.cacheHandle with
          | none => (.error .keyError, c, s)
          | some snapshot =>
              match s.fork snapshot requestId (some node.cachedLength) with
              | (.error e, s) => (.error e, c, s)
              | (.ok child, s) =>
                  (.ok (some ⟨child, node.cachedLength, node.cachedLength, node.pages⟩),
                    { c with
                      activeHandles := c.activeHandles.set child id
                      publishedLengths := c.publishedLengths.set child node.cachedLength }, s)

/-- The loop of `publish` over the lengths `start, start + page_size, …`. -/
def publishPages (handle : Handle) (tokens : List Token) :
    (rounds : ℕ) → (length : ℕ) → (published : ℕ) → RadixPrefixCache ρ →
      PagedKVCacheBackend ρ κ → Except PyError ℕ × RadixPrefixCache ρ × PagedKVCacheBackend ρ κ
  | 0, _, published, c, s => (.ok published, c, s)
  | rounds + 1, length, published, c, s =>
      if c.publishableChainPages s < length / c.pageSize then (.ok published, c, s)
      else
        let (id, c) := c.insertPrefix (tokens.take length)
        if (c.nodes id).cacheHandle.isSome then
          let (now, c) := c.tick
          publishPages handle tokens rounds (length + c.pageSize) length
            (c.setNode id { c.nodes id with lastUsed := now }) s
        else
          match s.fork handle (c.snapshotId (tokens.take length)) (some length) with
          | (.error e, s) => (.error e, c, s)
          | (.ok snapshot, s) =>
              let (now, c) := c.tick
              publishPages handle tokens rounds (length + c.pageSize) length
                (c.setNode id { c.nodes id with
                  cacheHandle := some snapshot
                  cachedLength := length
                  pages := length / c.pageSize
                  bytes := BlockHashPrefixCache.bytesForPages s 1
                  lastUsed := now }) s

/-- `publish`. -/
def publish (c : RadixPrefixCache ρ) (s : PagedKVCacheBackend ρ κ) (handle : Handle)
    (tokens : List Token) (committedLength : ℕ) :
    Except PyError CachePublication × RadixPrefixCache ρ × PagedKVCacheBackend ρ κ :=
  let publishLength := min committedLength tokens.length / c.pageSize * c.pageSize
  let previous := (c.publishedLengths.get? handle).getD 0
  if publishLength = 0 ∨ publishLength ≤ previous then (.ok {}, c, s)
  else
    let startLength := (previous / c.pageSize + 1) * c.pageSize
    match publishPages handle tokens ((publishLength + c.pageSize - startLength) / c.pageSize)
      startLength 0 c s with
    | (.error e, c, s) => (.error e, c, s)
    | (.ok published, c, s) =>
        match c.evictUntilWithinLimits s with
        | (.error e, c, s) => (.error e, c, s)
        | (.ok (), c, s) =>
            (.ok ⟨published, published / c.pageSize⟩,
              if published = 0 then c
              else { c with publishedLengths := c.publishedLengths.set handle published }, s)

/-- `release`. -/
def release (c : RadixPrefixCache ρ) (s : PagedKVCacheBackend ρ κ) (handle : Option Handle) :
    Except PyError Unit × RadixPrefixCache ρ × PagedKVCacheBackend ρ κ :=
  match handle with
  | none => (.ok (), c, s)
  | some h =>
      let c := { c with publishedLengths := c.publishedLengths.pop h }
      match c.activeHandles.get? h with
      | none => (.ok (), c, s)
      | some id =>
          let c := { c with activeHandles := c.activeHandles.pop h }
          let c := c.setNode id { c.nodes id with pins := (c.nodes id).pins - 1 }
          c.evictUntilWithinLimits s

end RadixPrefixCache
end MlxRuntime
