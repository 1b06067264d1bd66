import Mathlib.Data.List.Chain
import MlxRuntime.Prefix.Reuse

/-!
# The radix index

In every run the radix tree is well formed: its edges spell the prefixes of its nodes, its leaves
are entries, and an entry covers the whole prefix of its node.  A lookup therefore finds the longest
entry that serves a prompt, and an eviction takes unpinned entries without descendants until the
index is within its limits or no such entry is left.

## Main definitions

* `RadixPrefixCache.WellFormed` — what the tree keeps.
* `RadixPrefixCache.Serving`, `lookup_eq_some_iff`, `lookup_eq_none_iff` — what a lookup finds.
* `RadixPrefixCache.Evicts`, `RadixPrefixCache.Settled`, `evictRounds_settles` — what an eviction
  does.
* `PrefixStore.radixIndex_correct` — all of it, in every run.
-/

namespace MlxRuntime

variable {ρ κ η : Type}

open PagedKVCacheBackend (LongEnough StoredLaws storedLaws_length)

namespace RadixPrefixCache

variable {c c' : RadixPrefixCache ρ} {s : PagedKVCacheBackend ρ κ} {held : Finset Handle}
  {Stored : PagedKVCacheBackend ρ κ → Handle → List Token → Prop}

/-- The tree of the index. -/
structure WellFormed (c : RadixPrefixCache ρ) : Prop where
  root_prefix : (c.nodes 0).tokenPrefix = []
  root_parent : (c.nodes 0).parent = none
  /-- An edge is not empty, and its child is filed under its first token. -/
  edge_ne : ∀ {id k child}, (c.nodes id).children.get? k = some child →
    (c.nodes child).edgeTokens ≠ []
  edge_head : ∀ {id k child}, (c.nodes id).children.get? k = some child →
    (c.nodes child).edgeTokens.head? = some k
  parent_eq : ∀ {id k child}, (c.nodes id).children.get? k = some child →
    (c.nodes child).parent = some id
  /-- The edges on the way from the root spell the prefix of a node. -/
  prefix_eq : ∀ path : List ℕ, List.IsChain (fun x y => y ∈ c.childrenOf x) (0 :: path) →
    (c.nodes ((0 :: path).getLast (List.cons_ne_nil _ _))).tokenPrefix =
      (path.map fun id => (c.nodes id).edgeTokens).flatten
  /-- A leaf is an entry. -/
  leaf : ∀ id, c.Attached id → id ≠ 0 → (c.nodes id).children.entries = [] →
    (c.nodes id).cacheHandle.isSome
  /-- An entry is a node of the tree, and covers its prefix, in whole pages. -/
  attached : ∀ id, (c.nodes id).cacheHandle.isSome → c.Attached id
  length_eq : ∀ id, (c.nodes id).cacheHandle.isSome →
    (c.nodes id).cachedLength = (c.nodes id).tokenPrefix.length
  dvd : ∀ id, (c.nodes id).cacheHandle.isSome → c.pageSize ∣ (c.nodes id).cachedLength

/-- A new tree has its root only. -/
theorem nodes_postInit {c₀ : RadixPrefixCache ρ} (h : c₀.postInit = .ok c) :
    c.nodes = fun _ => {} := by
  rw [postInit] at h
  split at h
  · cases h
  split at h
  · cases h
  split at h
  · cases h
  obtain rfl := Except.ok.inj h
  rfl

theorem filled_postInit {c₀ : RadixPrefixCache ρ} (h : c₀.postInit = .ok c) : c.Filled none := by
  have hnodes := nodes_postInit h
  refine ⟨by rw [hnodes], fun id hid hne => ?_, fun id hsome => ?_, fun id _ => by rw [hnodes]⟩
  · rcases Relation.ReflTransGen.cases_tail hid with heq | ⟨parent, -, hchild⟩
    · exact absurd heq hne
    · rw [childrenOf, hnodes] at hchild
      cases hchild
  · rw [hnodes] at hsome
    cases hsome

/-- Edges that follow each other spell a prefix. -/
theorem IsTree.prefix_of_path (h : c.IsTree) {id : ℕ} {path : List ℕ}
    (hpath : List.IsChain (fun x y => y ∈ c.childrenOf x) (id :: path)) :
    (c.nodes ((id :: path).getLast (List.cons_ne_nil _ _))).tokenPrefix =
      (c.nodes id).tokenPrefix ++ (path.map fun x => (c.nodes x).edgeTokens).flatten := by
  induction path generalizing id with
  | nil => simp
  | cons child path ih =>
      rw [List.isChain_cons_cons] at hpath
      obtain ⟨k, hget⟩ := mem_childrenOf.mp hpath.1
      rw [List.getLast_cons (List.cons_ne_nil _ _), ih hpath.2, (h.edge hget).prefix_eq,
        List.map_cons, List.flatten_cons, List.append_assoc]

theorem wellFormed (h : Indexes Stored c s held) (hfilled : c.Filled none) : c.WellFormed where
  root_prefix := h.tree.root_prefix
  root_parent := hfilled.root_parent
  edge_ne hget hnil := by
    have hhead := (h.tree.edge hget).head_eq
    rw [hnil] at hhead
    cases hhead
  edge_head hget := (h.tree.edge hget).head_eq
  parent_eq hget := (h.tree.edge hget).parent_eq
  prefix_eq path hpath := by
    rw [h.tree.prefix_of_path hpath, h.tree.root_prefix, List.nil_append]
  leaf id hid hne := hfilled.leaf id hid hne (Option.some_ne_none id)
  attached := hfilled.attached
  length_eq id hsome := by
    obtain ⟨x, hx⟩ := Option.isSome_iff_exists.mp hsome
    exact (h.covers hx).length_eq
  dvd id hsome := by
    obtain ⟨x, hx⟩ := Option.isSome_iff_exists.mp hsome
    exact (h.covers hx).dvd

/-! ## Lookup -/

/-- A stored entry for a prefix of the prompt, of which at most `limit` tokens may be reused. -/
structure Serving (c : RadixPrefixCache ρ) (tokens : List Token) (limit id : ℕ) : Prop where
  attached : c.Attached id
  stored : (c.nodes id).cacheHandle.isSome
  isPrefix : (c.nodes id).tokenPrefix <+: tokens
  length_le : (c.nodes id).tokenPrefix.length ≤ limit

/-- Going down the tree the prefixes grow. -/
theorem IsTree.isPrefix (h : c.IsTree) {x y : ℕ} (hxy : c.Below x y) :
    (c.nodes x).tokenPrefix <+: (c.nodes y).tokenPrefix := by
  induction hxy with
  | refl => exact List.prefix_refl _
  | tail _ hstep ih =>
      obtain ⟨k, hget⟩ := mem_childrenOf.mp hstep
      rw [(h.edge hget).prefix_eq]
      exact ih.trans (List.prefix_append _ _)

/-- A node goes on with the token that names the child it is below. -/
theorem IsTree.getElem?_of_child (h : c.IsTree) {x y child : ℕ} {k : Token}
    (hget : (c.nodes x).children.get? k = some child) (hbelow : c.Below child y) :
    (c.nodes y).tokenPrefix[(c.nodes x).tokenPrefix.length]? = some k := by
  obtain ⟨rest, hrest⟩ := h.isPrefix hbelow
  rw [← hrest, (h.edge hget).prefix_eq, List.append_assoc, List.getElem?_append_right le_rfl,
    Nat.sub_self, ← List.head?_eq_getElem?, List.head?_append, (h.edge hget).head_eq]
  rfl

/-- A node below a child is longer. -/
theorem IsTree.length_lt_of_child (h : c.IsTree) {x y child : ℕ} {k : Token}
    (hget : (c.nodes x).children.get? k = some child) (hbelow : c.Below child y) :
    (c.nodes x).tokenPrefix.length < (c.nodes y).tokenPrefix.length :=
  (h.edge hget).length_lt.trans_le (h.isPrefix hbelow).length_le

/-- Two nodes with one prefix are the same. -/
theorem IsTree.eq_of_prefix (h : c.IsTree) {x y z : ℕ} (hx : c.Below z x) (hy : c.Below z y)
    (heq : (c.nodes x).tokenPrefix = (c.nodes y).tokenPrefix) : x = y := by
  induction hx using Relation.ReflTransGen.head_induction_on with
  | refl =>
      rcases Relation.ReflTransGen.cases_head hy with hend | ⟨child, hchild, hbelow⟩
      · exact hend
      · obtain ⟨k, hget⟩ := mem_childrenOf.mp hchild
        exact absurd (congrArg List.length heq) (h.length_lt_of_child hget hbelow).ne
  | head hchild hbelow ih =>
      obtain ⟨k, hget⟩ := mem_childrenOf.mp hchild
      have hk := h.getElem?_of_child hget hbelow
      rcases Relation.ReflTransGen.cases_head hy with hend | ⟨child', hchild', hbelow'⟩
      · rw [← hend] at heq
        exact absurd (congrArg List.length heq) (h.length_lt_of_child hget hbelow).ne'
      · obtain ⟨k', hget'⟩ := mem_childrenOf.mp hchild'
        -- both go through the child that the next token names
        have hk' := h.getElem?_of_child hget' hbelow'
        rw [← heq, hk] at hk'
        obtain rfl := Option.some.inj hk'
        rw [hget] at hget'
        exact ih (Option.some.inj hget' ▸ hbelow')

/-- The loop never goes back to a shorter entry. -/
theorem IsTree.lookupFrom_mono (h : c.IsTree) {tokens : List Token} {limit rounds id offset b : ℕ}
    {best : Option ℕ} (hb : best = some b)
    (hle : (c.nodes b).tokenPrefix.length ≤ (c.nodes id).tokenPrefix.length) :
    ∃ b', c.lookupFrom tokens limit rounds id offset best = some b' ∧
      (c.nodes b).tokenPrefix.length ≤ (c.nodes b').tokenPrefix.length := by
  induction rounds generalizing id offset best b with
  | zero => exact ⟨b, hb, le_rfl⟩
  | succ rounds ih =>
      rw [lookupFrom]
      split
      · exact ⟨b, hb, le_rfl⟩
      cases hget : (c.nodes id).children.get? (tokens.getD offset 0) with
      | none => exact ⟨b, hb, le_rfl⟩
      | some child =>
          dsimp only
          have hlonger := hle.trans (h.edge hget).length_lt.le
          split
          · exact ⟨b, hb, le_rfl⟩
          split
          · obtain ⟨b', heq, hle'⟩ := ih rfl le_rfl
            exact ⟨b', heq, hlonger.trans hle'⟩
          · exact ih hb hlonger

/-- A walk passes an edge that agrees with the tokens. -/
theorem commonPrefixLenAt_of_prefix {edge tokens : List Token} {offset limit : ℕ}
    (hinitial : edge <+: tokens.drop offset) (hle : offset + edge.length ≤ limit) :
    commonPrefixLenAt edge tokens offset limit = edge.length := by
  rw [commonPrefixLenAt, List.take_of_length_le (by omega)]
  obtain ⟨rest, hrest⟩ := hinitial
  rw [← hrest]
  clear hrest hle
  induction edge with
  | nil => simp [commonPrefixLen]
  | cons x edge ih => rw [List.cons_append, commonPrefixLen, if_pos rfl, ih, List.length_cons]

/-- The loop finds an entry at least as long as any entry below the node it is at. -/
theorem IsTree.lookupFrom_complete (h : c.IsTree) {tokens : List Token}
    {limit rounds id offset y : ℕ} {best : Option ℕ} (hserving : c.Serving tokens limit y)
    (hlength : (c.nodes y).cachedLength = (c.nodes y).tokenPrefix.length) (hbelow : c.Below id y)
    (hoffset : (c.nodes id).tokenPrefix.length = offset) (hrounds : limit - offset ≤ rounds)
    (hbest : y = id → best = some id) :
    ∃ b, c.lookupFrom tokens limit rounds id offset best = some b ∧
      (c.nodes y).tokenPrefix.length ≤ (c.nodes b).tokenPrefix.length := by
  rcases Relation.ReflTransGen.cases_head hbelow with rfl | ⟨child, hchild, hbelow'⟩
  · exact h.lookupFrom_mono (hbest rfl) le_rfl
  obtain ⟨k, hget⟩ := mem_childrenOf.mp hchild
  have hlt := h.length_lt_of_child hget hbelow'
  have hlimit := hserving.length_le
  induction rounds generalizing id offset best child k with
  | zero => omega
  | succ rounds ih =>
      obtain ⟨rest, hrest⟩ := hserving.isPrefix
      have hk : tokens.getD offset 0 = k := by
        rw [List.getD_eq_getElem?_getD, ← hrest, List.getElem?_append_left (hoffset ▸ hlt),
          ← hoffset, h.getElem?_of_child hget hbelow', Option.getD_some]
      have hedge := h.edge hget
      have hchildPrefix := (h.isPrefix hbelow').trans hserving.isPrefix
      have hgrown := congrArg List.length hedge.prefix_eq
      rw [List.length_append] at hgrown
      have hchildLength := (h.isPrefix hbelow').length_le
      have hcommon : commonPrefixLenAt (c.nodes child).edgeTokens tokens offset limit =
          (c.nodes child).edgeTokens.length := by
        refine commonPrefixLenAt_of_prefix ?_ (by omega)
        obtain ⟨rest', hrest'⟩ := hchildPrefix
        rw [hedge.prefix_eq, List.append_assoc] at hrest'
        rw [← hrest', ← hoffset, List.drop_left]
        exact List.prefix_append _ _
      rw [lookupFrom, if_neg (by omega), hk, hget]
      dsimp only
      rw [hcommon, if_neg (lt_irrefl _)]
      have hfound : y = child → (if (c.nodes child).cacheHandle.isSome ∧
          (c.nodes child).cachedLength ≤ limit then some child else best) = some child := by
        rintro rfl
        rw [if_pos ⟨hserving.stored, hlength.trans_le hlimit⟩]
      have hpos := hedge.length_lt
      rcases Relation.ReflTransGen.cases_head hbelow' with rfl | ⟨child', hchild', hbelow''⟩
      · exact h.lookupFrom_mono (hfound rfl) le_rfl
      · obtain ⟨k', hget'⟩ := mem_childrenOf.mp hchild'
        exact ih hbelow' (by omega) (by omega) hfound child' hchild' hbelow'' k' hget'
          (h.length_lt_of_child hget' hbelow'')

/-- An entry that serves a prompt is found, or a longer one. -/
theorem lookup_complete (h : Indexes Stored c s held) {tokens : List Token} {id : ℕ}
    (hserving : c.Serving tokens (BlockHashPrefixCache.maxReusable c.pageSize tokens) id) :
    ∃ b, c.lookup tokens = some b ∧
      (c.nodes id).tokenPrefix.length ≤ (c.nodes b).tokenPrefix.length := by
  obtain ⟨x, hx⟩ := Option.isSome_iff_exists.mp hserving.stored
  have hcovers := h.covers hx
  have hlimit := hserving.length_le
  have hpos := hcovers.pos
  rw [hcovers.length_eq] at hpos
  rw [lookup, if_neg (by omega)]
  refine h.tree.lookupFrom_complete hserving hcovers.length_eq hserving.attached ?_
    (Nat.sub_le _ _) ?_
  · rw [h.tree.root_prefix, List.length_nil]
  · rintro rfl
    rw [h.tree.root_prefix] at hpos
    exact absurd hpos (lt_irrefl 0)

/-- What a lookup finds serves the prompt. -/
theorem serving_of_lookup (h : Indexes Stored c s held) (hfilled : c.Filled none)
    {tokens : List Token} {id : ℕ} (hlookup : c.lookup tokens = some id) :
    c.Serving tokens (BlockHashPrefixCache.maxReusable c.pageSize tokens) id := by
  obtain ⟨hsome, n, hn, hinitial⟩ := RadixPrefixCache.lookup_eq_some h.tree hlookup
  refine ⟨hfilled.attached id hsome, hsome, hinitial ▸ List.take_prefix n tokens, ?_⟩
  rw [hinitial, List.length_take]
  exact (min_le_left _ _).trans hn

/-- **`_lookup`** finds the longest entry that serves the prompt. -/
theorem lookup_eq_some_iff (h : Indexes Stored c s held) (hfilled : c.Filled none)
    {tokens : List Token} {id : ℕ} :
    c.lookup tokens = some id ↔
      c.Serving tokens (BlockHashPrefixCache.maxReusable c.pageSize tokens) id ∧
      ∀ y, c.Serving tokens (BlockHashPrefixCache.maxReusable c.pageSize tokens) y → y ≠ id →
        (c.nodes y).tokenPrefix.length < (c.nodes id).tokenPrefix.length := by
  -- entries of one length that serve a prompt are the same
  have hunique : ∀ {x y limit}, c.Serving tokens limit x → c.Serving tokens limit y →
      (c.nodes x).tokenPrefix.length = (c.nodes y).tokenPrefix.length → x = y := by
    intro x y limit hx hy hlength
    refine h.tree.eq_of_prefix hx.attached hy.attached ?_
    rw [List.prefix_iff_eq_take.mp hx.isPrefix, List.prefix_iff_eq_take.mp hy.isPrefix, hlength]
  constructor
  · intro hlookup
    have hid := serving_of_lookup h hfilled hlookup
    refine ⟨hid, fun y hy hne => lt_of_le_of_ne ?_ fun heq => hne (hunique hy hid heq)⟩
    obtain ⟨b, hb, hle⟩ := lookup_complete h hy
    rw [hlookup] at hb
    rwa [Option.some.inj hb]
  · rintro ⟨hid, hlongest⟩
    obtain ⟨b, hb, hle⟩ := lookup_complete h hid
    by_cases hne : b = id
    · rw [hb, hne]
    · exact absurd (hlongest b (serving_of_lookup h hfilled hb) hne) (not_lt.mpr hle)

/-- **`_lookup`** finds nothing only where no entry serves the prompt. -/
theorem lookup_eq_none_iff (h : Indexes Stored c s held) (hfilled : c.Filled none)
    {tokens : List Token} :
    c.lookup tokens = none ↔
      ∀ id, ¬ c.Serving tokens (BlockHashPrefixCache.maxReusable c.pageSize tokens) id := by
  constructor
  · intro hnone id hserving
    obtain ⟨b, hb, -⟩ := lookup_complete h hserving
    rw [hnone] at hb
    cases hb
  · intro hnone
    cases hlookup : c.lookup tokens with
    | none => rfl
    | some id => exact absurd (serving_of_lookup h hfilled hlookup) (hnone id)

/-! ## Eviction -/

/-- One eviction: over the limits, an unpinned entry without descendants is dropped; the other nodes
lose at most children. -/
structure Evicts (c c' : RadixPrefixCache ρ) (id : ℕ) : Prop where
  full : c.OverLimits
  attached : c.Attached id
  stored : (c.nodes id).cacheHandle.isSome
  unpinned : (c.nodes id).pins = 0
  alone : ∀ x, c.Below id x → x = id
  gone : (c'.nodes id).cacheHandle = none
  kept : ∀ x, x ≠ id → ∃ children, c'.nodes x = { c.nodes x with children := children }

/-- The states that evictions lead to. -/
abbrev Evictions : RadixPrefixCache ρ → RadixPrefixCache ρ → Prop :=
  Relation.ReflTransGen fun c c' => ∃ id, Evicts c c' id

/-- Nothing more is to be evicted: the index is within its limits, or every entry without children
is pinned. -/
def Settled (c : RadixPrefixCache ρ) : Prop :=
  ¬ c.OverLimits ∨ ∀ id, c.Attached id → (c.nodes id).cacheHandle.isSome →
    (c.nodes id).children.entries = [] → (c.nodes id).pins ≠ 0

/-- The active handles and the published lengths do not matter. -/
theorem Settled.of_nodes (h : c.Settled) (hnodes : c'.nodes = c.nodes)
    (hnext : c'.nextNode = c.nextNode) (hentries : c'.maxEntries = c.maxEntries)
    (hbytes : c'.maxBytes = c.maxBytes) : c'.Settled := by
  have hchildren : c'.childrenOf = c.childrenOf := funext fun x => by
    rw [childrenOf, hnodes, childrenOf]
  have hwalk : c'.walkNodes = c.walkNodes := by
    rw [walkNodes, walkNodes, walkFrom_eq, walkFrom_eq, hchildren, hnext, hnodes]
  rcases h with hwithin | hpinned
  · refine .inl ?_
    rwa [OverLimits, entryCount, storedBytes, hwalk, hnodes, hentries, hbytes]
  · refine .inr fun id hid => ?_
    rw [hnodes]
    exact hpinned id ((attached_congr fun x => by rw [hnodes]).mp hid)

/-- The nodes after an eviction. -/
theorem evicted_nodes (c : RadixPrefixCache ρ) (id x : ℕ) :
    ∃ children, (evicted c id).nodes x = if x = id then
      { c.nodes id with
        cacheHandle := none, cachedLength := 0, pages := 0, bytes := 0, children := children }
      else { c.nodes x with children := children } := by
  obtain ⟨children, hnode⟩ := pruneFrom_nodes (c.setNode id { c.nodes id with
    cacheHandle := none, cachedLength := 0, pages := 0, bytes := 0 })
    (((c.setNode id { c.nodes id with
      cacheHandle := none, cachedLength := 0, pages := 0, bytes := 0 }).nodes
        id).tokenPrefix.length + 1) id x
  refine ⟨children, hnode.trans ?_⟩
  by_cases hx : x = id
  · rw [if_pos hx, hx, setNode_nodes_self]
  · rw [if_neg hx, setNode_nodes_of_ne _ hx]

/-- The root is no entry. -/
theorem Indexes.root_handle (h : Indexes Stored c s held) : (c.nodes 0).cacheHandle = none := by
  cases hroot : (c.nodes 0).cacheHandle with
  | none => rfl
  | some x =>
      have hcovers := h.covers hroot
      have hpos := hcovers.pos
      rw [hcovers.length_eq, h.tree.root_prefix] at hpos
      exact absurd hpos (lt_irrefl 0)

/-- The walk meets the entries. -/
theorem mem_entries (h : Indexes Stored c s held) (hfilled : c.Filled none) {id : ℕ} :
    id ∈ c.walkNodes.filter (fun id => (c.nodes id).cacheHandle.isSome) ↔
      (c.nodes id).cacheHandle.isSome := by
  rw [List.mem_filter, mem_walkNodes h.tree hfilled.root_parent]
  refine ⟨And.right, fun hsome => ⟨⟨hfilled.attached id hsome, ?_⟩, hsome⟩⟩
  rintro rfl
  rw [h.root_handle] at hsome
  cases hsome

/-- An eviction leaves one entry less. -/
theorem entryCount_evicted (h : Indexes Stored c s held) (hfilled : c.Filled none)
    {s' : PagedKVCacheBackend ρ κ} {id : ℕ} (h' : Indexes Stored (evicted c id) s' held)
    (hfilled' : (evicted c id).Filled none) (hsome : (c.nodes id).cacheHandle.isSome) :
    (evicted c id).entryCount + 1 = c.entryCount := by
  rw [entryCount, entryCount, List.countP_eq_length_filter, List.countP_eq_length_filter]
  have hnodup := (nodup_walkNodes h.tree hfilled.root_parent).filter
    (fun id => (c.nodes id).cacheHandle.isSome)
  have hnodup' := (nodup_walkNodes h'.tree hfilled'.root_parent).filter
    (fun x => ((evicted c id).nodes x).cacheHandle.isSome)
  have hperm : ((evicted c id).walkNodes.filter
      (fun x => ((evicted c id).nodes x).cacheHandle.isSome)).Perm
      ((c.walkNodes.filter (fun id => (c.nodes id).cacheHandle.isSome)).erase id) := by
    refine (List.perm_ext_iff_of_nodup hnodup' (hnodup.erase id)).mpr fun x => ?_
    rw [mem_entries h' hfilled', hnodup.mem_erase_iff, mem_entries h hfilled]
    obtain ⟨children, hnode⟩ := c.evicted_nodes id x
    rw [hnode]
    by_cases hx : x = id
    · rw [if_pos hx]
      simp [hx]
    · rw [if_neg hx]
      simp [hx]
  have hmem := (mem_entries h hfilled).mpr hsome
  have hpos := List.length_pos_of_mem hmem
  rw [hperm.length_eq, List.length_erase_of_mem hmem]
  omega

/-- Without entries no bytes are stored. -/
theorem not_overLimits_of_entryCount (h : Indexes Stored c s held) (hfilled : c.Filled none)
    (hzero : c.entryCount = 0) : ¬ c.OverLimits := by
  have hnone : ∀ id, (c.nodes id).cacheHandle = none := by
    intro id
    rw [entryCount, List.countP_eq_length_filter, List.length_eq_zero_iff] at hzero
    rw [← Option.not_isSome_iff_eq_none]
    intro hsome
    have hmem := (mem_entries h hfilled).mpr hsome
    rw [hzero] at hmem
    cases hmem
  have hbytes : c.storedBytes = 0 := by
    refine List.sum_eq_zero fun n hn => ?_
    obtain ⟨id, -, rfl⟩ := List.mem_map.mp hn
    exact hfilled.bytes id (hnone id)
  rw [OverLimits, hzero, hbytes]
  simp

/-- **`_evict_until_within_limits`** takes entries without descendants until nothing more is to be
evicted; more rounds would not change that. -/
theorem evictRounds_settles (hlaws : StoredLaws Stored) (h : Indexes Stored c s held)
    (hfilled : c.Filled none) (hs : s.Wf) :
    ∃ c' s', (∀ more, evictRounds (c.entryCount + more) c s = (.ok (), c', s')) ∧
      Evictions c c' ∧ c'.Settled := by
  generalize hcount : c.entryCount = n
  induction n generalizing c s with
  | zero =>
      have hwithin := not_overLimits_of_entryCount h hfilled hcount
      refine ⟨c, s, fun more => ?_, .refl, .inl hwithin⟩
      rw [Nat.zero_add]
      cases more with
      | zero => rfl
      | succ more => rw [evictRounds, if_neg hwithin]
  | succ n ih =>
      by_cases hover : c.OverLimits
      case neg =>
        refine ⟨c, s, fun more => ?_, .refl, .inl hover⟩
        rw [Nat.succ_add, evictRounds, if_neg hover]
      cases hvictim : c.victim with
      | none =>
          refine ⟨c, s, fun more => ?_, .refl, .inr fun id hid hsome hleaf hpins => ?_⟩
          · rw [Nat.succ_add, evictRounds, if_pos hover, hvictim]
          · have hnil := firstMin_eq_none.mp hvictim
            have hmem := List.mem_of_mem_filter ((mem_entries h hfilled).mpr hsome)
            exact List.filter_eq_nil_iff.mp hnil id hmem
              (decide_eq_true ⟨hsome, hpins, List.isEmpty_iff.mpr hleaf⟩)
      | some id =>
          obtain ⟨hsome, hpins, hleaf⟩ :=
            of_decide_eq_true (List.mem_filter.mp (mem_of_firstMin hvictim)).2
          obtain ⟨snapshot, hlive, hsnapshot, -, hrelease, hindexes, -, hkept⟩ :=
            h.evict hlaws hs hsome hpins
          have hremoved := entryCount_evicted h hfilled hindexes (hkept hfilled) hsome
          obtain ⟨c', s', heq, hevictions, hsettled⟩ := ih hindexes (hkept hfilled)
            (PagedKVCacheBackend.wf_released hs hlive) (by omega)
          have hevicts : Evicts c (evicted c id) id := by
            refine ⟨hover, hfilled.attached id hsome, hsome, hpins, fun x hx => ?_, ?_,
              fun x hx => ?_⟩
            · rcases Relation.ReflTransGen.cases_head hx with heq | ⟨child, hchild, -⟩
              · exact heq.symm
              · exact absurd hchild (notMem_childrenOf (List.isEmpty_iff.mp hleaf))
            · obtain ⟨children, hnode⟩ := c.evicted_nodes id id
              rw [hnode, if_pos rfl]
            · obtain ⟨children, hnode⟩ := c.evicted_nodes id x
              rw [if_neg hx] at hnode
              exact ⟨children, hnode⟩
          refine ⟨c', s', fun more => ?_, hevictions.head ⟨id, hevicts⟩, hsettled⟩
          rw [Nat.succ_add, evictRounds, if_pos hover, hvictim]
          dsimp only
          rw [hsnapshot, hrelease]
          exact heq more

/-! ## The methods -/

/-- `acquire` touches and pins an entry, and leaves the tree alone. -/
theorem Filled.acquire (h : c.Filled none) (s : PagedKVCacheBackend ρ κ) (requestId : ρ)
    (tokens : List Token) (probe : PrefixProbe) :
    (c.acquire s requestId tokens probe).2.1.Filled none := by
  rw [RadixPrefixCache.acquire]
  split
  · exact h
  rw [lookupTouch]
  cases c.lookup tokens with
  | none => exact h
  | some id =>
      have hticked : c.tick.2.Filled none := h.of_nodes rfl
      have htouched : (c.tick.2.setNode id
          { c.tick.2.nodes id with lastUsed := c.tick.1 }).Filled none :=
        hticked.touch id c.tick.1 (c.tick.2.nodes id).pins
      dsimp only at htouched ⊢
      generalize c.tick.2.setNode id _ = c₁ at htouched ⊢
      split
      · exact htouched
      have hpinned : (c₁.setNode id
          { c₁.nodes id with pins := (c₁.nodes id).pins + 1 }).Filled none :=
        htouched.touch id (c₁.nodes id).lastUsed ((c₁.nodes id).pins + 1)
      dsimp only at hpinned ⊢
      generalize c₁.setNode id _ = c₂ at hpinned ⊢
      cases (c₂.nodes id).cacheHandle with
      | none => exact hpinned
      | some snapshot =>
          dsimp only
          cases s.fork snapshot requestId (some (((c₂.nodes id).cachedLength : ℕ) : ℤ)) with
          | mk result s' =>
              cases result with
              | error e => exact hpinned
              | ok child => exact hpinned.of_nodes rfl

/-- The state in which `publish` evicts. -/
def publishEvicts (c : RadixPrefixCache ρ) (s : PagedKVCacheBackend ρ κ) (handle : Handle)
    (tokens : List Token) (committedLength : ℕ) :
    Option (RadixPrefixCache ρ × PagedKVCacheBackend ρ κ) :=
  let publishLength := min committedLength tokens.length / c.pageSize * c.pageSize
  let previous := (c.publishedLengths.get? handle).getD 0
  if publishLength = 0 ∨ publishLength ≤ previous then none
  else
    let startLength := (previous / c.pageSize + 1) * c.pageSize
    match publishPages handle tokens ((publishLength + c.pageSize - startLength) / c.pageSize)
      startLength 0 c s with
    | (.error _, _) => none
    | (.ok _, c, s) => some (c, s)

/-- The index in which `release` evicts: the handle no longer pins its node. -/
def releaseEvicts (c : RadixPrefixCache ρ) (handle : Handle) : Option (RadixPrefixCache ρ) :=
  (c.activeHandles.get? handle).map fun id =>
    { c with
      publishedLengths := c.publishedLengths.pop handle
      activeHandles := c.activeHandles.pop handle }.setNode id
        { c.nodes id with pins := (c.nodes id).pins - 1 }

/-- What `evictUntilWithinLimits` does in a state: it ends, and would with more rounds. -/
def EvictsTo (c : RadixPrefixCache ρ) (s : PagedKVCacheBackend ρ κ) (c' : RadixPrefixCache ρ) :
    Prop :=
  (∃ s', ∀ more, evictRounds (c.entryCount + more) c s = (.ok (), c', s')) ∧
    Evictions c c' ∧ c'.Settled

/-- The nodes that `publish` leaves are those of the eviction. -/
theorem publish_evicts (hlaws : StoredLaws Stored) (h : Indexes Stored c s held)
    (hfilled : c.Filled none) (hs : s.Wf) (hheld : ∀ x ∈ held, x < s.nextHandle) {handle : Handle}
    {tokens : List Token} {n : ℕ} (hst : Stored s handle (tokens.take n)) {c₁ : RadixPrefixCache ρ}
    {s₁ : PagedKVCacheBackend ρ κ} (hevicts : c.publishEvicts s handle tokens n = some (c₁, s₁)) :
    ∃ c₂, EvictsTo c₁ s₁ c₂ ∧ (c.publish s handle tokens n).2.1.nodes = c₂.nodes ∧
      (c.publish s handle tokens n).2.1.Settled := by
  rw [publishEvicts] at hevicts
  rw [publish]
  dsimp only at hevicts ⊢
  generalize (c.publishedLengths.get? handle).getD 0 = previous at hevicts ⊢
  by_cases hnothing : min n tokens.length / c.pageSize * c.pageSize = 0 ∨
      min n tokens.length / c.pageSize * c.pageSize ≤ previous
  · rw [if_pos hnothing] at hevicts
    cases hevicts
  rw [if_neg hnothing] at hevicts ⊢
  obtain ⟨last, c', s', heq, hshares, hindexes, hkept⟩ :=
    h.publishLoop_eq hlaws hs hheld hst previous
  rw [heq] at hevicts ⊢
  obtain ⟨rfl, rfl⟩ := Prod.mk.inj (Option.some.inj hevicts)
  obtain ⟨c₂, s₂, hrounds, hevictions, hsettled⟩ :=
    evictRounds_settles hlaws hindexes (hkept hfilled) (hshares.wf hs)
  refine ⟨c₂, ⟨⟨s₂, hrounds⟩, hevictions, hsettled⟩, ?_⟩
  have hevict := hrounds 0
  rw [Nat.add_zero] at hevict
  dsimp only
  rw [evictUntilWithinLimits, hevict]
  dsimp only
  split
  · exact ⟨rfl, hsettled⟩
  · exact ⟨rfl, hsettled.of_nodes rfl rfl rfl rfl⟩

/-- The nodes that `release` leaves are those of the eviction. -/
theorem release_evicts (hlaws : StoredLaws Stored) (h : Indexes Stored c s held)
    (hfilled : c.Filled none) (hs : s.Wf) {handle : Handle} {c₁ : RadixPrefixCache ρ}
    (hevicts : c.releaseEvicts handle = some c₁) :
    ∃ c₂, EvictsTo c₁ s c₂ ∧ (c.release s (some handle)).2.1.nodes = c₂.nodes ∧
      (c.release s (some handle)).2.1.Settled := by
  rw [releaseEvicts] at hevicts
  cases hactive : c.activeHandles.get? handle with
  | none =>
      rw [hactive] at hevicts
      cases hevicts
  | some id =>
      rw [hactive] at hevicts
      obtain rfl := Option.some.inj hevicts
      have hunpinned := (hfilled.touch id (c.nodes id).lastUsed ((c.nodes id).pins - 1))
      obtain ⟨c₂, s₂, hrounds, hevictions, hsettled⟩ :=
        evictRounds_settles hlaws (h.unpin hactive) (hunpinned.of_nodes rfl) hs
      have hrelease : c.release s (some handle) = (.ok (), c₂, s₂) := by
        rw [release]
        dsimp only
        rw [hactive]
        have hevict := hrounds 0
        rwa [Nat.add_zero] at hevict
      rw [hrelease]
      exact ⟨c₂, ⟨⟨s₂, hrounds⟩, hevictions, hsettled⟩, rfl, hsettled⟩

end RadixPrefixCache

/-! ## Runs -/

namespace PrefixStore

variable [DecidableEq η] {w : PrefixStore ρ κ η}

/-- The radix index, and the store below it, in which a call evicts. -/
def radixEvicts (w : PrefixStore ρ κ η) (op : PrefixOp ρ κ) :
    Option (RadixPrefixCache ρ × PagedKVCacheBackend ρ κ) :=
  match w.coordinator.prefixCache, op with
  | .radix c, .publishCommitted handle tokens n =>
      c.publishEvicts w.coordinator.backend handle tokens n
  | .radix c, .release (some handle) =>
      (c.releaseEvicts handle).map fun c => (c, w.coordinator.backend)
  | _, _ => none

instance (w : PrefixStore ρ κ η) : DecidablePred (w.Follows LongEnough)
  | .publishCommitted _ _ _ => inferInstanceAs (Decidable (_ ∧ _))
  | .release (some _) => inferInstanceAs (Decidable ((∀ r ∈ w.store.outstanding, _) ∧ _))
  | .execute (.reserveBatch caches _) => inferInstanceAs (Decidable (∀ h ∈ caches, _))
  | .execute (.create _) | .execute (.fork _ _ _) | .execute (.release _)
  | .execute (.reset _) => inferInstanceAs (Decidable False)
  | .probe _ | .acquire _ _ _ | .release none | .execute (.get _ _)
  | .execute (.stageLayer _ _ _) | .execute (.commit _) | .execute .abort =>
      inferInstanceAs (Decidable True)

/-- What a run with a radix index keeps. -/
structure KeepsRadix (w : PrefixStore ρ κ η) : Prop where
  keeps : w.Keeps LongEnough
  filled : ∃ c, w.coordinator.prefixCache = .radix c ∧ c.Filled none

/-- The index of such a run. -/
theorem KeepsRadix.indexes (h : w.KeepsRadix) {c : RadixPrefixCache ρ}
    (hcache : w.coordinator.prefixCache = .radix c) :
    RadixPrefixCache.Indexes LongEnough c w.coordinator.backend w.held := by
  have hindexes := h.keeps.sound.indexes
  rwa [hcache] at hindexes

/-- **The step lemma.** -/
theorem keepsRadix_step [DecidableEq ρ] (h : w.KeepsRadix) {op : PrefixOp ρ κ}
    (hok : w.Follows LongEnough op) : (w.step op).2.KeepsRadix := by
  refine ⟨keeps_step storedLaws_length longEnough_of_rows h.keeps hok, ?_⟩
  obtain ⟨c, hcache, hfilled⟩ := h.filled
  have hindexes := h.indexes hcache
  have hs := h.keeps.sound.wf
  have hheld := fun x hx => hs.fresh x (h.keeps.sound.live x hx)
  clear h
  obtain ⟨⟨s, cache⟩, reservation, held⟩ := w
  obtain rfl : cache = .radix c := hcache
  cases op with
  | probe tokens => exact ⟨c, rfl, hfilled⟩
  | execute op => exact ⟨c, rfl, hfilled⟩
  | acquire requestId tokens probe =>
      rw [step, NativeCacheCoordinator.acquire]
      dsimp only
      split
      · exact ⟨c, rfl, hfilled⟩
      rw [PrefixCache.acquire]
      have hacquired := hfilled.acquire s requestId tokens (probe.getD (c.probe tokens))
      rw [NativeCacheCoordinator.probe, PrefixCache.probe]
      cases hcall : c.acquire s requestId tokens (probe.getD (c.probe tokens)) with
      | mk result after =>
          rw [hcall] at hacquired
          obtain ⟨c', s'⟩ := after
          cases result with
          | error e => exact ⟨c', rfl, hacquired⟩
          | ok admission => cases admission <;> exact ⟨c', rfl, hacquired⟩
  | publishCommitted handle tokens n =>
      obtain ⟨publication, c', s', heq, -, -, hkept⟩ :=
        hindexes.publish_eq storedLaws_length hs hheld hok
      refine ⟨c', ?_, hkept hfilled⟩
      rw [step, NativeCacheCoordinator.publishCommitted, PrefixCache.publish]
      dsimp only
      rw [heq]
  | release handle =>
      cases handle with
      | none => exact ⟨c, rfl, hfilled⟩
      | some handle =>
          obtain ⟨c', s', heq, -, -, -, hkept⟩ :=
            hindexes.release_eq storedLaws_length hs handle
          refine ⟨c', ?_, hkept hfilled⟩
          rw [step, NativeCacheCoordinator.release, PrefixCache.release]
          dsimp only
          rw [heq]

/-- What a call evicts. -/
theorem KeepsRadix.evicts [DecidableEq ρ] (h : w.KeepsRadix) {op : PrefixOp ρ κ}
    (hok : w.Follows LongEnough op) {c₁ : RadixPrefixCache ρ} {s₁ : PagedKVCacheBackend ρ κ}
    (hevicts : w.radixEvicts op = some (c₁, s₁)) :
    ∃ c₂ c', c₁.EvictsTo s₁ c₂ ∧ (w.step op).2.coordinator.prefixCache = .radix c' ∧
      c'.nodes = c₂.nodes ∧ c'.Settled := by
  obtain ⟨c, hcache, hfilled⟩ := h.filled
  have hindexes := h.indexes hcache
  have hs := h.keeps.sound.wf
  have hheld := fun x hx => hs.fresh x (h.keeps.sound.live x hx)
  clear h
  obtain ⟨⟨s, cache⟩, reservation, held⟩ := w
  obtain rfl : cache = .radix c := hcache
  cases op with
  | probe tokens => cases hevicts
  | acquire requestId tokens probe => cases hevicts
  | execute op => cases hevicts
  | publishCommitted handle tokens n =>
      obtain ⟨c₂, hto, hnodes⟩ :=
        RadixPrefixCache.publish_evicts storedLaws_length hindexes hfilled hs hheld hok hevicts
      exact ⟨c₂, _, hto, rfl, hnodes⟩
  | release handle =>
      cases handle with
      | none => cases hevicts
      | some handle =>
          have hevicts : (c.releaseEvicts handle).map (fun c => (c, s)) = some (c₁, s₁) := hevicts
          obtain ⟨c₁', hc₁, heq⟩ := Option.map_eq_some_iff.mp hevicts
          obtain ⟨rfl, rfl⟩ := Prod.mk.inj heq
          obtain ⟨c₂, hto, hnodes⟩ :=
            RadixPrefixCache.release_evicts storedLaws_length hindexes hfilled hs hc₁
          refine ⟨c₂, (c.release s (some handle)).2.1, hto, ?_, hnodes⟩
          rw [step, NativeCacheCoordinator.release, PrefixCache.release]
          dsimp only
          cases hcall : c.release s (some handle) with
          | mk result after => cases result <;> rfl

/-- **The radix index is correct** in every run: the tree is well formed, a lookup finds the longest
entry that serves the prompt and nothing only where none does, and whatever call evicts, its
eviction takes unpinned entries without descendants until nothing more is to be evicted. -/
theorem radixIndex_correct [DecidableEq ρ] {config : PagedKVConfig} {zero : κ} {noRequest : ρ}
    {store : KVStore ρ κ} {cache₀ cache : RadixPrefixCache ρ} {ops : List (PrefixOp ρ κ)}
    (hstore : KVStore.ofConfig config zero noRequest = .ok store)
    (hcache : cache₀.postInit = .ok cache)
    (hops : Run.Each step (Follows LongEnough)
      (⟨⟨store.backend, .radix cache⟩, store.reservation, ∅⟩ : PrefixStore ρ κ η) ops) :
    let w : PrefixStore ρ κ η :=
      Run.exec step ⟨⟨store.backend, .radix cache⟩, store.reservation, ∅⟩ ops
    ∃ c, w.coordinator.prefixCache = .radix c ∧ c.WellFormed ∧
      (∀ tokens id, c.lookup tokens = some id ↔
        c.Serving tokens (BlockHashPrefixCache.maxReusable c.pageSize tokens) id ∧
        ∀ y, c.Serving tokens (BlockHashPrefixCache.maxReusable c.pageSize tokens) y → y ≠ id →
          (c.nodes y).tokenPrefix.length < (c.nodes id).tokenPrefix.length) ∧
      (∀ tokens, c.lookup tokens = none ↔
        ∀ id, ¬ c.Serving tokens (BlockHashPrefixCache.maxReusable c.pageSize tokens) id) ∧
      ∀ op, w.Follows LongEnough op → ∀ c₁ s₁, w.radixEvicts op = some (c₁, s₁) →
        ∃ c₂ c', c₁.EvictsTo s₁ c₂ ∧ (w.step op).2.coordinator.prefixCache = .radix c' ∧
          c'.nodes = c₂.nodes ∧ c'.Settled := by
  intro w
  have hpost : (PrefixCache.radix cache₀ : PrefixCache ρ η).postInit = .ok (.radix cache) := by
    rw [PrefixCache.postInit, hcache]
    rfl
  have hstart : KeepsRadix (⟨⟨store.backend, .radix cache⟩, store.reservation, ∅⟩ :
      PrefixStore ρ κ η) := ⟨keeps_ofConfig hstore hpost, cache, rfl,
    RadixPrefixCache.filled_postInit hcache⟩
  have hstep : ∀ (w : PrefixStore ρ κ η) op, w.KeepsRadix → w.Follows LongEnough op →
      (w.step op).2.KeepsRadix := fun w op h hok => keepsRadix_step h hok
  have h : w.KeepsRadix := Run.exec_invariant hstep hstart hops
  obtain ⟨c, hcache', hfilled'⟩ := h.filled
  have hindexes := h.indexes hcache'
  exact ⟨c, hcache', RadixPrefixCache.wellFormed hindexes hfilled',
    fun tokens id => RadixPrefixCache.lookup_eq_some_iff hindexes hfilled',
    fun tokens => RadixPrefixCache.lookup_eq_none_iff hindexes hfilled',
    fun op hok c₁ s₁ hevicts => h.evicts hok hevicts⟩

/-- A radix index of at most three pages. -/
def radixThreePages : RadixPrefixCache ℕ where
  pageSize := 8
  maxEntries := 4
  maxBytes := 96
  snapshotId := fun _ => 9
  readings := fun _ => 0

/-- The next prompt finds the second page of a prompt that was published. -/
theorem radixIndex_publishSixteen : ∃ store cache,
    KVStore.ofConfig KVStore.threePages 0 0 = .ok store ∧ radixThreePages.postInit = .ok cache ∧
      let w : PrefixStore ℕ ℕ Unit := Run.exec step
        ⟨⟨store.backend, .radix cache⟩, store.reservation, ∅⟩ publishSixteen
      ∃ c, w.coordinator.prefixCache = .radix c ∧ c.WellFormed ∧
        ∃ id, c.lookup (List.range 17) = some id ∧ c.Serving (List.range 17) 16 id := by
  refine ⟨_, _, rfl, rfl, ?_⟩
  have hstore : KVStore.ofConfig KVStore.threePages 0 0 = .ok (_ : KVStore ℕ ℕ) := rfl
  have hcache : radixThreePages.postInit = .ok _ := rfl
  obtain ⟨c, hc, hwellFormed, hsome, -, -⟩ :=
    @radixIndex_correct _ _ Unit _ _ _ _ _ _ _ _ publishSixteen hstore hcache (by decide)
  refine ⟨c, hc, hwellFormed, ?_⟩
  have hprobe : ((PrefixCache.radix c : PrefixCache ℕ Unit).probe (List.range 17)).matchedTokens =
      16 := by
    rw [← hc]
    decide
  have hpageSize : (PrefixCache.radix c : PrefixCache ℕ Unit).pageSize = 8 := by
    rw [← hc]
    decide
  rw [PrefixCache.probe, RadixPrefixCache.probe] at hprobe
  cases hlookup : c.lookup (List.range 17) with
  | none =>
      rw [hlookup] at hprobe
      cases hprobe
  | some id =>
      have hserving := ((hsome _ id).mp hlookup).1
      rw [show c.pageSize = 8 from hpageSize] at hserving
      exact ⟨id, rfl, hserving⟩

end PrefixStore
end MlxRuntime
