import MlxRuntime.Lib.Forest
import MlxRuntime.Prefix.RadixTree

/-!
# The nodes of the radix tree

The heap of node objects also holds nodes that were cut off.  The tree is what can be reached from
the root.  Every leaf of it holds a snapshot: an insertion makes at most one leaf without, which
`publish` fills, and an eviction cuts off the nodes that it leaves empty.

## Main definitions

* `RadixPrefixCache.Attached` — the nodes of the tree.
* `RadixPrefixCache.Filled` — what the tree keeps: its leaves hold snapshots, and so on.
* `mem_walkNodes`, `nodup_walkNodes` — the walk over the tree.
* `insertPrefix_inserts`, `Filled.prune` — insertion and pruning.
-/

namespace MlxRuntime.RadixPrefixCache

variable {ρ κ : Type} {c c' : RadixPrefixCache ρ}

/-- The children of a node. -/
def childrenOf (c : RadixPrefixCache ρ) (id : ℕ) : List ℕ := (c.nodes id).children.values

/-- A node is below another one, or is the same. -/
abbrev Below (c : RadixPrefixCache ρ) : ℕ → ℕ → Prop := Forest.Below c.childrenOf

/-- A node of the tree. -/
abbrev Attached (c : RadixPrefixCache ρ) (id : ℕ) : Prop := c.Below 0 id

theorem mem_childrenOf {id child : ℕ} :
    child ∈ c.childrenOf id ↔ ∃ k, (c.nodes id).children.get? k = some child := by
  simp only [childrenOf, Dict.mem_values, Dict.get?_eq_some]

/-- A node without children has none. -/
theorem notMem_childrenOf {id child : ℕ} (h : (c.nodes id).children.entries = []) :
    child ∉ c.childrenOf id := by
  rw [childrenOf, Dict.values, h]
  exact List.not_mem_nil

/-- What the tree keeps; `fresh` is a node that may be an empty leaf. -/
structure Filled (c : RadixPrefixCache ρ) (fresh : Option ℕ) : Prop where
  root_parent : (c.nodes 0).parent = none
  leaf : ∀ id, c.Attached id → id ≠ 0 → some id ≠ fresh → (c.nodes id).children.entries = [] →
    (c.nodes id).cacheHandle.isSome
  attached : ∀ id, (c.nodes id).cacheHandle.isSome → c.Attached id
  bytes : ∀ id, (c.nodes id).cacheHandle = none → (c.nodes id).bytes = 0

/-! ## Walking over the tree -/

theorem isForest (h : c.IsTree) (hroot : (c.nodes 0).parent = none) :
    Forest.IsForest c.childrenOf (fun id => (c.nodes id).parent) 0 (Finset.range c.nextNode) where
  nodup x := by
    -- a child is filed under the first token of its edge
    have hkeys : (c.nodes x).children.keys.Nodup := (c.nodes x).children.nodup_keys
    refine List.Nodup.map_on (fun entry hentry entry' hentry' heq => ?_) hkeys.of_map
    have hhead := (h.edge (Dict.get?_eq_some.mpr hentry)).head_eq
    have hhead' := (h.edge (Dict.get?_eq_some.mpr hentry')).head_eq
    rw [heq] at hhead
    exact Prod.ext (Option.some.inj (hhead.symm.trans hhead')) heq
  parent_eq hy := by
    obtain ⟨k, hget⟩ := mem_childrenOf.mp hy
    exact (h.edge hget).parent_eq
  root_eq := hroot
  mem hy := by
    obtain ⟨k, hget⟩ := mem_childrenOf.mp hy
    exact Finset.mem_range.mpr (h.edge hget).lt

theorem walkFrom_eq (c : RadixPrefixCache ρ) (rounds : ℕ) (pending : List ℕ) :
    c.walkFrom rounds pending = Forest.walk c.childrenOf rounds pending := by
  induction rounds generalizing pending with
  | zero => rfl
  | succ rounds ih =>
      rw [walkFrom, Forest.walk]
      cases pending.getLast? with
      | none => rfl
      | some node => exact congrArg (node :: ·) (ih _)

/-- **`_walk_nodes`** lists the nodes of the tree but the root, without repetition. -/
theorem mem_walkNodes (h : c.IsTree) (hroot : (c.nodes 0).parent = none) {id : ℕ} :
    id ∈ c.walkNodes ↔ c.Attached id ∧ id ≠ 0 := by
  rw [walkNodes, walkFrom_eq]
  exact Forest.mem_walk (isForest h hroot) (Finset.card_range _).le

theorem nodup_walkNodes (h : c.IsTree) (hroot : (c.nodes 0).parent = none) :
    c.walkNodes.Nodup := by
  rw [walkNodes, walkFrom_eq]
  exact Forest.nodup_walk (isForest h hroot) (Finset.card_range _).le

/-! ## Changes of the heap -/

/-- The tree is a matter of the children. -/
theorem below_congr (h : ∀ x, (c'.nodes x).children = (c.nodes x).children) :
    c'.Below = c.Below := by
  have hsame : c'.childrenOf = c.childrenOf := funext fun x => by rw [childrenOf, h, childrenOf]
  rw [Below, Below, hsame]

theorem attached_congr (h : ∀ x, (c'.nodes x).children = (c.nodes x).children) {x : ℕ} :
    c'.Attached x ↔ c.Attached x := by rw [Attached, Attached, below_congr h]

/-- A node keeps its place; it may be filled or left empty. -/
theorem Filled.setNode {fresh : Option ℕ} (h : Filled c fresh) {id : ℕ} {node : RadixNode}
    (hchildren : node.children = (c.nodes id).children) (hparent : node.parent = (c.nodes id).parent)
    (fresh' : Option ℕ) (hfresh : ∀ x, some x ≠ fresh' → x = id ∨ some x ≠ fresh)
    (hleaf : some id ≠ fresh' → node.children.entries = [] → node.cacheHandle.isSome)
    (hattached : node.cacheHandle.isSome → c.Attached id)
    (hbytes : node.cacheHandle = none → node.bytes = 0) :
    Filled (c.setNode id node) fresh' := by
  have hsame : ∀ x, ((c.setNode id node).nodes x).children = (c.nodes x).children := by
    intro x
    by_cases hx : x = id
    · rw [hx, setNode_nodes_self, hchildren]
    · rw [setNode_nodes_of_ne _ hx]
  refine ⟨?_, fun x hx hne hnew hempty => ?_, fun x hsome => ?_, fun x hnone => ?_⟩
  · by_cases hx : 0 = id
    · rw [hx, setNode_nodes_self, hparent, ← hx]
      exact h.root_parent
    · rw [setNode_nodes_of_ne _ hx]
      exact h.root_parent
  · by_cases hxid : x = id
    · subst hxid
      rw [setNode_nodes_self] at hempty ⊢
      exact hleaf hnew hempty
    · rw [setNode_nodes_of_ne _ hxid] at hempty ⊢
      exact h.leaf x ((attached_congr hsame).mp hx) hne ((hfresh x hnew).resolve_left hxid) hempty
  · rw [attached_congr hsame]
    by_cases hxid : x = id
    · subst hxid
      rw [setNode_nodes_self] at hsome
      exact hattached hsome
    · rw [setNode_nodes_of_ne _ hxid] at hsome
      exact h.attached x hsome
  · by_cases hxid : x = id
    · subst hxid
      rw [setNode_nodes_self] at hnone ⊢
      exact hbytes hnone
    · rw [setNode_nodes_of_ne _ hxid] at hnone ⊢
      exact h.bytes x hnone

/-- Only children, parents, snapshots and bytes matter. -/
theorem Filled.congr {fresh : Option ℕ} (h : Filled c fresh)
    (hchildren : ∀ x, (c'.nodes x).children = (c.nodes x).children)
    (hparent : ∀ x, (c'.nodes x).parent = (c.nodes x).parent)
    (hhandle : ∀ x, (c'.nodes x).cacheHandle = (c.nodes x).cacheHandle)
    (hbytes : ∀ x, (c'.nodes x).bytes = (c.nodes x).bytes) : Filled c' fresh := by
  refine ⟨(hparent 0).trans h.root_parent, fun x hx hne hnew hempty => ?_, fun x hsome => ?_,
    fun x hnone => ?_⟩
  · rw [hchildren] at hempty
    rw [hhandle]
    exact h.leaf x ((attached_congr hchildren).mp hx) hne hnew hempty
  · rw [hhandle] at hsome
    exact (attached_congr hchildren).mpr (h.attached x hsome)
  · rw [hhandle] at hnone
    exact (hbytes x).trans (h.bytes x hnone)

/-- The clock, the active handles and the published lengths are no part of the tree. -/
theorem Filled.of_nodes {fresh : Option ℕ} (h : Filled c fresh) (hnodes : c'.nodes = c.nodes) :
    Filled c' fresh :=
  h.congr (fun x => by rw [hnodes]) (fun x => by rw [hnodes]) (fun x => by rw [hnodes])
    fun x => by rw [hnodes]

/-- The use and the pins of a node are no part of the tree. -/
theorem Filled.touch {fresh : Option ℕ} (h : Filled c fresh) (id lastUsed pins : ℕ) :
    Filled (c.setNode id { c.nodes id with lastUsed := lastUsed, pins := pins }) fresh := by
  refine h.congr (fun x => ?_) (fun x => ?_) (fun x => ?_) fun x => ?_ <;>
    by_cases hx : x = id <;> simp [hx, setNode_nodes_of_ne]

/-- A node of the tree with a snapshot is no empty leaf. -/
theorem Filled.fill {fresh : Option ℕ} (h : Filled c fresh) {id : ℕ} {node : RadixNode}
    (hfresh : fresh = none ∨ fresh = some id) (hchildren : node.children = (c.nodes id).children)
    (hparent : node.parent = (c.nodes id).parent) (hsome : node.cacheHandle.isSome)
    (hattached : node.cacheHandle.isSome → c.Attached id) : Filled (c.setNode id node) none := by
  refine h.setNode hchildren hparent none (fun x _ => ?_) (fun _ _ => hsome) hattached
    fun hnone => ?_
  · by_cases hx : x = id
    · exact .inl hx
    · refine .inr fun heq => ?_
      rcases hfresh with rfl | rfl
      · cases heq
      · exact hx (Option.some.inj heq)
  · rw [hnone] at hsome
    cases hsome

/-! ## Insertion -/

/-- What an insertion does to the tree: nothing is cut off, and at most one leaf is new. -/
structure Inserts (c c' : RadixPrefixCache ρ) (fresh : Option ℕ) : Prop where
  handle_eq : ∀ x, (c'.nodes x).cacheHandle = (c.nodes x).cacheHandle
  bytes_eq : ∀ x, (c'.nodes x).bytes = (c.nodes x).bytes
  root_parent : (c'.nodes 0).parent = (c.nodes 0).parent
  attached : ∀ x, c.Attached x → c'.Attached x
  leaf : ∀ x, c'.Attached x → (c'.nodes x).children.entries = [] → some x = fresh ∨
    c.Attached x ∧ (c.nodes x).children.entries = []

theorem Inserts.refl (c : RadixPrefixCache ρ) : Inserts c c none :=
  ⟨fun _ => rfl, fun _ => rfl, rfl, fun _ => id, fun _ hx hempty => .inr ⟨hx, hempty⟩⟩

theorem Inserts.trans {c'' : RadixPrefixCache ρ} {fresh : Option ℕ} (h : Inserts c c' none)
    (h' : Inserts c' c'' fresh) : Inserts c c'' fresh where
  handle_eq x := (h'.handle_eq x).trans (h.handle_eq x)
  bytes_eq x := (h'.bytes_eq x).trans (h.bytes_eq x)
  root_parent := h'.root_parent.trans h.root_parent
  attached x hx := h'.attached x (h.attached x hx)
  leaf x hx hempty := by
    rcases h'.leaf x hx hempty with hnew | ⟨hx', hempty'⟩
    · exact .inl hnew
    · exact .inr ((h.leaf x hx' hempty').resolve_left (Option.some_ne_none x))

theorem Filled.inserts {fresh : Option ℕ} (h : Filled c none) (hinserts : Inserts c c' fresh) :
    Filled c' fresh where
  root_parent := hinserts.root_parent.trans h.root_parent
  leaf x hx hne hnew hempty := by
    rw [hinserts.handle_eq]
    obtain ⟨hx', hempty'⟩ := (hinserts.leaf x hx hempty).resolve_left hnew
    exact h.leaf x hx' hne (Option.some_ne_none x) hempty'
  attached x hsome := hinserts.attached x (h.attached x (hinserts.handle_eq x ▸ hsome))
  bytes x hnone := (hinserts.bytes_eq x).trans (h.bytes x (hinserts.handle_eq x ▸ hnone))

/-- Where the common prefix stops, the next tokens differ. -/
theorem head?_drop_commonPrefixLen {xs ys : List Token}
    (hlt : commonPrefixLen xs ys < xs.length) :
    (xs.drop (commonPrefixLen xs ys)).head? ≠ (ys.drop (commonPrefixLen xs ys)).head? := by
  induction xs generalizing ys with
  | nil => simp at hlt
  | cons x xs ih =>
      cases ys with
      | nil => simp [commonPrefixLen]
      | cons y ys =>
          rw [commonPrefixLen] at hlt ⊢
          split
          case isTrue heq =>
            rw [if_pos heq, List.length_cons] at hlt
            rw [List.drop_succ_cons, List.drop_succ_cons]
            exact ih (by omega)
          case isFalse hne =>
            rw [List.drop_zero, List.drop_zero, List.head?_cons, List.head?_cons]
            exact fun heq => hne (Option.some.inj heq)

/-- A dictionary that was assigned to is not empty. -/
theorem entries_set_ne_nil (d : Dict Token ℕ) (k : Token) (v : ℕ) : (d.set k v).entries ≠ [] := by
  intro hempty
  have hmem : k ∈ (d.set k v).keys := Dict.mem_keys_set.mpr (.inl rfl)
  rw [Dict.keys, hempty] at hmem
  cases hmem

/-- An edge has tokens. -/
theorem Edge.length_lt {id child : ℕ} {k : Token} (h : c.Edge id k child) :
    (c.nodes id).tokenPrefix.length < (c.nodes child).tokenPrefix.length := by
  rw [h.prefix_eq, List.length_append]
  have hpos : 0 < (c.nodes child).edgeTokens.length := by
    rw [List.length_pos_iff]
    intro hnil
    have hhead := h.head_eq
    rw [hnil] at hhead
    cases hhead
  omega

theorem Edge.ne {id child : ℕ} {k : Token} (h : c.Edge id k child) : child ≠ id := by
  rintro rfl
  exact lt_irrefl _ h.length_lt

/-- The tree after a split. -/
theorem splitEdge_inserts (h : c.IsTree) (hroot : (c.nodes 0).parent = none) (tokens : List Token)
    {id child : ℕ} {k : Token} (offset : ℕ) {common : ℕ} (hid : c.Attached id)
    (hlt : id < c.nextNode) (hget : (c.nodes id).children.get? k = some child) (hpos : 0 < common) :
    Inserts c (c.splitEdge tokens id child offset common).2 none ∧
      (c.splitEdge tokens id child offset common).2.Attached c.nextNode := by
  have hedge := h.edge hget
  have hne := hedge.ne
  obtain ⟨hsplit, hnode, hchild, hother⟩ :=
    c.splitEdge_nodes tokens offset common (ne_of_gt hlt) (ne_of_gt hedge.lt) hne
  generalize (c.splitEdge tokens id child offset common).2 = c' at *
  have hblank := h.blank c.nextNode le_rfl
  have hhead : ((c.nodes child).edgeTokens.take common).headD 0 = k := by
    rw [List.headD_eq_head?_getD, List.head?_take, if_neg hpos.ne', hedge.head_eq,
      Option.getD_some]
  rw [hhead] at hnode
  -- the split node is a child of `id`, and has the child that `id` had
  have hup : c.nextNode ∈ c'.childrenOf id := by
    rw [mem_childrenOf]
    refine ⟨k, ?_⟩
    rw [hnode, Dict.get?_set_self]
  have hdown : child ∈ c'.childrenOf c.nextNode := by
    rw [mem_childrenOf]
    refine ⟨((c.nodes child).edgeTokens.drop common).headD 0, ?_⟩
    rw [hsplit, Dict.get?_set_self]
  have hkept : ∀ {x y}, y ∈ c.childrenOf x → y ∈ c'.childrenOf x ∨ x = id ∧ y = child := by
    intro x y hy
    obtain ⟨k', hget'⟩ := mem_childrenOf.mp hy
    have hxn : x ≠ c.nextNode := by
      rintro rfl
      rw [hblank] at hget'
      cases hget'
    by_cases hx : x = id
    · subst hx
      by_cases hk : k' = k
      · rw [hk, hget] at hget'
        exact .inr ⟨rfl, (Option.some.inj hget').symm⟩
      · refine .inl (mem_childrenOf.mpr ⟨k', ?_⟩)
        rw [hnode, Dict.get?_set, if_neg hk, hget']
    · refine .inl (mem_childrenOf.mpr ⟨k', ?_⟩)
      by_cases hxc : x = child
      · rw [hxc, hchild, ← hxc, hget']
      · rw [hother x hxn hx hxc, hget']
  have hattached : ∀ x, c.Attached x → c'.Attached x := by
    intro x hx
    induction hx with
    | refl => exact .refl
    | tail _ hstep ih =>
        rcases hkept hstep with hstep' | ⟨rfl, rfl⟩
        · exact ih.tail hstep'
        · exact (ih.tail hup).tail hdown
  have hold : ∀ x, c'.Attached x → x = c.nextNode ∨ c.Attached x := by
    intro x hx
    induction hx with
    | refl => exact .inr .refl
    | @tail y z _ hstep ih =>
        obtain ⟨k', hget'⟩ := mem_childrenOf.mp hstep
        by_cases hyn : y = c.nextNode
        · rw [hyn, hsplit, Dict.get?_set] at hget'
          split at hget'
          · obtain rfl := Option.some.inj hget'
            exact .inr (hid.tail (mem_childrenOf.mpr ⟨k, hget⟩))
          · cases hget'
        have hy := ih.resolve_left hyn
        by_cases hyid : y = id
        · rw [hyid, hnode, Dict.get?_set] at hget'
          split at hget'
          · exact .inl (Option.some.inj hget').symm
          · exact .inr (hid.tail (mem_childrenOf.mpr ⟨k', hget'⟩))
        · refine .inr (hy.tail (mem_childrenOf.mpr ⟨k', ?_⟩))
          by_cases hyc : y = child
          · rwa [hyc, hchild, ← hyc] at hget'
          · rwa [hother y hyn hyid hyc] at hget'
  have hsame : ∀ x, (c'.nodes x).cacheHandle = (c.nodes x).cacheHandle ∧
      (c'.nodes x).bytes = (c.nodes x).bytes := by
    intro x
    by_cases hxn : x = c.nextNode
    · rw [hxn, hsplit, hblank]
      exact ⟨rfl, rfl⟩
    by_cases hx : x = id
    · rw [hx, hnode]
      exact ⟨rfl, rfl⟩
    by_cases hxc : x = child
    · rw [hxc, hchild]
      exact ⟨rfl, rfl⟩
    · rw [hother x hxn hx hxc]
      exact ⟨rfl, rfl⟩
  refine ⟨⟨fun x => (hsame x).1, fun x => (hsame x).2, ?_, hattached, fun x hx hempty => ?_⟩,
    (hattached id hid).tail hup⟩
  · have hchild₀ : 0 ≠ child := by
      rintro rfl
      rw [hedge.parent_eq] at hroot
      cases hroot
    by_cases hid₀ : 0 = id
    · rw [← hid₀] at hnode
      rw [hnode]
    · rw [hother 0 (ne_of_lt h.root_lt) hid₀ hchild₀]
  · have hxn : x ≠ c.nextNode := by
      rintro rfl
      exact notMem_childrenOf hempty hdown
    have hxid : x ≠ id := by
      rintro rfl
      exact notMem_childrenOf hempty hup
    refine .inr ⟨(hold x hx).resolve_left hxn, ?_⟩
    by_cases hxc : x = child
    · rwa [hxc, hchild, ← hxc] at hempty
    · rwa [hother x hxn hxid hxc] at hempty

/-- The tree with a new leaf. -/
theorem addLeaf_inserts (h : c.IsTree) {tokens : List Token} {id offset : ℕ} (hid : c.Attached id)
    (hlt : id < c.nextNode) (hnone : (c.nodes id).children.get? ((tokens.drop offset).headD 0) = none) :
    Inserts c (c.addLeaf tokens id offset).2 (some c.nextNode) ∧
      (c.addLeaf tokens id offset).2.Attached c.nextNode := by
  have hne : c.nextNode ≠ id := ne_of_gt hlt
  have hleaf : (c.addLeaf tokens id offset).2.nodes c.nextNode =
      { edgeTokens := tokens.drop offset, tokenPrefix := tokens, parent := some id } := by
    simp [addLeaf, newNode, setNode, Function.update_of_ne, hne]
  have hnode : (c.addLeaf tokens id offset).2.nodes id = { c.nodes id with
      children := (c.nodes id).children.set ((tokens.drop offset).headD 0) c.nextNode } := by
    simp [addLeaf, newNode, setNode, Function.update_of_ne, hne.symm]
  have hother : ∀ x, x ≠ c.nextNode → x ≠ id →
      (c.addLeaf tokens id offset).2.nodes x = c.nodes x := by
    intro x hx hx'
    simp [addLeaf, newNode, setNode, Function.update_of_ne, hx, hx']
  generalize (c.addLeaf tokens id offset).2 = c' at *
  have hblank := h.blank c.nextNode le_rfl
  have hup : c.nextNode ∈ c'.childrenOf id := by
    rw [mem_childrenOf]
    refine ⟨(tokens.drop offset).headD 0, ?_⟩
    rw [hnode, Dict.get?_set_self]
  have hkept : ∀ {x y}, y ∈ c.childrenOf x → y ∈ c'.childrenOf x := by
    intro x y hy
    obtain ⟨k, hget⟩ := mem_childrenOf.mp hy
    refine mem_childrenOf.mpr ⟨k, ?_⟩
    have hxn : x ≠ c.nextNode := by
      rintro rfl
      rw [hblank] at hget
      cases hget
    by_cases hx : x = id
    · subst hx
      have hk : k ≠ (tokens.drop offset).headD 0 := by
        rintro rfl
        rw [hnone] at hget
        cases hget
      rw [hnode, Dict.get?_set, if_neg hk, hget]
    · rw [hother x hxn hx, hget]
  have hattached : ∀ x, c.Attached x → c'.Attached x :=
    fun x hx => Relation.ReflTransGen.mono (fun _ _ hstep => hkept hstep) _ _ hx
  have hold : ∀ x, c'.Attached x → x = c.nextNode ∨ c.Attached x := by
    intro x hx
    induction hx with
    | refl => exact .inr .refl
    | @tail y z _ hstep ih =>
        obtain ⟨k, hget⟩ := mem_childrenOf.mp hstep
        have hyn : y ≠ c.nextNode := by
          rintro rfl
          rw [hleaf] at hget
          cases hget
        by_cases hy : y = id
        · rw [hy, hnode, Dict.get?_set] at hget
          split at hget
          · exact .inl (Option.some.inj hget).symm
          · exact .inr (hid.tail (mem_childrenOf.mpr ⟨k, hget⟩))
        · rw [hother y hyn hy] at hget
          exact .inr ((ih.resolve_left hyn).tail (mem_childrenOf.mpr ⟨k, hget⟩))
  have hsame : ∀ x, (c'.nodes x).cacheHandle = (c.nodes x).cacheHandle ∧
      (c'.nodes x).bytes = (c.nodes x).bytes := by
    intro x
    by_cases hxn : x = c.nextNode
    · rw [hxn, hleaf, hblank]
      exact ⟨rfl, rfl⟩
    by_cases hx : x = id
    · rw [hx, hnode]
      exact ⟨rfl, rfl⟩
    · rw [hother x hxn hx]
      exact ⟨rfl, rfl⟩
  refine ⟨⟨fun x => (hsame x).1, fun x => (hsame x).2, ?_, hattached, fun x hx hempty => ?_⟩,
    (hattached id hid).tail hup⟩
  · by_cases hid₀ : 0 = id
    · rw [← hid₀] at hnode
      rw [hnode]
    · rw [hother 0 (ne_of_lt h.root_lt) hid₀]
  · by_cases hxn : x = c.nextNode
    · exact .inl (congrArg some hxn)
    have hxid : x ≠ id := by
      rintro rfl
      exact notMem_childrenOf hempty hup
    refine .inr ⟨(hold x hx).resolve_left hxn, ?_⟩
    rwa [hother x hxn hxid] at hempty

/-- The walk of an insertion, in the tree. -/
theorem insertFrom_inserts (h : c.IsTree) (hroot : (c.nodes 0).parent = none) {tokens : List Token}
    {rounds id offset : ℕ} (hid : c.Attached id) (hlt : id < c.nextNode)
    (htokens₀ : (c.nodes id).tokenPrefix = tokens.take offset) (hoffset : offset ≤ tokens.length) :
    ∃ fresh, (fresh = none ∨ fresh = some (insertFrom tokens rounds id offset c).1) ∧
      Inserts c (insertFrom tokens rounds id offset c).2 fresh ∧
      (insertFrom tokens rounds id offset c).2.Attached (insertFrom tokens rounds id offset c).1 := by
  induction rounds generalizing id offset with
  | zero => exact ⟨none, .inl rfl, .refl c, hid⟩
  | succ rounds ih =>
      rw [insertFrom]
      by_cases hend : tokens.length ≤ offset
      · rw [if_pos hend]
        exact ⟨none, .inl rfl, .refl c, hid⟩
      rw [if_neg hend]
      have hhead : (tokens.drop offset).head? = some (tokens.getD offset 0) := by
        rw [List.head?_drop, List.getD_eq_getElem?_getD,
          List.getElem?_eq_getElem (not_le.mp hend), Option.getD_some]
      cases hget : (c.nodes id).children.get? (tokens.getD offset 0) with
      | none =>
          have hnone : (c.nodes id).children.get? ((tokens.drop offset).headD 0) = none := by
            rw [List.headD_eq_head?_getD, hhead, Option.getD_some, hget]
          obtain ⟨hinserts, hattached⟩ := addLeaf_inserts h hid hlt hnone
          exact ⟨some c.nextNode, .inr rfl, hinserts, hattached⟩
      | some child =>
          have hedge := h.edge hget
          have hpos := commonPrefixLen_pos hedge.head_eq hhead
          have htake := take_commonPrefixLen (c.nodes child).edgeTokens (tokens.drop offset)
          have hright := commonPrefixLen_le_right (c.nodes child).edgeTokens (tokens.drop offset)
          have hleft := commonPrefixLen_le_left (c.nodes child).edgeTokens (tokens.drop offset)
          rw [List.length_drop] at hright
          dsimp only
          by_cases hwhole : commonPrefixLen (c.nodes child).edgeTokens (tokens.drop offset) =
              (c.nodes child).edgeTokens.length
          · rw [if_pos hwhole]
            rw [hwhole, List.take_of_length_le le_rfl] at htake
            rw [hwhole] at hright ⊢
            exact ih (hid.tail (mem_childrenOf.mpr ⟨_, hget⟩)) hedge.lt
              (h.walk hget htokens₀ htake) (by omega)
          rw [if_neg hwhole]
          obtain ⟨hsplits, hattached⟩ :=
            splitEdge_inserts h hroot tokens offset hid hlt hget hpos
          have hnode := (c.splitEdge_nodes tokens offset
            (commonPrefixLen (c.nodes child).edgeTokens (tokens.drop offset)) (ne_of_gt hlt)
            (ne_of_gt hedge.lt) hedge.ne).1
          obtain ⟨c', heq, htree, hnext, -, -⟩ :=
            splitEdge_eq h hlt hget htokens₀ htake hpos (by omega)
          rw [heq] at hsplits hattached hnode ⊢
          dsimp only at hsplits hattached hnode ⊢
          split
          · exact ⟨none, .inl rfl, hsplits, hattached⟩
          case isFalse hmore =>
            -- the leaf goes beside the old child
            have hnone : (c'.nodes c.nextNode).children.get? ((tokens.drop (offset +
                commonPrefixLen (c.nodes child).edgeTokens (tokens.drop offset))).headD 0) =
                none := by
              have hstop := head?_drop_commonPrefixLen (lt_of_le_of_ne hleft hwhole)
              rw [hnode, Dict.get?_set, if_neg, Dict.get?_empty]
              rw [List.drop_drop, List.head?_drop, List.head?_drop,
                List.getElem?_eq_getElem (by omega), List.getElem?_eq_getElem (by omega)] at hstop
              rw [List.headD_eq_head?_getD, List.headD_eq_head?_getD, List.head?_drop,
                List.head?_drop, List.getElem?_eq_getElem (by omega),
                List.getElem?_eq_getElem (by omega)]
              exact fun hsame => hstop (congrArg some hsame.symm)
            obtain ⟨hinserts, hattached'⟩ :=
              addLeaf_inserts htree hattached (by omega) hnone
            exact ⟨_, .inr rfl, hsplits.trans hinserts, hattached'⟩

theorem insertPrefix_inserts (h : c.IsTree) (hroot : (c.nodes 0).parent = none)
    (tokens : List Token) :
    ∃ fresh, (fresh = none ∨ fresh = some (c.insertPrefix tokens).1) ∧
      Inserts c (c.insertPrefix tokens).2 fresh ∧
      (c.insertPrefix tokens).2.Attached (c.insertPrefix tokens).1 :=
  insertFrom_inserts h hroot .refl h.root_lt (by rw [h.root_prefix, List.take_zero]) (Nat.zero_le _)

/-! ## Pruning -/

/-- Pruning changes the children of nodes and nothing else. -/
theorem pruneFrom_nodes (c : RadixPrefixCache ρ) (rounds id x : ℕ) :
    ∃ children, (pruneFrom rounds id c).nodes x = { c.nodes x with children := children } := by
  induction rounds generalizing id c with
  | zero => exact ⟨_, rfl⟩
  | succ rounds ih =>
      rw [pruneFrom]
      dsimp only
      cases (c.nodes id).parent with
      | none => exact ⟨_, rfl⟩
      | some parent =>
          dsimp only
          split
          case isFalse => exact ⟨_, rfl⟩
          obtain ⟨children, heq⟩ := ih (c.setNode parent { c.nodes parent with
            children := (c.nodes parent).children.pop ((c.nodes id).edgeTokens.headD 0) }) parent
          rw [heq]
          by_cases hx : x = parent
          · rw [hx, setNode_nodes_self]
            exact ⟨children, rfl⟩
          · rw [setNode_nodes_of_ne _ hx]
            exact ⟨children, rfl⟩

/-- A node of the tree but the root is filed in its parent. -/
theorem Attached.edge {id : ℕ} (h : c.IsTree) (hid : c.Attached id) (hne : id ≠ 0) :
    ∃ parent k, c.Attached parent ∧ (c.nodes parent).children.get? k = some id ∧
      c.Edge parent k id := by
  rcases Relation.ReflTransGen.cases_tail hid with heq | ⟨parent, hparent, hchild⟩
  · exact absurd heq hne
  · obtain ⟨k, hget⟩ := mem_childrenOf.mp hchild
    exact ⟨parent, k, hparent, hget, h.edge hget⟩

/-- One step of pruning: an empty leaf goes, and its parent may be one now. -/
theorem Filled.cut {id : ℕ} (hfilled : Filled c (some id)) (h : c.IsTree) {parent : ℕ} {k : Token}
    (hparent : c.Attached parent) (hget : (c.nodes parent).children.get? k = some id)
    (hnone : (c.nodes id).cacheHandle = none) (hempty : (c.nodes id).children.entries = []) :
    Filled (c.setNode parent { c.nodes parent with
      children := (c.nodes parent).children.pop k }) (some parent) ∧
    (c.setNode parent { c.nodes parent with
      children := (c.nodes parent).children.pop k }).Attached parent := by
  have hedge := h.edge hget
  have hself : (c.setNode parent { c.nodes parent with
      children := (c.nodes parent).children.pop k }).nodes parent =
      { c.nodes parent with children := (c.nodes parent).children.pop k } := setNode_nodes_self _ _ _
  have hother : ∀ x, x ≠ parent → (c.setNode parent { c.nodes parent with
      children := (c.nodes parent).children.pop k }).nodes x = c.nodes x :=
    fun x hx => setNode_nodes_of_ne _ hx _
  generalize c.setNode parent { c.nodes parent with
    children := (c.nodes parent).children.pop k } = c' at *
  have hsub : ∀ {x y}, y ∈ c'.childrenOf x → y ∈ c.childrenOf x ∧ y ≠ id := by
    intro x y hy
    obtain ⟨k', hget'⟩ := mem_childrenOf.mp hy
    have hold : (c.nodes x).children.get? k' = some y ∧ (x = parent → k' ≠ k) := by
      by_cases hx : x = parent
      · rw [hx, hself, Dict.get?_pop] at hget'
        split at hget'
        · cases hget'
        case isFalse hk => exact ⟨hx ▸ hget', fun _ => hk⟩
      · rw [hother x hx] at hget'
        exact ⟨hget', fun heq => absurd heq hx⟩
    refine ⟨mem_childrenOf.mpr ⟨k', hold.1⟩, ?_⟩
    rintro rfl
    have hedge' := h.edge hold.1
    refine hold.2 (Option.some.inj (hedge'.parent_eq.symm.trans hedge.parent_eq)) ?_
    exact Option.some.inj (hedge'.head_eq.symm.trans hedge.head_eq)
  have hkept : ∀ {x y}, y ∈ c.childrenOf x → y ≠ id → y ∈ c'.childrenOf x := by
    intro x y hy hne
    obtain ⟨k', hget'⟩ := mem_childrenOf.mp hy
    refine mem_childrenOf.mpr ⟨k', ?_⟩
    by_cases hx : x = parent
    · have hk : k' ≠ k := by
        rintro rfl
        rw [hx, hget] at hget'
        exact hne (Option.some.inj hget').symm
      rw [hx, hself, Dict.get?_pop, if_neg hk, ← hx, hget']
    · rw [hother x hx, hget']
  have hold : ∀ x, c'.Attached x → c.Attached x :=
    fun x hx => Relation.ReflTransGen.mono (fun _ _ hstep => (hsub hstep).1) _ _ hx
  have hattached : ∀ x, c.Attached x → x ≠ id → c'.Attached x := by
    intro x hx hne
    induction hx with
    | refl => exact .refl
    | @tail y z _ hstep ih =>
        have hy : y ≠ id := by
          rintro rfl
          exact notMem_childrenOf hempty hstep
        exact (ih hy).tail (hkept hstep hne)
  have hcut : ∀ x, c'.Attached x → x ≠ 0 → x ≠ id := by
    intro x hx hne
    rcases Relation.ReflTransGen.cases_tail hx with heq | ⟨y, -, hstep⟩
    · exact absurd heq hne
    · exact (hsub hstep).2
  have hhandle : ∀ x, (c'.nodes x).cacheHandle = (c.nodes x).cacheHandle ∧
      (c'.nodes x).bytes = (c.nodes x).bytes ∧ (c'.nodes x).parent = (c.nodes x).parent := by
    intro x
    by_cases hx : x = parent
    · rw [hx, hself]
      exact ⟨rfl, rfl, rfl⟩
    · rw [hother x hx]
      exact ⟨rfl, rfl, rfl⟩
  refine ⟨⟨(hhandle 0).2.2.trans hfilled.root_parent, fun x hx hne hnew hleaf => ?_,
    fun x hsome => ?_, fun x hx => ?_⟩, hattached parent hparent hedge.ne.symm⟩
  · have hxp : x ≠ parent := fun heq => hnew (congrArg some heq)
    rw [hother x hxp] at hleaf ⊢
    exact hfilled.leaf x (hold x hx) hne (fun heq => hcut x hx hne (Option.some.inj heq)) hleaf
  · rw [(hhandle x).1] at hsome
    refine hattached x (hfilled.attached x hsome) ?_
    rintro rfl
    rw [hnone] at hsome
    cases hsome
  · rw [(hhandle x).1] at hx
    exact (hhandle x).2.1.trans (hfilled.bytes x hx)

/-- **`_prune_empty_ancestors`** leaves no empty leaf. -/
theorem Filled.prune {id rounds : ℕ} (hfilled : Filled c (some id)) (h : c.IsTree)
    (hid : c.Attached id) (hpins : ∀ x, (c.nodes x).pins ≠ 0 → (c.nodes x).cacheHandle.isSome)
    (hrounds : (c.nodes id).tokenPrefix.length < rounds) :
    Filled (pruneFrom rounds id c) none := by
  induction rounds generalizing id c with
  | zero => exact absurd hrounds (Nat.not_lt_zero _)
  | succ rounds ih =>
      rw [pruneFrom]
      dsimp only
      by_cases hroot : id = 0
      · rw [hroot, hfilled.root_parent]
        exact ⟨hfilled.root_parent, fun x hx hne _ => hfilled.leaf x hx hne
          fun heq => hne ((Option.some.inj heq).trans hroot), hfilled.attached, hfilled.bytes⟩
      obtain ⟨parent, k, hparent, hget, hedge⟩ := Attached.edge h hid hroot
      have hhead : (c.nodes id).edgeTokens.headD 0 = k := by
        rw [List.headD_eq_head?_getD, hedge.head_eq, Option.getD_some]
      rw [hedge.parent_eq, hhead]
      dsimp only
      split
      case isTrue hfree =>
        obtain ⟨hcut, hattached⟩ :=
          hfilled.cut h hparent hget hfree.1 (List.isEmpty_iff.mp hfree.2.1)
        have hparent_lt := h.parent_lt hedge.parent_eq
        have htree := h.setNode hparent_lt { c.nodes parent with
          children := (c.nodes parent).children.pop k } rfl rfl rfl fun {k' child} hget' => by
            rw [Dict.get?_pop] at hget'
            split at hget'
            · cases hget'
            · exact hget'
        refine ih hcut htree hattached (fun x => ?_) ?_
        · by_cases hx : x = parent
          · rw [hx, setNode_nodes_self]
            exact hpins parent
          · rw [setNode_nodes_of_ne _ hx]
            exact hpins x
        · rw [setNode_nodes_self]
          have := hedge.length_lt
          dsimp only
          omega
      case isFalse hkept =>
        refine ⟨hfilled.root_parent, fun x hx hne _ hleaf => ?_, hfilled.attached, hfilled.bytes⟩
        by_cases hxid : x = id
        · subst hxid
          by_contra hnone
          refine hkept ⟨Option.not_isSome_iff_eq_none.mp hnone, List.isEmpty_iff.mpr hleaf, ?_⟩
          by_contra hpinned
          exact hnone (hpins x hpinned)
        · exact hfilled.leaf x hx hne (fun heq => hxid (Option.some.inj heq)) hleaf

/-! ## Eviction -/

/-- The index after the eviction of a node. -/
def evicted (c : RadixPrefixCache ρ) (id : ℕ) : RadixPrefixCache ρ :=
  let c := c.setNode id { c.nodes id with
    cacheHandle := none, cachedLength := 0, pages := 0, bytes := 0 }
  pruneFrom ((c.nodes id).tokenPrefix.length + 1) id c

end MlxRuntime.RadixPrefixCache
