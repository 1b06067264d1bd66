import MlxRuntime.Prefix.Radix

/-!
# The radix tree

What ties the nodes of the tree together is local: the prefix of a child is the prefix
of its parent and the tokens of the edge between them, and the edge starts with the
token the child is filed under.  Lookup and insertion walk along edges that agree with
the tokens looked for, so each node they reach carries exactly the tokens passed.

Nothing here needs the nodes to be reachable from the root: a pruned node keeps its
pointers, but no node points to it.

## Main definitions

* `RadixPrefixCache.Edge`, `RadixPrefixCache.IsTree` — the local facts.
* `SameSnapshots` — two states with the same snapshots at the same nodes.
* `insertPrefix_eq`, `lookup_eq_some`, `pruneFrom_eq` — the walks.
-/

namespace MlxRuntime

variable {ρ κ : Type}

/-! ## Common prefixes -/

theorem take_commonPrefixLen (xs ys : List Token) :
    xs.take (commonPrefixLen xs ys) = ys.take (commonPrefixLen xs ys) := by
  induction xs generalizing ys with
  | nil => simp [commonPrefixLen]
  | cons x xs ih =>
      cases ys with
      | nil => simp [commonPrefixLen]
      | cons y ys =>
          rw [commonPrefixLen]
          split
          case isTrue heq => rw [List.take_succ_cons, List.take_succ_cons, ih, heq]
          case isFalse => rfl

theorem commonPrefixLen_le_left (xs ys : List Token) : commonPrefixLen xs ys ≤ xs.length := by
  induction xs generalizing ys with
  | nil => simp [commonPrefixLen]
  | cons x xs ih =>
      cases ys with
      | nil => simp [commonPrefixLen]
      | cons y ys =>
          rw [commonPrefixLen]
          split
          · exact Nat.succ_le_succ (ih ys)
          · exact Nat.zero_le _

theorem commonPrefixLen_le_right (xs ys : List Token) : commonPrefixLen xs ys ≤ ys.length := by
  have h := congrArg List.length (take_commonPrefixLen xs ys)
  have hle := commonPrefixLen_le_left xs ys
  rw [List.length_take, List.length_take] at h
  omega

theorem commonPrefixLen_pos {xs ys : List Token} {k : Token} (hx : xs.head? = some k)
    (hy : ys.head? = some k) : 0 < commonPrefixLen xs ys := by
  cases xs with
  | nil => cases hx
  | cons x xs =>
      cases ys with
      | nil => cases hy
      | cons y ys =>
          obtain rfl := Option.some.inj hx
          obtain rfl := Option.some.inj hy
          simp [commonPrefixLen]

namespace RadixPrefixCache

variable {c c' : RadixPrefixCache ρ}

@[simp] theorem setNode_nodes_self (c : RadixPrefixCache ρ) (id : ℕ) (node : RadixNode) :
    (c.setNode id node).nodes id = node := Function.update_self _ _ _

theorem setNode_nodes_of_ne (c : RadixPrefixCache ρ) {id id' : ℕ} (h : id' ≠ id)
    (node : RadixNode) : (c.setNode id node).nodes id' = c.nodes id' :=
  Function.update_of_ne h _ _

/-- Node `child` is filed under `k` in node `id`. -/
structure Edge (c : RadixPrefixCache ρ) (id : ℕ) (k : Token) (child : ℕ) : Prop where
  lt : child < c.nextNode
  prefix_eq : (c.nodes child).tokenPrefix = (c.nodes id).tokenPrefix ++ (c.nodes child).edgeTokens
  head_eq : (c.nodes child).edgeTokens.head? = some k
  parent_eq : (c.nodes child).parent = some id

/-- The local facts about all nodes. -/
structure IsTree (c : RadixPrefixCache ρ) : Prop where
  root_lt : 0 < c.nextNode
  root_prefix : (c.nodes 0).tokenPrefix = []
  blank : ∀ id, c.nextNode ≤ id → c.nodes id = {}
  parent_lt : ∀ {id parent}, (c.nodes id).parent = some parent → parent < c.nextNode
  edge : ∀ {id k child}, (c.nodes id).children.get? k = some child → c.Edge id k child

/-- The same snapshots at the same nodes. -/
structure SameSnapshots (c c' : RadixPrefixCache ρ) : Prop where
  pageSize_eq : c'.pageSize = c.pageSize
  active_eq : c'.activeHandles = c.activeHandles
  handle_eq : ∀ id, (c'.nodes id).cacheHandle = (c.nodes id).cacheHandle
  length_eq : ∀ id, (c'.nodes id).cachedLength = (c.nodes id).cachedLength
  pins_eq : ∀ id, (c'.nodes id).pins = (c.nodes id).pins
  prefix_eq : ∀ id, (c.nodes id).cacheHandle.isSome →
    (c'.nodes id).tokenPrefix = (c.nodes id).tokenPrefix

theorem SameSnapshots.refl (c : RadixPrefixCache ρ) : SameSnapshots c c :=
  ⟨rfl, rfl, fun _ => rfl, fun _ => rfl, fun _ => rfl, fun _ _ => rfl⟩

theorem SameSnapshots.trans {c'' : RadixPrefixCache ρ} (h : SameSnapshots c c')
    (h' : SameSnapshots c' c'') : SameSnapshots c c'' where
  pageSize_eq := h'.pageSize_eq.trans h.pageSize_eq
  active_eq := h'.active_eq.trans h.active_eq
  handle_eq := fun id => (h'.handle_eq id).trans (h.handle_eq id)
  length_eq := fun id => (h'.length_eq id).trans (h.length_eq id)
  pins_eq := fun id => (h'.pins_eq id).trans (h.pins_eq id)
  prefix_eq := fun id hsome =>
    (h'.prefix_eq id (by rwa [h.handle_eq])).trans (h.prefix_eq id hsome)

namespace IsTree

theorem of_postInit {c₀ : RadixPrefixCache ρ} (h : c₀.postInit = .ok c) : c.IsTree := by
  rw [postInit] at h
  split at h
  · cases h
  split at h
  · cases h
  split at h
  · cases h
  obtain rfl := Except.ok.inj h
  exact ⟨Nat.one_pos, rfl, fun _ _ => rfl, fun {_ _} h => (by cases h),
    fun {_ _ _} h => (by cases h)⟩

/-- A node that differs from a blank one is allocated. -/
theorem lt_of_handle (h : c.IsTree) {id : ℕ} (hsome : (c.nodes id).cacheHandle.isSome) :
    id < c.nextNode := by
  by_contra hge
  rw [h.blank id (not_lt.mp hge)] at hsome
  cases hsome

/-- The tree is a matter of the nodes. -/
theorem of_nodes (h : c.IsTree) (hnodes : c'.nodes = c.nodes) (hnext : c'.nextNode = c.nextNode) :
    c'.IsTree := by
  refine ⟨?_, ?_, fun id hid => ?_, fun {id parent} hx => ?_, fun {id k child} hx => ?_⟩
  · rw [hnext]
    exact h.root_lt
  · rw [hnodes]
    exact h.root_prefix
  · rw [hnodes]
    exact h.blank id (hnext ▸ hid)
  · rw [hnext]
    rw [hnodes] at hx
    exact h.parent_lt hx
  · rw [hnodes] at hx
    obtain ⟨hlt, hinitial, hhead, hparent⟩ := h.edge hx
    refine ⟨?_, ?_, ?_, ?_⟩ <;> simp only [hnodes, hnext] <;> assumption

/-- Fields that are no part of the tree may be assigned, and children dropped. -/
theorem setNode (h : c.IsTree) {id : ℕ} (hid : id < c.nextNode) (node : RadixNode)
    (htokens₀ : node.tokenPrefix = (c.nodes id).tokenPrefix)
    (hedge : node.edgeTokens = (c.nodes id).edgeTokens) (hparent : node.parent = (c.nodes id).parent)
    (hchildren : ∀ {k child}, node.children.get? k = some child →
      (c.nodes id).children.get? k = some child) : (c.setNode id node).IsTree := by
  have hsame : ∀ x, ((c.setNode id node).nodes x).tokenPrefix = (c.nodes x).tokenPrefix ∧
      ((c.setNode id node).nodes x).edgeTokens = (c.nodes x).edgeTokens ∧
      ((c.setNode id node).nodes x).parent = (c.nodes x).parent := by
    intro x
    by_cases hx : x = id
    · subst hx
      rw [setNode_nodes_self]
      exact ⟨htokens₀, hedge, hparent⟩
    · rw [setNode_nodes_of_ne _ hx]
      exact ⟨rfl, rfl, rfl⟩
  refine ⟨h.root_lt, (hsame 0).1.trans h.root_prefix, fun x hx => ?_, fun {x p} hx => ?_,
    fun {x k child} hget => ?_⟩
  · have hne : x ≠ id := ne_of_gt (lt_of_lt_of_le hid hx)
    rw [setNode_nodes_of_ne _ hne]
    exact h.blank x hx
  · exact h.parent_lt ((hsame x).2.2.symm.trans hx)
  · have hold : c.Edge x k child := by
      by_cases hx : x = id
      · subst hx
        rw [setNode_nodes_self] at hget
        exact h.edge (hchildren hget)
      · rw [setNode_nodes_of_ne _ hx] at hget
        exact h.edge hget
    refine ⟨hold.lt, ?_, ?_, ?_⟩
    · rw [(hsame child).1, (hsame x).1, (hsame child).2.1]
      exact hold.prefix_eq
    · rw [(hsame child).2.1]
      exact hold.head_eq
    · rw [(hsame child).2.2]
      exact hold.parent_eq

end IsTree

/-! ## Lookup -/

/-- A node whose snapshot serves a prompt of which at most `limit` tokens may be
reused. -/
def Serves (c : RadixPrefixCache ρ) (tokens : List Token) (limit id : ℕ) : Prop :=
  (c.nodes id).cacheHandle.isSome ∧
    ∃ n ≤ limit, (c.nodes id).tokenPrefix = tokens.take n

/-- The step of a walk: when the whole edge agrees with the tokens, its child carries
the tokens up to the end of the edge. -/
theorem IsTree.walk (h : c.IsTree) {tokens : List Token} {id child offset : ℕ} {k : Token}
    (hget : (c.nodes id).children.get? k = some child)
    (htokens₀ : (c.nodes id).tokenPrefix = tokens.take offset)
    (hedge : (c.nodes child).edgeTokens =
      (tokens.drop offset).take (c.nodes child).edgeTokens.length) :
    (c.nodes child).tokenPrefix = tokens.take (offset + (c.nodes child).edgeTokens.length) := by
  rw [(h.edge hget).prefix_eq, htokens₀, List.take_add, ← hedge]

theorem lookupFrom_serves (h : c.IsTree) {tokens : List Token} {limit rounds id offset : ℕ}
    {best : Option ℕ} (htokens₀ : (c.nodes id).tokenPrefix = tokens.take offset)
    (hoffset : offset ≤ limit) (hbest : ∀ b ∈ best, c.Serves tokens limit b) :
    ∀ b ∈ c.lookupFrom tokens limit rounds id offset best, c.Serves tokens limit b := by
  induction rounds generalizing id offset best with
  | zero => exact hbest
  | succ rounds ih =>
      rw [lookupFrom]
      split
      · exact hbest
      split
      · exact hbest
      rename_i child hget
      dsimp only
      split
      · exact hbest
      rename_i hcommon
      have hle := commonPrefixLen_le_left ((c.nodes child).edgeTokens.take (limit - offset))
        (tokens.drop offset)
      have htake := take_commonPrefixLen ((c.nodes child).edgeTokens.take (limit - offset))
        (tokens.drop offset)
      rw [← commonPrefixLenAt, List.length_take] at hle
      rw [← commonPrefixLenAt] at htake
      have hwhole : commonPrefixLenAt (c.nodes child).edgeTokens tokens offset limit =
          (c.nodes child).edgeTokens.length := by omega
      have hfits : (c.nodes child).edgeTokens.length ≤ limit - offset := by omega
      rw [List.take_of_length_le hfits, hwhole, List.take_of_length_le le_rfl] at htake
      have hchild := h.walk hget htokens₀ htake
      rw [hwhole]
      refine ih hchild (by omega) fun b hb => ?_
      split at hb
      case isTrue hsome =>
        obtain rfl := Option.some.inj hb
        exact ⟨hsome.1, _, by omega, hchild⟩
      case isFalse => exact hbest b hb

/-- A lookup finds a node with a snapshot of a reusable prefix of the tokens. -/
theorem lookup_eq_some (h : c.IsTree) {tokens : List Token} {id : ℕ}
    (hlookup : c.lookup tokens = some id) :
    c.Serves tokens (BlockHashPrefixCache.maxReusable c.pageSize tokens) id := by
  rw [lookup] at hlookup
  split at hlookup
  · cases hlookup
  have hroot : (c.nodes 0).tokenPrefix = tokens.take 0 := by rw [h.root_prefix, List.take_zero]
  exact lookupFrom_serves h hroot (Nat.zero_le _) (by simp) id hlookup

/-! ## Insertion -/

/-- A tree grows by one node.  `moved` are the nodes that get a new parent; every edge is
an old one that leads to none of them, or is checked on its own. -/
theorem IsTree.grow (h : c.IsTree) (moved : ℕ → Prop) (hnext : c'.nextNode = c.nextNode + 1)
    (htokens₀ : ∀ x, x ≠ c.nextNode → (c'.nodes x).tokenPrefix = (c.nodes x).tokenPrefix)
    (hkept : ∀ x, x ≠ c.nextNode → ¬ moved x →
      (c'.nodes x).edgeTokens = (c.nodes x).edgeTokens ∧
        (c'.nodes x).parent = (c.nodes x).parent)
    (hblank : ∀ x, c.nextNode < x → c'.nodes x = c.nodes x)
    (hparent : ∀ x p, x = c.nextNode ∨ moved x → (c'.nodes x).parent = some p → p ≤ c.nextNode)
    (hedge : ∀ x k y, (c'.nodes x).children.get? k = some y →
      x ≠ c.nextNode ∧ ¬ moved y ∧ (c.nodes x).children.get? k = some y ∨ c'.Edge x k y) :
    c'.IsTree := by
  refine ⟨by omega, (htokens₀ 0 (ne_of_lt h.root_lt)).trans h.root_prefix, fun x hx => ?_,
    fun {x p} hx => ?_, fun {x k y} hx => ?_⟩
  · rw [hblank x (by omega)]
    exact h.blank x (by omega)
  · rw [hnext]
    by_cases hnew : x = c.nextNode ∨ moved x
    · exact Nat.lt_succ_of_le (hparent x p hnew hx)
    · rw [not_or] at hnew
      rw [(hkept x hnew.1 hnew.2).2] at hx
      exact Nat.lt_succ_of_lt (h.parent_lt hx)
  · rcases hedge x k y hx with ⟨hxn, hy, hold⟩ | hnew
    · have hold := h.edge hold
      obtain ⟨hedge', hparent'⟩ := hkept y (ne_of_lt hold.lt) hy
      refine ⟨by have := hold.lt; omega, ?_, hedge'.symm ▸ hold.head_eq,
        hparent'.trans hold.parent_eq⟩
      rw [htokens₀ y (ne_of_lt hold.lt), htokens₀ x hxn, hedge']
      exact hold.prefix_eq
    · exact hnew

/-- The new node comes without a snapshot. -/
theorem IsTree.sameSnapshots_grow (h : c.IsTree) (hpageSize : c'.pageSize = c.pageSize)
    (hactive : c'.activeHandles = c.activeHandles)
    (hnew : (c'.nodes c.nextNode).cacheHandle = none ∧
      (c'.nodes c.nextNode).cachedLength = 0 ∧ (c'.nodes c.nextNode).pins = 0)
    (hold : ∀ x, x ≠ c.nextNode → (c'.nodes x).cacheHandle = (c.nodes x).cacheHandle ∧
      (c'.nodes x).cachedLength = (c.nodes x).cachedLength ∧
      (c'.nodes x).pins = (c.nodes x).pins ∧
      (c'.nodes x).tokenPrefix = (c.nodes x).tokenPrefix) : SameSnapshots c c' := by
  have hblank := h.blank c.nextNode le_rfl
  refine ⟨hpageSize, hactive, fun x => ?_, fun x => ?_, fun x => ?_, fun x hx => ?_⟩ <;>
    by_cases hxn : x = c.nextNode
  · rw [hxn, hnew.1, hblank]
  · exact (hold x hxn).1
  · rw [hxn, hnew.2.1, hblank]
  · exact (hold x hxn).2.1
  · rw [hxn, hnew.2.2, hblank]
  · exact (hold x hxn).2.2.1
  · rw [hxn, hblank] at hx
    cases hx
  · exact (hold x hxn).2.2.2

/-- The four nodes a split leaves. -/
theorem splitEdge_nodes (c : RadixPrefixCache ρ) (tokens : List Token) {id child : ℕ}
    (offset common : ℕ) (hid : c.nextNode ≠ id) (hchild : c.nextNode ≠ child) (hne : child ≠ id) :
    let edge := (c.nodes child).edgeTokens
    let c' := (c.splitEdge tokens id child offset common).2
    c'.nodes c.nextNode =
        { edgeTokens := edge.take common, tokenPrefix := tokens.take (offset + common),
          parent := some id, children := Dict.empty.set ((edge.drop common).headD 0) child } ∧
      c'.nodes id = { c.nodes id with
        children := (c.nodes id).children.set ((edge.take common).headD 0) c.nextNode } ∧
      c'.nodes child = { c.nodes child with
        edgeTokens := edge.drop common, parent := some c.nextNode } ∧
      ∀ x, x ≠ c.nextNode → x ≠ id → x ≠ child → c'.nodes x = c.nodes x := by
  refine ⟨?_, ?_, ?_, fun x hx hx' hx'' => ?_⟩
  · simp [splitEdge, newNode, setNode, Function.update_of_ne, hid, hchild]
  · simp [splitEdge, newNode, setNode, Function.update_of_ne, hid.symm, hne.symm]
  · simp [splitEdge, newNode, setNode, Function.update_of_ne, hchild.symm, hne]
  · simp [splitEdge, newNode, setNode, Function.update_of_ne, hx, hx', hx'']

/-- A split puts a node for the tokens up to the fork between a node and its child. -/
theorem splitEdge_eq (h : c.IsTree) {tokens : List Token} {id child offset common : ℕ}
    {k : Token} (hid : id < c.nextNode) (hget : (c.nodes id).children.get? k = some child)
    (htokens₀ : (c.nodes id).tokenPrefix = tokens.take offset)
    (hcommon : (c.nodes child).edgeTokens.take common = (tokens.drop offset).take common)
    (hpos : 0 < common) (hlt : common < (c.nodes child).edgeTokens.length) :
    ∃ c', c.splitEdge tokens id child offset common = (c.nextNode, c') ∧ c'.IsTree ∧
      c'.nextNode = c.nextNode + 1 ∧
      (c'.nodes c.nextNode).tokenPrefix = tokens.take (offset + common) ∧ SameSnapshots c c' := by
  have hedge := h.edge hget
  have hne : child ≠ id := by
    rintro rfl
    have hlength := congrArg List.length hedge.prefix_eq
    rw [List.length_append] at hlength
    omega
  obtain ⟨hsplit, hnode, hchild, hother⟩ :=
    c.splitEdge_nodes tokens offset common (ne_of_gt hid) (ne_of_gt hedge.lt) hne
  have hnext : (c.splitEdge tokens id child offset common).2.nextNode = c.nextNode + 1 := rfl
  have hpageSize : (c.splitEdge tokens id child offset common).2.pageSize = c.pageSize := rfl
  have hactive : (c.splitEdge tokens id child offset common).2.activeHandles =
    c.activeHandles := rfl
  refine ⟨(c.splitEdge tokens id child offset common).2, rfl, ?_⟩
  generalize (c.splitEdge tokens id child offset common).2 = c' at *
  have hsame : ∀ x, x ≠ c.nextNode → (c'.nodes x).cacheHandle = (c.nodes x).cacheHandle ∧
      (c'.nodes x).cachedLength = (c.nodes x).cachedLength ∧
      (c'.nodes x).pins = (c.nodes x).pins ∧
      (c'.nodes x).tokenPrefix = (c.nodes x).tokenPrefix := by
    intro x hx
    by_cases hxn : x = id
    · simp [hxn, hnode]
    by_cases hxc : x = child
    · simp [hxc, hchild]
    · simp [hother x hx hxn hxc]
  have hsplitPrefix : (c'.nodes c.nextNode).tokenPrefix =
      (c.nodes id).tokenPrefix ++ (c.nodes child).edgeTokens.take common := by
    rw [hsplit, htokens₀, hcommon, List.take_add]
  have hhead : ((c.nodes child).edgeTokens.take common).head? = some k := by
    rw [List.head?_take, if_neg hpos.ne', hedge.head_eq]
  have hdrop : ((c.nodes child).edgeTokens.drop common).head? =
      some (c.nodes child).edgeTokens[common] := by
    rw [List.head?_drop, List.getElem?_eq_getElem hlt]
  have hup : c'.Edge id k c.nextNode := by
    refine ⟨by omega, ?_, by rw [hsplit]; exact hhead, by rw [hsplit]⟩
    rw [hsplitPrefix, (hsame id (ne_of_lt hid)).2.2.2, hsplit]
  have hdown : c'.Edge c.nextNode (c.nodes child).edgeTokens[common] child := by
    refine ⟨by have := hedge.lt; omega, ?_, by rw [hchild]; exact hdrop, by rw [hchild]⟩
    rw [hsplitPrefix, (hsame child (ne_of_lt hedge.lt)).2.2.2, hchild, List.append_assoc,
      List.take_append_drop]
    exact hedge.prefix_eq
  -- only `id` has an edge to `child`
  have honly : ∀ {x k'}, (c.nodes x).children.get? k' = some child → x = id ∧ k' = k := by
    intro x k' hx
    have hx := h.edge hx
    exact ⟨Option.some.inj (hx.parent_eq.symm.trans hedge.parent_eq),
      Option.some.inj (hx.head_eq.symm.trans hedge.head_eq)⟩
  refine ⟨h.grow (· = child) hnext (fun x hx => (hsame x hx).2.2.2) (fun x hx hxc => ?_)
    (fun x hx => ?_) (fun x p hx hp => ?_) (fun x k' y hx => ?_), hnext, by rw [hsplit],
    h.sameSnapshots_grow hpageSize hactive (by simp [hsplit]) hsame⟩
  · by_cases hxn : x = id
    · simp [hxn, hnode]
    · simp [hother x hx hxn hxc]
  · exact hother x (ne_of_gt hx) (ne_of_gt (hid.trans hx)) (ne_of_gt (hedge.lt.trans hx))
  · rcases hx with rfl | rfl
    · rw [hsplit] at hp
      exact Option.some.inj hp ▸ hid.le
    · rw [hchild] at hp
      exact (Option.some.inj hp).ge
  · by_cases hxs : x = c.nextNode
    · rw [hxs, hsplit, List.headD_eq_head?_getD, hdrop, Option.getD_some, Dict.get?_set] at hx
      split at hx
      case isTrue heq =>
        obtain rfl := Option.some.inj hx
        rw [hxs, heq]
        exact .inr hdown
      case isFalse => cases hx
    by_cases hxn : x = id
    · rw [hxn, hnode, List.headD_eq_head?_getD, hhead, Option.getD_some, Dict.get?_set] at hx
      split at hx
      case isTrue heq =>
        obtain rfl := Option.some.inj hx
        rw [hxn, heq]
        exact .inr hup
      case isFalse hk =>
        exact .inl ⟨hxs, fun hy => hk (honly (hy ▸ hx)).2, by rwa [hxn]⟩
    · have hx : (c.nodes x).children.get? k' = some y := by
        by_cases hxc : x = child
        · rw [hxc, hchild] at hx
          rwa [hxc]
        · rwa [hother x hxs hxn hxc] at hx
      exact .inl ⟨hxs, fun hy => hxn (honly (hy ▸ hx)).1, hx⟩

/-- A leaf takes the tokens that are left. -/
theorem addLeaf_eq (h : c.IsTree) {tokens : List Token} {id offset : ℕ} (hid : id < c.nextNode)
    (htokens₀ : (c.nodes id).tokenPrefix = tokens.take offset) (hlt : offset < tokens.length) :
    ∃ c', c.addLeaf tokens id offset = (c.nextNode, c') ∧ c'.IsTree ∧
      c'.nextNode = c.nextNode + 1 ∧ (c'.nodes c.nextNode).tokenPrefix = tokens ∧
      SameSnapshots c c' := by
  have hne : c.nextNode ≠ id := ne_of_gt hid
  have hleaf : (c.addLeaf tokens id offset).2.nodes c.nextNode =
      { edgeTokens := tokens.drop offset, tokenPrefix := tokens, parent := some id } := by
    simp [addLeaf, newNode, setNode, Function.update_of_ne, hne]
  have hnode : (c.addLeaf tokens id offset).2.nodes id = { c.nodes id with
      children := (c.nodes id).children.set ((tokens.drop offset).headD 0) c.nextNode } := by
    simp [addLeaf, newNode, setNode, Function.update_of_ne, hne.symm]
  have hother : ∀ x, x ≠ c.nextNode → x ≠ id →
      (c.addLeaf tokens id offset).2.nodes x = c.nodes x := by
    intro x hx hx'
    simp [addLeaf, newNode, setNode, Function.update_of_ne, hx, hx']
  have hnext : (c.addLeaf tokens id offset).2.nextNode = c.nextNode + 1 := rfl
  have hpageSize : (c.addLeaf tokens id offset).2.pageSize = c.pageSize := rfl
  have hactive : (c.addLeaf tokens id offset).2.activeHandles = c.activeHandles := rfl
  refine ⟨(c.addLeaf tokens id offset).2, rfl, ?_⟩
  generalize (c.addLeaf tokens id offset).2 = c' at *
  have hsame : ∀ x, x ≠ c.nextNode → (c'.nodes x).cacheHandle = (c.nodes x).cacheHandle ∧
      (c'.nodes x).cachedLength = (c.nodes x).cachedLength ∧
      (c'.nodes x).pins = (c.nodes x).pins ∧
      (c'.nodes x).tokenPrefix = (c.nodes x).tokenPrefix := by
    intro x hx
    by_cases hxn : x = id
    · simp [hxn, hnode]
    · simp [hother x hx hxn]
  have hhead : (tokens.drop offset).head? = some tokens[offset] := by
    rw [List.head?_drop, List.getElem?_eq_getElem hlt]
  refine ⟨h.grow (fun _ => False) hnext (fun x hx => (hsame x hx).2.2.2) (fun x hx _ => ?_)
    (fun x hx => ?_) (fun x p hx hp => ?_) (fun x k y hx => ?_), hnext, by rw [hleaf],
    h.sameSnapshots_grow hpageSize hactive (by simp [hleaf]) hsame⟩
  · by_cases hxn : x = id
    · simp [hxn, hnode]
    · simp [hother x hx hxn]
  · exact hother x (ne_of_gt hx) (ne_of_gt (hid.trans hx))
  · rcases hx with rfl | hx
    · rw [hleaf] at hp
      exact Option.some.inj hp ▸ hid.le
    · exact hx.elim
  · by_cases hxs : x = c.nextNode
    · rw [hxs, hleaf] at hx
      cases hx
    by_cases hxn : x = id
    · rw [hxn, hnode, List.headD_eq_head?_getD, hhead, Option.getD_some, Dict.get?_set] at hx
      split at hx
      case isTrue heq =>
        obtain rfl := Option.some.inj hx
        rw [hxn, heq]
        refine .inr ⟨by omega, ?_, by rw [hleaf]; exact hhead, by rw [hleaf]⟩
        rw [hleaf, (hsame id hne.symm).2.2.2, htokens₀, List.take_append_drop]
      case isFalse => exact .inl ⟨hxs, not_false, by rwa [hxn]⟩
    · rw [hother x hxs hxn] at hx
      exact .inl ⟨hxs, not_false, hx⟩

/-- The walk of an insertion ends at a node that carries the tokens. -/
theorem insertFrom_eq (h : c.IsTree) {tokens : List Token} {rounds id offset : ℕ}
    (hid : id < c.nextNode) (htokens₀ : (c.nodes id).tokenPrefix = tokens.take offset)
    (hoffset : offset ≤ tokens.length) (hrounds : tokens.length - offset < rounds) :
    ∃ id' c', insertFrom tokens rounds id offset c = (id', c') ∧ c'.IsTree ∧
      id' < c'.nextNode ∧ (c'.nodes id').tokenPrefix = tokens ∧ SameSnapshots c c' := by
  induction rounds generalizing id offset with
  | zero => omega
  | succ rounds ih =>
      rw [insertFrom]
      by_cases hend : tokens.length ≤ offset
      · rw [if_pos hend]
        refine ⟨id, c, rfl, h, hid, ?_, .refl c⟩
        rw [htokens₀, List.take_of_length_le hend]
      rw [if_neg hend]
      have hlt := not_le.mp hend
      cases hget : (c.nodes id).children.get? (tokens.getD offset 0) with
      | none =>
          obtain ⟨c', heq, htree, hnext, htokens, hsame⟩ := addLeaf_eq h hid htokens₀ hlt
          exact ⟨_, c', heq, htree, by omega, htokens, hsame⟩
      | some child =>
          have hedge := h.edge hget
          have hhead : (tokens.drop offset).head? = some (tokens.getD offset 0) := by
            rw [List.head?_drop, List.getD_eq_getElem?_getD, List.getElem?_eq_getElem hlt,
              Option.getD_some]
          have hpos := commonPrefixLen_pos hedge.head_eq hhead
          have htake := take_commonPrefixLen (c.nodes child).edgeTokens (tokens.drop offset)
          have hleft := commonPrefixLen_le_left (c.nodes child).edgeTokens (tokens.drop offset)
          have hright := commonPrefixLen_le_right (c.nodes child).edgeTokens (tokens.drop offset)
          rw [List.length_drop] at hright
          dsimp only
          by_cases hwhole : commonPrefixLen (c.nodes child).edgeTokens (tokens.drop offset) =
              (c.nodes child).edgeTokens.length
          · rw [if_pos hwhole]
            rw [hwhole, List.take_of_length_le le_rfl] at htake
            rw [hwhole] at hpos hright ⊢
            exact ih hedge.lt (h.walk hget htokens₀ htake) (by omega) (by omega)
          rw [if_neg hwhole]
          obtain ⟨c', heq, htree, hnext, hsplit, hsame⟩ :=
            splitEdge_eq h hid hget htokens₀ htake hpos (by omega)
          rw [heq]
          dsimp only
          split
          case isTrue hexact =>
            refine ⟨_, c', rfl, htree, by omega, ?_, hsame⟩
            rw [hsplit, hexact, List.take_of_length_le le_rfl]
          case isFalse hmore =>
            obtain ⟨c'', heq', htree', hnext', htokens, hsame'⟩ :=
              addLeaf_eq htree (by omega) hsplit (by omega)
            exact ⟨_, c'', heq', htree', by omega, htokens, hsame.trans hsame'⟩

theorem insertPrefix_eq (h : c.IsTree) (tokens : List Token) :
    ∃ id c', c.insertPrefix tokens = (id, c') ∧ c'.IsTree ∧ id < c'.nextNode ∧
      (c'.nodes id).tokenPrefix = tokens ∧ SameSnapshots c c' :=
  insertFrom_eq h h.root_lt (by rw [h.root_prefix, List.take_zero]) (Nat.zero_le _) (by omega)

/-! ## Pruning -/

/-- Pruning cuts nodes off and changes no snapshot. -/
theorem pruneFrom_eq (h : c.IsTree) (rounds id : ℕ) :
    (pruneFrom rounds id c).IsTree ∧ SameSnapshots c (pruneFrom rounds id c) := by
  induction rounds generalizing id c with
  | zero => exact ⟨h, .refl c⟩
  | succ rounds ih =>
      rw [pruneFrom]
      dsimp only
      cases hparent : (c.nodes id).parent with
      | none => exact ⟨h, .refl c⟩
      | some parent =>
          dsimp only
          split
          case isFalse => exact ⟨h, .refl c⟩
          have htree := h.setNode (h.parent_lt hparent) { c.nodes parent with
            children := (c.nodes parent).children.pop ((c.nodes id).edgeTokens.headD 0) }
            rfl rfl rfl fun {k child} hget => by
              rw [Dict.get?_pop] at hget
              split at hget
              · cases hget
              · exact hget
          obtain ⟨htree', hsame⟩ := ih htree parent
          refine ⟨htree', SameSnapshots.trans ?_ hsame⟩
          refine ⟨rfl, rfl, fun x => ?_, fun x => ?_, fun x => ?_, fun x _ => ?_⟩ <;>
            by_cases hx : x = parent <;> simp [hx, setNode_nodes_of_ne]

end RadixPrefixCache
end MlxRuntime
