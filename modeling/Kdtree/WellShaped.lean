import Kdtree.Stored

/-!
# Arrays that hold a tree

The conditions on the slots that can be reached from the root under which a node
array holds a full binary tree over rows of the sample matrix. They say nothing
about the values of the splits.
-/

namespace Kdtree

open SplitTree

variable {K : Type}

/-- All five points of a split have one coefficient for each dimension, and the
split dimension is one of them. -/
structure Split.HasDimensions (split : Split K) (numDimensions : ℕ) : Prop where
  /-- The split dimension exists. -/
  splitDimension_lt : split.splitDimension < numDimensions
  /-- The split point has a coefficient for each dimension. -/
  splitPoint : split.splitPoint.coefficients.length = numDimensions
  /-- So has the largest corner of the left bounds. -/
  leftMax : split.leftBounds.maxPoint.coefficients.length = numDimensions
  /-- So has the smallest corner of the left bounds. -/
  leftMin : split.leftBounds.minPoint.coefficients.length = numDimensions
  /-- So has the largest corner of the right bounds. -/
  rightMax : split.rightBounds.maxPoint.coefficients.length = numDimensions
  /-- So has the smallest corner of the right bounds. -/
  rightMin : split.rightBounds.minPoint.coefficients.length = numDimensions

namespace KDTree

/-- `tree.Reachable id`: the slot is reached from the root through the children of
internal nodes. -/
inductive Reachable (tree : KDTree K) : ℕ → Prop
  | root : Reachable tree 0
  | left {id id' : ℕ} {split : Split K} (hid : Reachable tree id)
      (hnode : tree.getNode id = some (.internal id' split)) : Reachable tree (leftNodeId id)
  | right {id id' : ℕ} {split : Split K} (hid : Reachable tree id)
      (hnode : tree.getNode id = some (.internal id' split)) : Reachable tree (rightNodeId id)

/-- The slot holds a node, and the node is not an empty one. -/
def Present (tree : KDTree K) (id : ℕ) : Prop :=
  ∃ node, tree.getNode id = some node ∧ node.getType ≠ .empty

/-- What the search needs of the slots it can come to. -/
structure WellShaped (tree : KDTree K) (samples : Samples K) : Prop where
  /-- There are finitely many nodes. -/
  finite : ∃ numNodes, ∀ id ≥ numNodes, tree.getNode id = none
  /-- The root is not an empty node. -/
  root : tree.Present 0
  /-- Neither is any child. -/
  children : ∀ {id id' split}, tree.Reachable id →
    tree.getNode id = some (.internal id' split) →
      tree.Present (leftNodeId id) ∧ tree.Present (rightNodeId id)
  /-- Splits have the dimensions of the samples. -/
  splits : ∀ {id id' split}, tree.Reachable id →
    tree.getNode id = some (.internal id' split) → split.HasDimensions samples.cols
  /-- Leaves name rows of the matrix. -/
  leaves : ∀ {id id' s}, tree.Reachable id → tree.getNode id = some (.leaf id' s) →
    0 ≤ s ∧ s < samples.rows

/-- The split of an inner node, with the leaves on its two sides, is that of a
reachable internal node and of the leaves below its two children. -/
def SplitAt (tree : KDTree K) (split : Split K) (less greater : List ℕ) : Prop :=
  ∃ id, tree.Reachable id ∧ tree.getNode id = some (.internal id split) ∧
    (∀ i ∈ less, tree.LeafBelow (leftNodeId id) i) ∧
    ∀ i ∈ greater, tree.LeafBelow (rightNodeId id) i

/-- A node in the array that is not empty is a leaf or an internal node under its own id. -/
theorem Present.cases {tree : KDTree K} {id : ℕ} (h : tree.Present id) :
    (∃ s, tree.getNode id = some (.leaf id s)) ∨
      ∃ split, tree.getNode id = some (.internal id split) := by
  obtain ⟨node, hnode, htype⟩ := h
  have hid := tree.id_eq hnode
  cases node with
  | empty id' => exact absurd rfl htype
  | internal id' split =>
    obtain rfl : id' = id := hid
    exact .inr ⟨split, hnode⟩
  | leaf id' s =>
    obtain rfl : id' = id := hid
    exact .inl ⟨s, hnode⟩

/-- Below every reachable slot of a well shaped array there is a tree. -/
theorem WellShaped.exists_stored_below {tree : KDTree K} {samples : Samples K}
    (h : tree.WellShaped samples) {id : ℕ} (hid : tree.Reachable id) (hpresent : tree.Present id) :
    ∃ t, tree.Stored id t ∧ (∀ i ∈ t.leaves, i < samples.rows) ∧
      t.ForallNodes tree.SplitAt := by
  obtain ⟨numNodes, hfinite⟩ := h.finite
  -- Slots grow from parents to children, so the distance to the end of the array shrinks.
  induction hn : numNodes - id using Nat.strong_induction_on generalizing id with
  | _ n ih =>
    subst hn
    rcases hpresent.cases with ⟨s, hnode⟩ | ⟨split, hnode⟩
    · obtain ⟨hs, hrows⟩ := h.leaves hid hnode
      obtain ⟨i, rfl⟩ := Int.eq_ofNat_of_zero_le hs
      refine ⟨.leaf i, stored_leaf_iff.mpr hnode, ?_, trivial⟩
      rintro j hj
      obtain rfl : j = i := by simpa [SplitTree.leaves] using hj
      exact_mod_cast hrows
    · have hlt : id < numNodes := by
        by_contra hge
        rw [hfinite id (by omega)] at hnode
        cases hnode
      obtain ⟨hleft, hright⟩ := h.children hid hnode
      obtain ⟨l, hl, hlrows, hlsplits⟩ := ih (numNodes - leftNodeId id)
        (by unfold leftNodeId; omega) (hid.left hnode) hleft rfl
      obtain ⟨r, hr, hrrows, hrsplits⟩ := ih (numNodes - rightNodeId id)
        (by unfold rightNodeId; omega) (hid.right hnode) hright rfl
      refine ⟨.node split l r, stored_node_iff.mpr ⟨hnode, hl, hr⟩, ?_, ?_, hlsplits, hrsplits⟩
      · intro i hi
        rcases List.mem_append.mp hi with hi | hi
        · exact hlrows i hi
        · exact hrrows i hi
      · exact ⟨id, hid, hnode, fun i hi => hl.leafBelow_iff.mpr ⟨i, hi, rfl⟩,
          fun i hi => hr.leafBelow_iff.mpr ⟨i, hi, rfl⟩⟩

/-- A well shaped array holds a tree at its root. -/
theorem WellShaped.exists_stored {tree : KDTree K} {samples : Samples K}
    (h : tree.WellShaped samples) :
    ∃ t, tree.Stored 0 t ∧ (∀ i ∈ t.leaves, i < samples.rows) ∧ t.ForallNodes tree.SplitAt :=
  h.exists_stored_below .root h.root

/-- A stored tree whose root is an internal node has that node's split at its own root. -/
theorem Stored.eq_node {tree : KDTree K} {id id' : ℕ} {split : Split K}
    {t : SplitTree (Split K) ℕ} (h : tree.Stored id t)
    (hnode : tree.getNode id = some (.internal id' split)) : ∃ l r, t = .node split l r := by
  cases t with
  | leaf i =>
    rw [stored_leaf_iff.mp h] at hnode
    cases hnode
  | node s l r =>
    rw [(stored_node_iff.mp h).1] at hnode
    cases hnode
    exact ⟨l, r, rfl⟩

/-- The nodes of a stored tree are reached from the root of the array if its own root is. -/
theorem Stored.reachable_of_mem_layout {tree : KDTree K} {root : ℕ} {t : SplitTree (Split K) ℕ}
    (h : tree.Stored root t) (hroot : tree.Reachable root) {node : Node K}
    (hnode : node ∈ layout root t) : tree.Reachable node.getId := by
  induction t generalizing root with
  | leaf i =>
    obtain rfl : node = .leaf root i := by simpa [layout_leaf] using hnode
    exact hroot
  | node s l r ihl ihr =>
    obtain ⟨hinternal, hl, hr⟩ := stored_node_iff.mp h
    rw [layout_node, List.mem_cons, List.mem_append] at hnode
    rcases hnode with rfl | hleft | hright
    · exact hroot
    · exact ihl hl (hroot.left hinternal) hleft
    · exact ihr hr (hroot.right hinternal) hright

/-- A node that is reached from the root of the array is one of the tree stored there. -/
theorem Stored.mem_layout_of_reachable {tree : KDTree K} {t : SplitTree (Split K) ℕ}
    (h : tree.Stored 0 t) {id : ℕ} (hid : tree.Reachable id) {node : Node K}
    (hnode : tree.getNode id = some node) : node ∈ layout 0 t := by
  have hsubtree : ∃ t', tree.Stored id t' ∧ layout id t' ⊆ layout 0 t := by
    clear hnode
    induction hid with
    | root => exact ⟨t, h, List.Subset.refl _⟩
    | left _ hparent ih =>
      obtain ⟨t', ht', hsub⟩ := ih
      obtain ⟨l, r, rfl⟩ := ht'.eq_node hparent
      refine ⟨l, (stored_node_iff.mp ht').2.1, fun x hx => hsub ?_⟩
      rw [layout_node]
      exact List.mem_cons_of_mem _ (List.mem_append_left _ hx)
    | right _ hparent ih =>
      obtain ⟨t', ht', hsub⟩ := ih
      obtain ⟨l, r, rfl⟩ := ht'.eq_node hparent
      refine ⟨r, (stored_node_iff.mp ht').2.2, fun x hx => hsub ?_⟩
      rw [layout_node]
      exact List.mem_cons_of_mem _ (List.mem_append_right _ hx)
  obtain ⟨t', ht', hsub⟩ := hsubtree
  apply hsub
  cases t' with
  | leaf i =>
    obtain rfl : Node.leaf id i = node :=
      Option.some.inj ((stored_leaf_iff.mp ht').symm.trans hnode)
    simp [layout_leaf]
  | node s l r =>
    obtain rfl : Node.internal id s = node :=
      Option.some.inj ((stored_node_iff.mp ht').1.symm.trans hnode)
    simp [layout_node]

/-- What is reached from the root of a stored tree is the root of one of its subtrees. -/
theorem Stored.subtree_of_reachable {tree : KDTree K} {t : SplitTree (Split K) ℕ}
    {P : Split K → List ℕ → List ℕ → Prop} (hstored : tree.Stored 0 t) (hP : t.ForallNodes P)
    {id : ℕ} (hid : tree.Reachable id) :
    ∃ t', tree.Stored id t' ∧ t'.leaves ⊆ t.leaves ∧ t'.ForallNodes P := by
  induction hid with
  | root => exact ⟨t, hstored, List.Subset.refl _, hP⟩
  | left _ hnode ih =>
    obtain ⟨t', ht', hsub, hP'⟩ := ih
    obtain ⟨l, r, rfl⟩ := ht'.eq_node hnode
    exact ⟨l, (stored_node_iff.mp ht').2.1,
      List.Subset.trans (List.subset_append_left _ _) hsub, hP'.2.1⟩
  | right _ hnode ih =>
    obtain ⟨t', ht', hsub, hP'⟩ := ih
    obtain ⟨l, r, rfl⟩ := ht'.eq_node hnode
    exact ⟨r, (stored_node_iff.mp ht').2.2,
      List.Subset.trans (List.subset_append_right _ _) hsub, hP'.2.2⟩

/-- The children of a reachable internal node are the roots of the subtrees on the two
sides of its split. -/
theorem Stored.children_of_reachable {tree : KDTree K} {t : SplitTree (Split K) ℕ}
    {P : Split K → List ℕ → List ℕ → Prop} (hstored : tree.Stored 0 t) (hP : t.ForallNodes P)
    {id id' : ℕ} {split : Split K} (hid : tree.Reachable id)
    (hnode : tree.getNode id = some (.internal id' split)) :
    ∃ l r, P split l.leaves r.leaves ∧ tree.Stored (leftNodeId id) l ∧
      tree.Stored (rightNodeId id) r := by
  obtain ⟨t', ht', -, hP'⟩ := hstored.subtree_of_reachable hP hid
  obtain ⟨l, r, rfl⟩ := ht'.eq_node hnode
  obtain ⟨-, hl, hr⟩ := stored_node_iff.mp ht'
  exact ⟨l, r, hP'.1, hl, hr⟩

/-- The root of a stored tree is not an empty node. -/
theorem Stored.present {tree : KDTree K} {root : ℕ} {t : SplitTree (Split K) ℕ}
    (h : tree.Stored root t) : tree.Present root := by
  cases t with
  | leaf i => exact ⟨_, stored_leaf_iff.mp h, by simp⟩
  | node s l r => exact ⟨_, (stored_node_iff.mp h).1, by simp⟩

/-- A finite array that holds a tree over rows of the matrix at its root is well shaped. -/
theorem Stored.wellShaped {tree : KDTree K} {samples : Samples K} {t : SplitTree (Split K) ℕ}
    (hstored : tree.Stored 0 t) (hfinite : ∃ numNodes, ∀ id ≥ numNodes, tree.getNode id = none)
    (hrows : ∀ i ∈ t.leaves, i < samples.rows)
    (hdims : t.ForallNodes fun split _ _ => split.HasDimensions samples.cols) :
    tree.WellShaped samples where
  finite := hfinite
  root := hstored.present
  children {id id' split} hid hnode := by
    obtain ⟨l, r, -, hl, hr⟩ := hstored.children_of_reachable hdims hid hnode
    exact ⟨hl.present, hr.present⟩
  splits {id id' split} hid hnode := by
    obtain ⟨l, r, hsplit, -, -⟩ := hstored.children_of_reachable hdims hid hnode
    exact hsplit
  leaves {id id' s} hid hnode := by
    obtain ⟨t', ht', hsub, -⟩ := hstored.subtree_of_reachable hdims hid
    obtain ⟨i, hi, rfl⟩ := ht'.leafBelow_iff.mp (.leaf hnode)
    exact ⟨by omega, by exact_mod_cast hrows i (hsub hi)⟩

end KDTree

end Kdtree
