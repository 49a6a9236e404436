import Kdtree.BuildTree

/-!
# Trees stored in the node array

`Stored` says that the array holds a tree below a slot. The builders store the
tree they are given a segment for, and leave every slot outside it alone. The
samples reached through the array are then the leaves of the tree.
-/

namespace Kdtree

open SplitTree

variable {K : Type}

namespace KDTree

/-- Slots outside a list of nodes are left alone when the nodes are inserted. -/
theorem getNode_foldl_insert_of_notMem (tree : KDTree K) {nodes : List (Node K)} {id : ℕ}
    (hid : id ∉ nodes.map Node.getId) : (nodes.foldl insert tree).getNode id = tree.getNode id := by
  induction nodes generalizing tree with
  | nil => rfl
  | cons node nodes ih =>
    simp only [List.map_cons, List.mem_cons, not_or] at hid
    rw [List.foldl_cons, ih _ hid.2, getNode_insert_of_ne _ hid.1]

/-- Inserted nodes with different ids are all found. -/
theorem getNode_foldl_insert_of_mem (tree : KDTree K) {nodes : List (Node K)}
    (hnodup : (nodes.map Node.getId).Nodup) {node : Node K} (hnode : node ∈ nodes) :
    (nodes.foldl insert tree).getNode node.getId = some node := by
  induction nodes generalizing tree with
  | nil => cases hnode
  | cons first nodes ih =>
    rw [List.map_cons, List.nodup_cons] at hnodup
    rcases List.mem_cons.mp hnode with rfl | hrest
    · rw [List.foldl_cons, getNode_foldl_insert_of_notMem _ hnodup.1, getNode_insert_self]
    · exact ih _ hnodup.2 hrest

/-- Inserting nodes does not change the number of slots. -/
@[simp] theorem numNodes_foldl_insert (tree : KDTree K) (nodes : List (Node K)) :
    (nodes.foldl insert tree).numNodes = tree.numNodes := by
  induction nodes generalizing tree with
  | nil => rfl
  | cons node nodes ih => exact ih _

/-- Nodes with different ids may be inserted in any order. -/
theorem foldl_insert_perm (tree : KDTree K) {nodes nodes' : List (Node K)}
    (hperm : nodes.Perm nodes') (hnodup : (nodes.map Node.getId).Nodup) :
    nodes.foldl insert tree = nodes'.foldl insert tree := by
  have hnodup' : (nodes'.map Node.getId).Nodup := (hperm.map _).nodup_iff.mp hnodup
  refine KDTree.ext (by simp) fun id => ?_
  by_cases hid : id ∈ nodes.map Node.getId
  · obtain ⟨node, hnode, rfl⟩ := List.mem_map.mp hid
    rw [getNode_foldl_insert_of_mem _ hnodup hnode,
      getNode_foldl_insert_of_mem _ hnodup' (hperm.subset hnode)]
  · have hid' : id ∉ nodes'.map Node.getId := fun h => hid ((hperm.map _).mem_iff.mpr h)
    rw [getNode_foldl_insert_of_notMem _ hid, getNode_foldl_insert_of_notMem _ hid']

/-- The constructor inserts an empty node for every slot. -/
theorem create_eq (numNodes : ℕ) :
    (create numNodes : KDTree K) = ((List.range numNodes).map Node.empty).foldl insert
      ⟨numNodes, fun _ => none, fun h => by cases h⟩ := by
  rw [List.foldl_map]
  rfl

/-- The array has the number of slots it was constructed with. -/
@[simp] theorem numNodes_create (numNodes : ℕ) :
    (create numNodes : KDTree K).numNodes = numNodes := by
  rw [create_eq, numNodes_foldl_insert]

/-- Each of them holds an empty node, and there are no others. -/
theorem getNode_create (numNodes id : ℕ) :
    (create numNodes : KDTree K).getNode id = if id < numNodes then some (.empty id) else none := by
  have hids : ((List.range numNodes).map (Node.empty : ℕ → Node K)).map Node.getId =
      List.range numNodes := by
    simp [Function.comp_def]
  rw [create_eq]
  split_ifs with hid
  · have hmem : Node.empty id ∈ (List.range numNodes).map (Node.empty : ℕ → Node K) :=
      List.mem_map_of_mem (List.mem_range.mpr hid)
    exact getNode_foldl_insert_of_mem _ (by rw [hids]; exact List.nodup_range) hmem
  · rw [getNode_foldl_insert_of_notMem _ (by rwa [hids, List.mem_range])]
    rfl

/-- `tree.LeafBelow id sampleId`: a leaf with that sample is reached from a slot
through the children of internal nodes. -/
inductive LeafBelow (tree : KDTree K) : ℕ → ℤ → Prop
  | leaf {id id' : ℕ} {sampleId : ℤ} (hnode : tree.getNode id = some (.leaf id' sampleId)) :
      LeafBelow tree id sampleId
  | left {id id' : ℕ} {split : Split K} {sampleId : ℤ}
      (hnode : tree.getNode id = some (.internal id' split))
      (hbelow : LeafBelow tree (leftNodeId id) sampleId) : LeafBelow tree id sampleId
  | right {id id' : ℕ} {split : Split K} {sampleId : ℤ}
      (hnode : tree.getNode id = some (.internal id' split))
      (hbelow : LeafBelow tree (rightNodeId id) sampleId) : LeafBelow tree id sampleId

/-- The array holds the nodes of a tree that has its root in a slot. -/
def Stored (tree : KDTree K) (root : ℕ) (t : SplitTree (Split K) ℕ) : Prop :=
  ∀ node ∈ layout root t, tree.getNode node.getId = some node

/-- A leaf is stored when its slot has it. -/
theorem stored_leaf_iff {tree : KDTree K} {root sampleId : ℕ} :
    tree.Stored root (.leaf sampleId) ↔ tree.getNode root = some (.leaf root sampleId) := by
  simp [Stored, layout_leaf]

/-- An internal node is stored when its slot has it and both subtrees are stored below. -/
theorem stored_node_iff {tree : KDTree K} {root : ℕ} {s : Split K}
    {l r : SplitTree (Split K) ℕ} :
    tree.Stored root (.node s l r) ↔ tree.getNode root = some (.internal root s) ∧
      tree.Stored (leftNodeId root) l ∧ tree.Stored (rightNodeId root) r := by
  simp [Stored, layout_node, or_imp, forall_and]

/-- The leaves reached from the root of a stored tree are the leaves of the tree. -/
theorem Stored.leafBelow_iff {tree : KDTree K} {root : ℕ} {t : SplitTree (Split K) ℕ}
    (h : tree.Stored root t) {sampleId : ℤ} :
    tree.LeafBelow root sampleId ↔ ∃ i ∈ t.leaves, sampleId = i := by
  induction t generalizing root with
  | leaf i =>
    rw [stored_leaf_iff] at h
    constructor
    · rintro (hnode | ⟨hnode, -⟩ | ⟨hnode, -⟩)
      · rw [h] at hnode
        injection hnode with hnode
        injection hnode with _ hsample
        exact ⟨i, by simp [leaves], hsample.symm⟩
      · rw [h] at hnode
        cases hnode
      · rw [h] at hnode
        cases hnode
    · rintro ⟨j, hj, rfl⟩
      obtain rfl : j = i := by simpa [leaves] using hj
      exact .leaf h
  | node s l r ihl ihr =>
    obtain ⟨hroot, hl, hr⟩ := stored_node_iff.mp h
    simp only [leaves, List.mem_append, or_and_right, exists_or]
    rw [← ihl hl, ← ihr hr]
    constructor
    · rintro (hnode | ⟨-, hbelow⟩ | ⟨-, hbelow⟩)
      · rw [hroot] at hnode
        cases hnode
      · exact .inl hbelow
      · exact .inr hbelow
    · rintro (hbelow | hbelow)
      · exact .left hroot hbelow
      · exact .right hroot hbelow

end KDTree

/-- The ids of a laid out tree are different. -/
theorem layout_ids_nodup (root : ℕ) (t : SplitTree (Split K) ℕ) :
    ((layout root t).map Node.getId).Nodup := by
  rw [map_getId_layout]
  exact entries_slots_nodup root t

/-- Writing a laid out tree stores it. -/
theorem stored_write (build : Build K) (root : ℕ) (t : SplitTree (Split K) ℕ) :
    (build.write (layout root t)).kdtree.Stored root t := fun _ hnode =>
  KDTree.getNode_foldl_insert_of_mem _ (layout_ids_nodup root t) hnode

/-- Written to a fresh array that has room for it, a tree leaves nothing outside the array. -/
theorem getNode_write_create {numNodes root : ℕ} {t : SplitTree (Split K) ℕ}
    (hroom : ∀ node ∈ layout root t, node.getId < numNodes) :
    ∀ id ≥ numNodes,
      ((Build.start (.create numNodes)).write (layout root t)).kdtree.getNode id = none := by
  intro id hid
  have hnotMem : id ∉ (layout root t).map Node.getId := by
    intro hmem
    obtain ⟨node, hnode, rfl⟩ := List.mem_map.mp hmem
    have := hroom node hnode
    omega
  have hcreate := KDTree.getNode_create (K := K) numNodes id
  rw [if_neg (not_lt.mpr hid)] at hcreate
  exact (KDTree.getNode_foldl_insert_of_notMem _ hnotMem).trans hcreate

end Kdtree
