import Kdtree.Segment

/-!
# Nodes and the node array

The classes `Node` and `KDTree` of `KDTree.h`. A node is built by one of three
insertions, and each of them stores it under its own id, so the array carries
that fact with it. Slots are numbered without a bound; a slot that was never
filled holds no node.
-/

namespace Kdtree

/-- The kinds of nodes, in the order of the source's enumeration. -/
inductive NodeType
  | empty
  | internal
  | leaf
  deriving DecidableEq, Repr

/-- A node of the tree, one constructor for each kind of node the program makes. -/
inductive Node (K : Type)
  /-- The node that fills a slot before the tree is built. -/
  | empty (id : ℕ)
  /-- A node with a split and two children. -/
  | internal (id : ℕ) (split : Split K)
  /-- A node that holds one sample. -/
  | leaf (id : ℕ) (sampleId : ℤ)
  deriving DecidableEq, Repr

namespace Node

variable {K : Type}

/-- The kind of a node. -/
def getType : Node K → NodeType
  | .empty _ => .empty
  | .internal _ _ => .internal
  | .leaf _ _ => .leaf

/-- The slot a node was made for. -/
def getId : Node K → ℕ
  | .empty id => id
  | .internal id _ => id
  | .leaf id _ => id

/-- The sample of a leaf; other nodes keep the default of the field. -/
def getSampleId : Node K → ℤ
  | .empty _ => -1
  | .internal _ _ => -1
  | .leaf _ sampleId => sampleId

/-- The split of an internal node; the pointer of other nodes is empty. -/
def getSplit : Node K → Option (Split K)
  | .empty _ => none
  | .internal _ split => some split
  | .leaf _ _ => none

/-- The type of an empty node. -/
@[simp] theorem getType_empty (id : ℕ) : (empty id : Node K).getType = .empty := rfl

/-- The type of an internal node. -/
@[simp] theorem getType_internal (id : ℕ) (split : Split K) :
    (internal id split).getType = .internal := rfl

/-- The type of a leaf. -/
@[simp] theorem getType_leaf (id : ℕ) (sampleId : ℤ) :
    (leaf id sampleId : Node K).getType = .leaf := rfl

/-- The slot of an empty node. -/
@[simp] theorem getId_empty (id : ℕ) : (empty id : Node K).getId = id := rfl

/-- The slot of an internal node. -/
@[simp] theorem getId_internal (id : ℕ) (split : Split K) : (internal id split).getId = id := rfl

/-- The slot of a leaf. -/
@[simp] theorem getId_leaf (id : ℕ) (sampleId : ℤ) : (leaf id sampleId : Node K).getId = id := rfl

end Node

/-- The node array. Every node lies in the slot of its own id. -/
structure KDTree (K : Type) where
  /-- The number of slots the array was allocated with. -/
  numNodes : ℕ
  /-- The node in each slot that has been filled. -/
  nodes : ℕ → Option (Node K)
  /-- The insertions store a node under its own id. -/
  id_eq : ∀ {slot node}, nodes slot = some node → node.getId = slot

namespace KDTree

variable {K : Type}

/-- The node in a slot. -/
def getNode (tree : KDTree K) (nodeId : ℕ) : Option (Node K) := tree.nodes nodeId

/-- Stores a node in the slot of its id, which is what all three insertions do. -/
def insert (tree : KDTree K) (node : Node K) : KDTree K where
  numNodes := tree.numNodes
  nodes := Function.update tree.nodes node.getId (some node)
  id_eq := by
    intro slot other hother
    by_cases hslot : slot = node.getId
    · subst hslot
      simp only [Function.update_self, Option.some.injEq] at hother
      rw [hother]
    · rw [Function.update_of_ne hslot] at hother
      exact tree.id_eq hother

/-- `insertEmptyNode`. -/
def insertEmptyNode (tree : KDTree K) (nodeId : ℕ) : KDTree K := tree.insert (.empty nodeId)

/-- `insertLeafNode`. -/
def insertLeafNode (tree : KDTree K) (nodeId : ℕ) (sampleId : ℤ) : KDTree K :=
  tree.insert (.leaf nodeId sampleId)

/-- `insertInternalNode`. -/
def insertInternalNode (tree : KDTree K) (nodeId : ℕ) (split : Split K) : KDTree K :=
  tree.insert (.internal nodeId split)

/-- The constructor, which fills every slot with an empty node. The source only reserves room
for the slots in its vector, and then uses them as if the vector had them. -/
def create (numNodes : ℕ) : KDTree K :=
  (List.range numNodes).foldl insertEmptyNode ⟨numNodes, fun _ => none, fun h => by cases h⟩

/-- The slot of the left child. -/
def leftNodeId (nodeId : ℕ) : ℕ := nodeId * 2 + 1

/-- The slot of the right child. -/
def rightNodeId (nodeId : ℕ) : ℕ := nodeId * 2 + 2

/-- The slot of the parent; the division truncates, so the root is its own parent. -/
def parentNodeId (nodeId : ℕ) : ℕ := (nodeId - 1) / 2

/-- A value that is stored in a 32-bit `int`. -/
def toInt32 (value : ℕ) : Except Fault ℕ :=
  if value < 2 ^ 31 then .ok value else .error .intOverflow

/-- The number of slots allocated for a number of samples, which is never zero.
The number of leaves is an `int`, and so is the product with two. -/
def getNumNodes (numSamples : ℕ) : Except Fault ℕ := do
  let numLeaves ← toInt32 (2 ^ (Nat.log2 numSamples + 1))
  let product ← toInt32 (numLeaves * 2)
  return product - 1

/-- One round of the constructor's loop. The counter is an `int`, also after it was
incremented. -/
def createRound (tree : KDTree K) (id : ℕ) : Except Fault (KDTree K) := do
  let _ ← toInt32 (id + 1)
  return tree.insertEmptyNode id

/-- The constructor together with its loop counter. -/
def createCounted (numNodes : ℕ) : Except Fault (KDTree K) :=
  (List.range numNodes).foldlM createRound ⟨numNodes, fun _ => none, fun h => by cases h⟩

/-- Two arrays with the same number of slots and the same nodes are equal. -/
@[ext] theorem ext {s t : KDTree K} (hnum : s.numNodes = t.numNodes)
    (hnodes : ∀ id, s.getNode id = t.getNode id) : s = t := by
  obtain ⟨_, _, _⟩ := s
  obtain ⟨_, _, _⟩ := t
  simp only [getNode] at hnum hnodes
  simp only [mk.injEq]
  exact ⟨hnum, funext hnodes⟩

/-- An inserted node is found under its id. -/
theorem getNode_insert_self (tree : KDTree K) (node : Node K) :
    (tree.insert node).getNode node.getId = some node := by
  simp [getNode, insert]

/-- Other slots keep their node. -/
theorem getNode_insert_of_ne (tree : KDTree K) {node : Node K} {id : ℕ}
    (hid : id ≠ node.getId) : (tree.insert node).getNode id = tree.getNode id := by
  exact Function.update_of_ne hid _ _

end KDTree

end Kdtree
