import Kdtree.RoundTrip

/-!
# Writing and reloading a tree

Loading the bytes that were written for a tree gives a tree with the same slots.
Each slot holds the node it held before, with every coefficient replaced by the
number that was printed for it.
-/

namespace Kdtree

open Delimited

variable {K : Type}

/-- The node in a slot that has one. -/
def KDTree.nodeAt (kdTree : KDTree K) (id : ℕ) : Node K := (kdTree.getNode id).getD (.empty id)

/-- The node in a slot carries the number of the slot. -/
theorem KDTree.getId_nodeAt (kdTree : KDTree K) (id : ℕ) : (kdTree.nodeAt id).getId = id := by
  rw [nodeAt]
  cases h : kdTree.getNode id with
  | none => rfl
  | some node => exact kdTree.id_eq h

/-- The split dimension is an index of all five points, which then are not empty. -/
structure Split.IsIndexed (split : Split K) : Prop where
  /-- It is one of the split point. -/
  splitPoint : split.splitDimension < split.splitPoint.coefficients.length
  /-- It is one of the largest corner of the left bounds. -/
  leftMax : split.splitDimension < split.leftBounds.maxPoint.coefficients.length
  /-- It is one of the smallest corner of the left bounds. -/
  leftMin : split.splitDimension < split.leftBounds.minPoint.coefficients.length
  /-- It is one of the largest corner of the right bounds. -/
  rightMax : split.splitDimension < split.rightBounds.maxPoint.coefficients.length
  /-- It is one of the smallest corner of the right bounds. -/
  rightMin : split.splitDimension < split.rightBounds.minPoint.coefficients.length

/-- Points with an index have coefficients. -/
theorem Split.IsIndexed.hasCoefficients {split : Split K} (h : split.IsIndexed) :
    split.HasCoefficients where
  splitPoint := List.ne_nil_of_length_pos (Nat.zero_lt_of_lt h.splitPoint)
  leftBounds := ⟨List.ne_nil_of_length_pos (Nat.zero_lt_of_lt h.leftMax),
    List.ne_nil_of_length_pos (Nat.zero_lt_of_lt h.leftMin)⟩
  rightBounds := ⟨List.ne_nil_of_length_pos (Nat.zero_lt_of_lt h.rightMax),
    List.ne_nil_of_length_pos (Nat.zero_lt_of_lt h.rightMin)⟩

variable [Field K] [LinearOrder K] [FloorRing K]

/-- Printing a node does not change its id. -/
@[simp] theorem Node.getId_printed (node : Node K) : node.printed.getId = node.getId := by
  cases node <;> rfl

/-- The nodes that are read back, in the order of their slots. -/
def KDTree.printedNodes (kdTree : KDTree K) : List (Node K) :=
  (List.range kdTree.numNodes).map fun id => (kdTree.nodeAt id).printed

/-- The tree that is read back. -/
def KDTree.printed (kdTree : KDTree K) : KDTree K :=
  kdTree.printedNodes.foldl insert (create kdTree.numNodes)

/-- A tree that can be written: every slot holds a node, with coefficients in all its points. -/
def KDTree.Writable (kdTree : KDTree K) : Prop :=
  ∀ id < kdTree.numNodes, ∃ node, kdTree.getNode id = some node ∧ node.HasCoefficients

/-- The ids of the nodes that are read back are the slots. -/
theorem KDTree.map_getId_printedNodes (kdTree : KDTree K) :
    kdTree.printedNodes.map Node.getId = List.range kdTree.numNodes := by
  simp [printedNodes, Function.comp_def, getId_nodeAt]

/-- The reloaded tree has the printed nodes in its slots. -/
theorem KDTree.getNode_printed (kdTree : KDTree K) {id : ℕ} (hid : id < kdTree.numNodes) :
    kdTree.printed.getNode id = some (kdTree.nodeAt id).printed := by
  have hmem : (kdTree.nodeAt id).printed ∈ kdTree.printedNodes :=
    List.mem_map_of_mem (List.mem_range.mpr hid)
  have hget := getNode_foldl_insert_of_mem (create kdTree.numNodes)
    (kdTree.map_getId_printedNodes ▸ List.nodup_range) hmem
  rwa [Node.getId_printed, getId_nodeAt] at hget

/-- It has no other slots. -/
theorem KDTree.getNode_printed_of_le (kdTree : KDTree K) {id : ℕ} (hid : kdTree.numNodes ≤ id) :
    kdTree.printed.getNode id = none := by
  have hnotMem : id ∉ kdTree.printedNodes.map Node.getId := by
    rw [map_getId_printedNodes, List.mem_range]
    omega
  rw [printed, getNode_foldl_insert_of_notMem _ hnotMem, getNode_create, if_neg (by omega)]

/-- The reloaded tree has as many slots. -/
@[simp] theorem KDTree.numNodes_printed (kdTree : KDTree K) :
    kdTree.printed.numNodes = kdTree.numNodes := by
  rw [printed, numNodes_foldl_insert, numNodes_create]

/-- The records of a writable tree. -/
theorem KDTree.Writable.convertKDTreeToStringVector {kdTree : KDTree K} (h : kdTree.Writable) :
    Kdtree.convertKDTreeToStringVector kdTree =
      .ok ((List.range kdTree.numNodes).map fun id => (kdTree.nodeAt id).toString) := by
  refine Fallible.mapM_eq_ok fun id hid => ?_
  obtain ⟨node, hnode, -⟩ := h id (List.mem_range.mp hid)
  simp only [lookup, hnode, nodeAt, Option.getD_some, bind, Except.bind, pure, Except.pure]

/-- A record is read back into its slot. -/
theorem insertRecord_toString {node : Node K} (hnode : node.HasCoefficients) (kdTree : KDTree K) :
    insertRecord kdTree (node.toString, node.getId) = .ok (kdTree.insert node.printed) := by
  simp only [insertRecord, Node.fromString_toString hnode, bind, Except.bind]
  cases node <;> rfl

/-- The records of a writable tree are read back. -/
theorem KDTree.Writable.convertStringVectorToKDTree {kdTree : KDTree K} (h : kdTree.Writable) :
    Kdtree.convertStringVectorToKDTree
      ((List.range kdTree.numNodes).map fun id => (kdTree.nodeAt id).toString) =
        .ok kdTree.printed := by
  have hzip : ((List.range kdTree.numNodes).map fun id => (kdTree.nodeAt id).toString).zipIdx =
      (List.range kdTree.numNodes).map fun id => ((kdTree.nodeAt id).toString, id) := by
    refine List.ext_getElem (by simp) fun id h1 h2 => ?_
    simp
  have hround : ∀ id ∈ List.range kdTree.numNodes, ∀ tree : KDTree K,
      insertRecord tree ((kdTree.nodeAt id).toString, id) =
        .ok (tree.insert (kdTree.nodeAt id).printed) := by
    intro id hid tree
    obtain ⟨node, hnode, hcoefficients⟩ := h id (List.mem_range.mp hid)
    have hat : kdTree.nodeAt id = node := by rw [nodeAt, hnode, Option.getD_some]
    have hread := insertRecord_toString hcoefficients tree
    rwa [← hat, getId_nodeAt] at hread
  rw [Kdtree.convertStringVectorToKDTree, hzip, List.foldlM_map, List.length_map,
    List.length_range, Fallible.foldlM_eq_ok hround, printed, printedNodes, List.foldl_map]

/-- Loading what was written for a writable tree. -/
theorem KDTree.Writable.load_write (gzip : Gzip) {kdTree : KDTree K} (h : kdTree.Writable) :
    ∃ modelFile, write gzip kdTree = .ok modelFile ∧ load gzip modelFile = .ok kdTree.printed := by
  refine ⟨_, by simp only [write, h.convertKDTreeToStringVector, bind, Except.bind]; rfl, ?_⟩
  have hrecords : ∀ s ∈ (List.range kdTree.numNodes).map fun id => (kdTree.nodeAt id).toString,
      s ≠ [] ∧ EndsAt recordMarker s := by
    intro s hs
    obtain ⟨id, -, rfl⟩ := List.mem_map.mp hs
    exact ⟨convertMapToString_ne_nil (by decide)
      (by rw [Node.toMap_entries]; exact List.cons_ne_nil _ _),
      (kdTree.nodeAt id).avoids_toString.endsAt (by decide)⟩
  have hsplit := Util.convertStringToVector_convertVectorToString (by decide) hrecords
  rw [Util.convertStringToVector, Util.convertVectorToString] at hsplit
  simp only [load, decompressAndLoadStringVector, compressAndWriteStringVector,
    gzip.decompress_compress, hsplit, h.convertStringVectorToKDTree, bind, Except.bind]

/-- What becomes of a coefficient: the number that is read from its text with six
decimals, and hence off by at most half a unit of the last one. -/
structure CoefficientReloaded (c c' : K) : Prop where
  /-- It is read from the text. -/
  stod_eq : stod (toStringDouble c) = .ok c'
  /-- It is off by at most half a unit. -/
  abs_sub_le : |c' - c| ≤ 1 / 2 / 10 ^ 6

/-- What becomes of a point: as many coefficients in the same order. -/
def Reloaded (point point' : Point K) : Prop :=
  List.Forall₂ CoefficientReloaded point.coefficients point'.coefficients

/-- What becomes of a split: the same dimension, and its five points in their roles. -/
structure SplitReloaded (split split' : Split K) : Prop where
  /-- The dimension is the same. -/
  splitDimension : split'.splitDimension = split.splitDimension
  /-- The split point. -/
  splitPoint : Reloaded split.splitPoint split'.splitPoint
  /-- The largest corner of the left bounds. -/
  leftMax : Reloaded split.leftBounds.maxPoint split'.leftBounds.maxPoint
  /-- The smallest corner of the left bounds. -/
  leftMin : Reloaded split.leftBounds.minPoint split'.leftBounds.minPoint
  /-- The largest corner of the right bounds. -/
  rightMax : Reloaded split.rightBounds.maxPoint split'.rightBounds.maxPoint
  /-- The smallest corner of the right bounds. -/
  rightMin : Reloaded split.rightBounds.minPoint split'.rightBounds.minPoint

variable [IsStrictOrderedRing K]

/-- Printing reloads a point. -/
theorem reloaded_printed (point : Point K) : Reloaded point point.printed := by
  refine List.forall₂_map_right_iff.mpr (List.forall₂_same.mpr fun c _ => ?_)
  exact ⟨stod_toStringDouble c, Decimal.abs_rounded_sub_le 6 c⟩

/-- Printing reloads a split. -/
theorem splitReloaded_printed (split : Split K) : SplitReloaded split split.printed where
  splitDimension := rfl
  splitPoint := reloaded_printed _
  leftMax := reloaded_printed _
  leftMin := reloaded_printed _
  rightMax := reloaded_printed _
  rightMin := reloaded_printed _

/-- Writing a tree and loading it again gives a tree with as many slots. Every slot
has a node of the same type, with the same id and the same sample id, which is `-1`
except in a leaf; it has a split exactly when it is internal, with the same dimension
and with the reloaded points in the same roles. -/
theorem load_write_preserves (gzip : Gzip) {kdTree : KDTree K}
    (hslots : ∀ id < kdTree.numNodes, ∃ node, kdTree.getNode id = some node ∧
      ∀ split ∈ node.getSplit, split.IsIndexed) :
    ∃ modelFile loaded, write gzip kdTree = .ok modelFile ∧ load gzip modelFile = .ok loaded ∧
      loaded.numNodes = kdTree.numNodes ∧
      ∀ id < kdTree.numNodes, ∃ node node', kdTree.getNode id = some node ∧
        loaded.getNode id = some node' ∧
        node'.getType = node.getType ∧ node'.getId = node.getId ∧
        node'.getSampleId = node.getSampleId ∧
        (node'.getType ≠ .leaf → node'.getSampleId = -1) ∧
        (node'.getSplit.isSome ↔ node'.getType = .internal) ∧
        ∀ split ∈ node.getSplit, ∃ split' ∈ node'.getSplit, SplitReloaded split split' := by
  have hwritable : kdTree.Writable := by
    intro id hid
    obtain ⟨node, hnode, hsplit⟩ := hslots id hid
    exact ⟨node, hnode, fun split hmem => (hsplit split hmem).hasCoefficients⟩
  obtain ⟨modelFile, hwrite, hload⟩ := hwritable.load_write gzip
  refine ⟨modelFile, _, hwrite, hload, kdTree.numNodes_printed, fun id hid => ?_⟩
  obtain ⟨node, hnode, -⟩ := hslots id hid
  have hprinted := kdTree.getNode_printed hid
  rw [KDTree.nodeAt, hnode, Option.getD_some] at hprinted
  refine ⟨node, node.printed, hnode, hprinted, ?_⟩
  cases node with
  | empty id => simp [Node.printed, Node.getSplit, Node.getSampleId]
  | leaf id sampleId => simp [Node.printed, Node.getSplit, Node.getSampleId]
  | internal id split =>
    simp [Node.printed, Node.getSplit, Node.getSampleId, splitReloaded_printed]

/-- Files that are not compressed. -/
def Gzip.stored : Gzip := ⟨id, id, fun _ => rfl⟩

/-- Three slots: a node with a split, an empty one, and a leaf with a sample id that is
not a row. -/
def sparseTree : KDTree ℚ :=
  ((KDTree.create 3).insertInternalNode 0 ⟨0, ⟨[-1 / 3, 4]⟩, ⟨⟨[-1 / 3]⟩, ⟨[-2]⟩⟩,
    ⟨⟨[5, 0, 0]⟩, ⟨[1 / 7]⟩⟩⟩).insertLeafNode 2 (-7)

/-- The three slots after writing and loading. -/
theorem load_write_sparseTree :
    ∃ modelFile loaded, write .stored sparseTree = .ok modelFile ∧
      load .stored modelFile = .ok loaded ∧ loaded.numNodes = sparseTree.numNodes ∧
      ∀ id < sparseTree.numNodes, ∃ node node', sparseTree.getNode id = some node ∧
        loaded.getNode id = some node' ∧
        node'.getType = node.getType ∧ node'.getId = node.getId ∧
        node'.getSampleId = node.getSampleId ∧
        (node'.getType ≠ .leaf → node'.getSampleId = -1) ∧
        (node'.getSplit.isSome ↔ node'.getType = .internal) ∧
        ∀ split ∈ node.getSplit, ∃ split' ∈ node'.getSplit, SplitReloaded split split' := by
  refine load_write_preserves .stored fun id hid => ?_
  change id < 3 at hid
  have hcases : id = 0 ∨ id = 1 ∨ id = 2 := by omega
  rcases hcases with rfl | rfl | rfl
  · refine ⟨_, rfl, fun split hsplit => ?_⟩
    obtain rfl := Option.some.inj hsplit
    constructor <;> decide
  · exact ⟨.empty 1, rfl, by simp [Node.getSplit]⟩
  · exact ⟨.leaf 2 (-7), rfl, by simp [Node.getSplit]⟩

end Kdtree
