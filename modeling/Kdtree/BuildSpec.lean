import Kdtree.MedianAgreement
import Kdtree.WellShaped

/-!
# What the recursive builder writes

The builder terminates on every valid item, and writes the nodes of a full binary
tree over the segment: every sample in exactly one leaf, every node in a slot of
its own below the root's, and nothing else. Each split makes progress, so no
segment on the way is empty.
-/

namespace Kdtree

open SplitTree OrderStatistics

variable {K : Type}

/-- `IsDescendant r i`: slot `i` is `r` or is reached from it by `leftNodeId` and
`rightNodeId`. -/
inductive IsDescendant (r : ℕ) : ℕ → Prop
  | refl : IsDescendant r r
  | left {i : ℕ} : IsDescendant r i → IsDescendant r (KDTree.leftNodeId i)
  | right {i : ℕ} : IsDescendant r i → IsDescendant r (KDTree.rightNodeId i)

/-- The sample of a leaf. -/
def Node.leafSample : Node K → Option ℤ
  | .leaf _ sampleId => some sampleId
  | _ => none

/-- Slots below a root in the layout are its descendants in the array. -/
theorem isDescendant_of_isBelow {r i : ℕ} (h : IsBelow r i) : IsDescendant r i := by
  induction h with
  | refl => exact .refl
  | left _ ih => exact ih.left
  | right _ ih => exact ih.right

/-- The samples of the leaves of a laid out tree, in order. -/
theorem filterMap_leafSample_layout (root : ℕ) (t : SplitTree (Split K) ℕ) :
    (layout root t).filterMap Node.leafSample = t.leaves.map Nat.cast := by
  induction t generalizing root with
  | leaf sampleId => rfl
  | node s l r ihl ihr =>
    simp only [layout_node, List.filterMap_cons, Node.leafSample, List.filterMap_append, ihl, ihr,
      leaves, List.map_append]

/-- A laid out tree has one leaf node for each leaf, and one internal node less. -/
theorem countP_layout (root : ℕ) (t : SplitTree (Split K) ℕ) :
    (layout root t).countP (·.getType = .leaf) = t.leaves.length ∧
      (layout root t).countP (·.getType = .internal) = t.leaves.length - 1 := by
  induction t generalizing root with
  | leaf sampleId => exact ⟨rfl, rfl⟩
  | node s l r ihl ihr =>
    obtain ⟨hl, hl'⟩ := ihl (KDTree.leftNodeId root)
    obtain ⟨hr, hr'⟩ := ihr (KDTree.rightNodeId root)
    have := l.leaves_length_pos
    have := r.leaves_length_pos
    simp only [layout_node, List.countP_cons, List.countP_append, Node.getType_internal, hl, hl',
      hr, hr', leaves, List.length_append, reduceCtorEq, decide_false, decide_true, if_true,
      Bool.false_eq_true, if_false]
    omega

/-- Both children of an internal node of a laid out tree are nodes of it. -/
theorem children_mem_layout {root : ℕ} {t : SplitTree (Split K) ℕ} {node : Node K}
    (hnode : node ∈ layout root t) (htype : node.getType = .internal) :
    KDTree.leftNodeId node.getId ∈ (layout root t).map Node.getId ∧
      KDTree.rightNodeId node.getId ∈ (layout root t).map Node.getId := by
  obtain ⟨⟨i, s | a⟩, he, rfl⟩ := List.mem_map.mp hnode
  · rw [map_getId_layout]
    exact children_mem_entries he
  · cases htype

/-- The array of a build over some samples holds a whole tree at its root, and the nodes
written are the nodes of that tree. -/
structure Build.HoldsTree (build : Build K) (numSamples : ℕ) : Prop where
  /-- There are as many nodes as a full tree over the samples has. -/
  written_length : build.written.length = 2 * numSamples - 1
  /-- All but the leaves are internal nodes. -/
  internal_length : build.written.countP (·.getType = .internal) = numSamples - 1
  /-- No slot is written twice. -/
  ids_nodup : (build.written.map Node.getId).Nodup
  /-- The nodes written are the nodes that are reached from the root of the array. -/
  mem_written_iff : ∀ node, node ∈ build.written ↔
    build.kdtree.Reachable node.getId ∧ build.kdtree.getNode node.getId = some node

/-- Writing a laid out tree makes the array hold it. -/
theorem holdsTree_write (build : Build K) (t : SplitTree (Split K) ℕ)
    (hwritten : build.written = []) : (build.write (layout 0 t)).HoldsTree t.leaves.length := by
  have hlayout : (build.write (layout 0 t)).written = layout 0 t := by simp [Build.write, hwritten]
  have hstored := stored_write build 0 t
  refine ⟨?_, ?_, ?_, fun node => ?_⟩
  · rw [hlayout, layout, List.length_map, entries_length]
  · rw [hlayout, (countP_layout 0 t).2]
  · rw [hlayout]
    exact layout_ids_nodup 0 t
  · rw [hlayout]
    constructor
    · intro hnode
      exact ⟨hstored.reachable_of_mem_layout .root hnode, hstored node hnode⟩
    · rintro ⟨hreachable, hnode⟩
      exact hstored.mem_layout_of_reachable hreachable hnode

variable [Field K] [LinearOrder K]

/-- `Reached std root item`: the recursion that starts at `root` comes to `item`. -/
inductive Reached (std : StdAlgorithms K) (root : DataToBuildNodes K) : DataToBuildNodes K → Prop
  | root : Reached std root root
  | less {item : DataToBuildNodes K} {d : ℕ} {sws : SplitWithSegments K}
      (hitem : Reached std root item) (hsplit : SplitsAt std item d sws) :
      Reached std root (item.lessChild d sws)
  | greater {item : DataToBuildNodes K} {d : ℕ} {sws : SplitWithSegments K}
      (hitem : Reached std root item) (hsplit : SplitsAt std item d sws) :
      Reached std root (item.greaterChild d sws)

variable [IsStrictOrderedRing K]

/-- Every item that the recursion comes to from a valid item is valid. -/
theorem Reached.valid {std : StdAlgorithms K} {root item : DataToBuildNodes K}
    (h : Reached std root item) (hvalid : root.Valid) : item.Valid := by
  induction h with
  | root => exact hvalid
  | less _ hsplit ih => exact ih.lessChild hsplit
  | greater _ hsplit ih => exact ih.greaterChild hsplit

/-- From a valid item the recursive builder returns, having written the layout of
the tree over the segment. -/
theorem DataToBuildNodes.Valid.exists_build (std : StdAlgorithms K) {item : DataToBuildNodes K}
    (hvalid : item.Valid) : ∃ t, BuiltFrom std item t ∧ ∀ build : Build K,
      ∀ fuel ≥ item.sampleIdsInSegment.length,
        buildUsingRecursion std fuel item build = .ok (build.write (layout item.nodeId t)) := by
  obtain ⟨t, ht, hheight⟩ := hvalid.exists_builtFrom std
  exact ⟨t, ht, fun build fuel hfuel => ht.buildUsingRecursion_eq (by omega) build⟩

/-- On all samples the recursive builder returns. It has written the nodes of the tree
over them, which the array holds at its root. -/
theorem exists_build_rootItem (std : StdAlgorithms K) {samples : Samples K}
    (hrows : 0 < samples.rows) (hcols : 0 < samples.cols) (selector : DimensionSelectorType)
    (splittingMethod : SplittingMethod) (kdtree : KDTree K) :
    ∃ t out, BuiltFrom std (rootItem samples selector splittingMethod) t ∧
      (∀ fuel ≥ samples.rows, buildUsingRecursion std fuel
        (rootItem samples selector splittingMethod) (.start kdtree) = .ok out) ∧
      out.written = layout 0 t ∧ out.kdtree.Stored 0 t ∧ out.HoldsTree samples.rows := by
  obtain ⟨t, ht, hbuild⟩ := (rootItem_valid hrows hcols selector splittingMethod).exists_build std
  have hlength : (rootItem samples selector splittingMethod).sampleIdsInSegment.length =
      samples.rows := List.length_range
  have hholds := holdsTree_write (.start kdtree) t rfl
  rw [ht.leaves_perm.length_eq, hlength] at hholds
  rw [hlength] at hbuild
  exact ⟨t, _, ht, hbuild (.start kdtree), rfl, stored_write (.start kdtree) 0 t, hholds⟩

/-- From any node map, the recursive builder terminates on a segment of `m`
different samples. It writes `2m - 1` nodes in different slots below the root,
`m` leaves and `m - 1` internal nodes; the children of every internal node are
among them, the leaves hold the samples of the segment, and all other slots keep
what they held. -/
theorem buildUsingRecursion_spec (std : StdAlgorithms K) {item : DataToBuildNodes K}
    (hvalid : item.Valid) (kdtree : KDTree K) :
    ∃ out : Build K,
      (∀ fuel ≥ item.sampleIdsInSegment.length,
        buildUsingRecursion std fuel item (.start kdtree) = .ok out) ∧
      out.written.length = 2 * item.sampleIdsInSegment.length - 1 ∧
      (out.written.map Node.getId).Nodup ∧
      (∀ node ∈ out.written, IsDescendant item.nodeId node.getId) ∧
      out.written.countP (·.getType = .leaf) = item.sampleIdsInSegment.length ∧
      out.written.countP (·.getType = .internal) = item.sampleIdsInSegment.length - 1 ∧
      (∀ node ∈ out.written, node.getType = .internal →
        KDTree.leftNodeId node.getId ∈ out.written.map Node.getId ∧
        KDTree.rightNodeId node.getId ∈ out.written.map Node.getId) ∧
      (out.written.filterMap Node.leafSample).Perm
        (item.sampleIdsInSegment.map Nat.cast) ∧
      (∀ node ∈ out.written, out.kdtree.getNode node.getId = some node) ∧
      ∀ id ∉ out.written.map Node.getId, out.kdtree.getNode id = kdtree.getNode id := by
  obtain ⟨t, ht, hbuild⟩ := hvalid.exists_build std
  have hleaves := ht.leaves_perm
  have hwritten : ((Build.start kdtree).write (layout item.nodeId t)).written =
      layout item.nodeId t := rfl
  refine ⟨_, hbuild (.start kdtree), ?_⟩
  rw [hwritten]
  refine ⟨?_, layout_ids_nodup _ t, ?_, ?_, ?_, ?_, ?_, stored_write _ _ t, ?_⟩
  · rw [layout, List.length_map, entries_length, hleaves.length_eq]
  · intro node hnode
    obtain ⟨e, he, rfl⟩ := List.mem_map.mp hnode
    rw [Node.getId_ofEntry]
    exact isDescendant_of_isBelow (isBelow_of_mem_entries he)
  · rw [(countP_layout _ t).1, hleaves.length_eq]
  · rw [(countP_layout _ t).2, hleaves.length_eq]
  · intro node hnode htype
    exact children_mem_layout hnode htype
  · rw [filterMap_leafSample_layout]
    exact hleaves.map _
  · intro id hid
    exact KDTree.getNode_foldl_insert_of_notMem _ hid

/-- Three samples on a diagonal. -/
def diagonalSamples : Samples ℚ where
  rows := 3
  cols := 3
  coeff := fun i j => 3 * i + j + 1

/-- There are samples, and they have coefficients. -/
theorem diagonalSamples_pos : 0 < diagonalSamples.rows ∧ 0 < diagonalSamples.cols := by decide

/-- The builder on the three samples, over an array that holds an empty node. -/
theorem buildUsingRecursion_diagonal :
    ∃ out : Build ℚ,
      (∀ fuel ≥ 3, buildUsingRecursion .sorting fuel
        (rootItem diagonalSamples .cycleThroughAxes .medianOfMedian) (.start (.create 1)) =
          .ok out) ∧
      out.written.length = 5 ∧ (out.written.map Node.getId).Nodup ∧
      (∀ node ∈ out.written, IsDescendant 0 node.getId) ∧
      out.written.countP (·.getType = .leaf) = 3 ∧
      out.written.countP (·.getType = .internal) = 2 ∧
      (∀ node ∈ out.written, node.getType = .internal →
        KDTree.leftNodeId node.getId ∈ out.written.map Node.getId ∧
        KDTree.rightNodeId node.getId ∈ out.written.map Node.getId) ∧
      (out.written.filterMap Node.leafSample).Perm [0, 1, 2] ∧
      (∀ node ∈ out.written, out.kdtree.getNode node.getId = some node) ∧
      ∀ id ∉ out.written.map Node.getId,
        out.kdtree.getNode id = (KDTree.create 1 : KDTree ℚ).getNode id :=
  buildUsingRecursion_spec .sorting
    (rootItem_valid diagonalSamples_pos.1 diagonalSamples_pos.2 .cycleThroughAxes .medianOfMedian)
    (.create 1)

/-- Splitting makes progress. On two or more samples, sorting leaves at least
`⌊(⌊n / 2⌋ + 1) / 2⌋` samples on each side, and exactly the two halves when
the values are pairwise different; selection leaves at least one on each side.
No item that the recursion comes to is empty, and the recursion ends. -/
theorem splits_make_progress (std : StdAlgorithms K) :
    (∀ (segment : Segment K) (d : ℕ), 2 ≤ segment.sampleIdsInSegment.length →
      d < segment.samples.cols →
      (∃ sws, SplitPointSelector.generate std segment .median d = .ok sws ∧
        (segment.sampleIdsInSegment.length / 2 + 1) / 2 ≤ sws.lessIds.length ∧
        (segment.sampleIdsInSegment.length / 2 + 1) / 2 ≤ sws.greaterIds.length ∧
        ((segment.keys d).Nodup →
          sws.lessIds.length = (segment.sampleIdsInSegment.length + 1) / 2 ∧
          sws.greaterIds.length = segment.sampleIdsInSegment.length / 2)) ∧
      ∃ sws, SplitPointSelector.generate std segment .medianOfMedian d = .ok sws ∧
        sws.lessIds ≠ [] ∧ sws.greaterIds ≠ []) ∧
    ∀ root : DataToBuildNodes K, root.Valid →
      (∀ item, Reached std root item → item.sampleIdsInSegment ≠ []) ∧
      ∀ build : Build K, ∃ out, ∀ fuel ≥ root.sampleIdsInSegment.length,
        buildUsingRecursion std fuel root build = .ok out := by
  constructor
  · intro segment d hlen hd
    have hne : segment.sampleIdsInSegment ≠ [] := List.length_pos_iff.mp (by omega)
    constructor
    · obtain ⟨sws, hsplit, -⟩ := exists_isSplit std segment .median hlen hd
      obtain ⟨p, hp, hmedian⟩ := median_spec std hne hd
      obtain rfl : sws.split.splitPoint = p := Except.ok.inj (hsplit.point.symm.trans hp)
      have hsizes := hmedian.sizes (by rwa [segment.keys_length])
      rw [segment.keys_length] at hsizes
      refine ⟨sws, generate_eq_ok_iff.mpr hsplit, ?_, ?_, fun hnodup => ?_⟩
      · rw [hsplit.less_length]
        exact hsizes.1
      · rw [hsplit.greater_length]
        exact hsizes.2
      · rw [hsplit.less_length, hsplit.greater_length]
        simpa using hmedian.sizes_of_nodup hnodup (by rwa [segment.keys_length])
    · obtain ⟨sws, hsplit, hsides⟩ := exists_isSplit std segment .medianOfMedian hlen hd
      exact ⟨sws, generate_eq_ok_iff.mpr hsplit, hsides⟩
  · intro root hvalid
    obtain ⟨t, -, hbuild⟩ := hvalid.exists_build std
    exact ⟨fun item hitem => (hitem.valid hvalid).ids_ne_nil, fun build => ⟨_, hbuild build⟩⟩

/-- Sorting splits the three samples into two and one. -/
theorem diagonal_split_sizes :
    ∃ sws, SplitPointSelector.generate .sorting (Segment.ofSamples diagonalSamples) .median 0 =
        .ok sws ∧ 1 ≤ sws.lessIds.length ∧ 1 ≤ sws.greaterIds.length ∧
      (((Segment.ofSamples diagonalSamples).keys 0).Nodup →
        sws.lessIds.length = 2 ∧ sws.greaterIds.length = 1) :=
  ((splits_make_progress .sorting).1 (Segment.ofSamples diagonalSamples) 0 (by decide)
    (by decide)).1

end Kdtree
