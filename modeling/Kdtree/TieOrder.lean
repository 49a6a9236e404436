import Kdtree.PrintedBoxes

/-!
# The order of ties

The standard leaves open in which order sorting puts equal values, and the sample
that becomes the split point depends on it. What the search reads does not: of a
split it is the dimension, the threshold and the two boxes. Two builds by sorting
may therefore write different files, but every query is answered alike.
-/

namespace Kdtree

open SplitTree OrderStatistics

variable {K : Type} [Field K]

/-- What the search reads of a split. -/
structure SplitPlane (K : Type) where
  /-- The dimension the plane is orthogonal to. -/
  splitDimension : ℕ
  /-- The coefficient of the plane in that dimension. -/
  splitThreshold : K
  /-- The box of the samples on the less side. -/
  leftBounds : Bounds K
  /-- The box of the samples on the greater side. -/
  rightBounds : Bounds K

/-- The part of a split that the search reads. -/
def Split.plane (split : Split K) : SplitPlane K :=
  ⟨split.splitDimension, split.getSplitThreshold, split.leftBounds, split.rightBounds⟩

/-- What the search reads of a node. -/
structure NodeView (K : Type) where
  /-- The kind of the node. -/
  type : NodeType
  /-- Its slot. -/
  id : ℕ
  /-- The sample of a leaf. -/
  sampleId : ℤ
  /-- The plane and the boxes of an internal node. -/
  plane : Option (SplitPlane K)

/-- The part of a node that the search reads. -/
def Node.view (node : Node K) : NodeView K :=
  ⟨node.getType, node.getId, node.getSampleId, node.getSplit.map Split.plane⟩

/-- Two arrays look alike when the search reads the same from every slot. -/
def KDTree.LooksLike (kdTree kdTree' : KDTree K) : Prop :=
  ∀ id, (kdTree.getNode id).map Node.view = (kdTree'.getNode id).map Node.view

/-- Lookups in arrays that look alike give nodes that look alike. -/
theorem KDTree.LooksLike.lookup {kdTree kdTree' : KDTree K} (h : kdTree.LooksLike kdTree')
    (id : ℕ) : (kdTree.lookup id).map Node.view = (kdTree'.lookup id).map Node.view := by
  have hslot := h id
  unfold KDTree.lookup
  cases hnode : kdTree.getNode id <;> cases hnode' : kdTree'.getNode id <;>
    simp_all [Except.map]

section Search

variable [LinearOrder K]

/-- The distances to the two boxes depend on the plane of a split only. -/
theorem Split.getDistancesFromSplits_congr {split split' : Split K}
    (h : split.plane = split'.plane) (query : Point K) :
    split.getDistancesFromSplits query = split'.getDistancesFromSplits query := by
  simp only [plane, getSplitThreshold, SplitPlane.mk.injEq] at h
  obtain ⟨hdimension, hthreshold, hleft, hright⟩ := h
  have hleftBox : split.leftBox = split'.leftBox := by
    rw [leftBox, leftBox, hthreshold, hdimension, hleft]
  have hrightBox : split.rightBox = split'.rightBox := by
    rw [rightBox, rightBox, hthreshold, hdimension, hright]
  rw [getDistancesFromSplits, getDistancesFromSplits, hleftBox, hrightBox]

/-- What a search reads of its own state. -/
def Search.view (search : Search K) : List (NodeView K) × NearestNeighbor K :=
  (search.nodesToExplore.map Node.view, search.currentNearestNeighbor)

/-- The children to explore look alike when the two children do. -/
theorem map_view_childrenToExplore {left left' right right' : Node K}
    (hl : left.view = left'.view) (hr : right.view = right'.view) (distances : K × K)
    (currentDistance : WithTop K) :
    (childrenToExplore left right distances currentDistance).map Node.view =
      (childrenToExplore left' right' distances currentDistance).map Node.view := by
  simp only [childrenToExplore, apply_ite (List.map Node.view), List.map_cons, List.map_nil, hl, hr]

/-- One round on a node that is not a leaf, as a sequence of calls that may fail. -/
theorem exploreNode_of_ne_leaf {samples : Samples K} {kdTree : KDTree K} {query : Point K}
    {node : Node K} (hleaf : node.getType ≠ .leaf) (rest : List (Node K))
    (nearest : NearestNeighbor K) :
    exploreNode samples kdTree query node ⟨rest, nearest⟩ =
      (kdTree.lookup (KDTree.leftNodeId node.getId)).bind fun left =>
        (kdTree.lookup (KDTree.rightNodeId node.getId)).bind fun right =>
          (node.getSplit.elim (.error .nullSplit) .ok : Except Fault (Split K)).bind fun split =>
            .ok ⟨childrenToExplore left right (split.getDistancesFromSplits query)
              nearest.squaredDistance ++ rest, nearest⟩ := by
  unfold exploreNode
  split
  next h => exact absurd h hleaf
  next => rfl

/-- One round of the search on nodes that look alike, in arrays that look alike. -/
theorem exploreNode_congr {samples : Samples K} {kdTree kdTree' : KDTree K}
    (h : kdTree.LooksLike kdTree') (query : Point K) {node node' : Node K}
    (hnode : node.view = node'.view) {rest rest' : List (Node K)}
    (hrest : rest.map Node.view = rest'.map Node.view) (nearest : NearestNeighbor K) :
    (exploreNode samples kdTree query node ⟨rest, nearest⟩).map Search.view =
      (exploreNode samples kdTree' query node' ⟨rest', nearest⟩).map Search.view := by
  simp only [Node.view, NodeView.mk.injEq] at hnode
  obtain ⟨htype, hid, hsampleId, hplane⟩ := hnode
  by_cases hleaf : node.getType = .leaf
  · unfold exploreNode
    rw [← htype, ← hsampleId, hleaf]
    cases visitLeaf samples query node.getSampleId nearest with
    | error fault => rfl
    | ok nearest' =>
      simp only [bind, Except.bind, pure, Except.pure, Except.map, Search.view, hrest]
  · have hsplit : (node.getSplit.elim (.error .nullSplit) .ok : Except Fault (Split K)).map
        Split.plane = (node'.getSplit.elim (.error .nullSplit) .ok : Except Fault (Split K)).map
          Split.plane := by
      cases hs : node.getSplit <;> cases hs' : node'.getSplit <;> simp_all [Except.map]
    rw [exploreNode_of_ne_leaf hleaf, exploreNode_of_ne_leaf (htype ▸ hleaf), ← hid]
    simp only [Fallible.map_bind]
    apply Fallible.bind_congr_of_map (h.lookup _)
    intro left left' hleft
    apply Fallible.bind_congr_of_map (h.lookup _)
    intro right right' hright
    apply Fallible.bind_congr_of_map hsplit
    intro split split' hplanes
    simp only [Except.map, Search.view, List.map_append, hrest,
      Split.getDistancesFromSplits_congr hplanes, map_view_childrenToExplore hleft hright]

/-- The search ends alike, and after the same rounds, in arrays that look alike. -/
theorem exploreLoop_congr {samples : Samples K} {kdTree kdTree' : KDTree K}
    (h : kdTree.LooksLike kdTree') (query : Point K) (fuel : ℕ) {search search' : Search K}
    (hsearch : search.view = search'.view) :
    exploreLoop samples kdTree query fuel search =
      exploreLoop samples kdTree' query fuel search' := by
  induction fuel generalizing search search' with
  | zero => rfl
  | succ fuel ih =>
    obtain ⟨stack, nearest⟩ := search
    obtain ⟨stack', nearest'⟩ := search'
    obtain ⟨hstack, hnearest⟩ := Prod.mk.inj hsearch
    obtain rfl : nearest = nearest' := hnearest
    cases stack with
    | nil =>
      obtain rfl : stack' = [] := List.map_eq_nil_iff.mp hstack.symm
      rfl
    | cons node rest =>
      obtain ⟨node', rest', rfl, hnode, hrest⟩ := List.map_eq_cons_iff.mp hstack.symm
      have hround : (exploreNode samples kdTree query node ⟨rest, nearest⟩).map Search.view =
          (exploreNode samples kdTree' query node' ⟨rest', nearest⟩).map Search.view :=
        exploreNode_congr h query hnode.symm hrest.symm nearest
      exact Fallible.bind_congr_of_map hround fun _ _ hview => ih hview

/-- The search reads of the array only what it looks like. -/
theorem findNearestNeighbor_congr {kdTree kdTree' : KDTree K} (h : kdTree.LooksLike kdTree')
    (fuel : ℕ) (samples : Samples K) (query : Point K) :
    findNearestNeighbor fuel samples kdTree query =
      findNearestNeighbor fuel samples kdTree' query := by
  simp only [findNearestNeighbor]
  split_ifs with hdimensions
  · rfl
  · cases samples.row 0 with
    | error fault => rfl
    | ok point =>
      apply Fallible.bind_congr_of_map (h.lookup 0)
      intro root root' hroot
      apply exploreLoop_congr h
      rw [Search.view, Search.view, List.map_singleton, List.map_singleton, hroot]

end Search

/-- Nodes of trees with the same planes look alike, slot by slot. -/
theorem map_view_layout {t t' : SplitTree (Split K) ℕ}
    (h : t.mapSplits Split.plane = t'.mapSplits Split.plane) (root : ℕ) :
    (layout root t).map Node.view = (layout root t').map Node.view := by
  induction t generalizing t' root with
  | leaf sampleId =>
    cases t' with
    | leaf sampleId' =>
      obtain rfl : sampleId = sampleId' := SplitTree.leaf.inj h
      rfl
    | node s' l' r' => cases h
  | node s l r ihl ihr =>
    cases t' with
    | leaf sampleId' => cases h
    | node s' l' r' =>
      obtain ⟨hplane, hl, hr⟩ := SplitTree.node.inj h
      rw [layout_node, layout_node, List.map_cons, List.map_cons, List.map_append, List.map_append,
        ihl hl, ihr hr]
      simp only [Node.view, Node.getType, Node.getId, Node.getSampleId, Node.getSplit,
        Option.map_some, hplane]

/-- Arrays that trees with the same planes were stored in look alike. -/
theorem looksLike_modelTree {t t' : SplitTree (Split K) ℕ}
    (h : t.mapSplits Split.plane = t'.mapSplits Split.plane) (numNodes : ℕ) :
    (modelTree numNodes t).LooksLike (modelTree numNodes t') := by
  have hviews := map_view_layout h 0
  have hids : (layout 0 t).map Node.getId = (layout 0 t').map Node.getId := by
    have := congrArg (List.map NodeView.id) hviews
    rwa [List.map_map, List.map_map] at this
  intro id
  by_cases hid : id ∈ (layout 0 t).map Node.getId
  · obtain ⟨node, hnode, rfl⟩ := List.mem_map.mp hid
    have hview : node.view ∈ (layout 0 t').map Node.view := hviews ▸ List.mem_map_of_mem hnode
    obtain ⟨node', hnode', heq⟩ := List.mem_map.mp hview
    have hsame : node'.getId = node.getId := congrArg NodeView.id heq
    rw [stored_modelTree numNodes t node hnode, ← hsame, stored_modelTree numNodes t' node' hnode',
      Option.map_some, Option.map_some, heq]
  · rw [modelTree, modelTree, KDTree.getNode_foldl_insert_of_notMem _ hid,
      KDTree.getNode_foldl_insert_of_notMem _ (hids ▸ hid)]

section Printing

variable [LinearOrder K] [FloorRing K] [IsStrictOrderedRing K]

/-- Printing splits with the same plane gives splits with the same plane. -/
theorem Split.plane_printed_congr {split split' : Split K} (h : split.plane = split'.plane) :
    split.printed.plane = split'.printed.plane := by
  simp only [plane, getSplitThreshold, SplitPlane.mk.injEq] at h
  obtain ⟨hdimension, hthreshold, hleft, hright⟩ := h
  rw [hdimension] at hthreshold
  simp only [plane, getSplitThreshold, printed, Point.getValueAt_printed, hdimension, hthreshold,
    hleft, hright]

/-- Printing nodes that look alike gives nodes that look alike. -/
theorem view_printed_congr {node node' : Node K} (h : node.view = node'.view) :
    node.printed.view = node'.printed.view := by
  cases node <;> cases node' <;> simp only [Node.view, NodeView.mk.injEq, Node.getType,
    Node.getId, Node.getSampleId, Node.getSplit, reduceCtorEq, false_and] at h
  case empty.empty id id' => rw [h.2.1]
  case leaf.leaf id sampleId id' sampleId' => rw [h.2.1, h.2.2.1]
  case internal.internal id split id' split' =>
    obtain ⟨-, rfl, -, hplane⟩ := h
    have hprinted := Split.plane_printed_congr (Option.some.inj hplane)
    simp only [Node.printed, Node.view, Node.getType, Node.getId, Node.getSampleId, Node.getSplit,
      Option.map_some, hprinted]

/-- Arrays that look alike are read back alike. -/
theorem KDTree.LooksLike.printed {kdTree kdTree' : KDTree K} (h : kdTree.LooksLike kdTree')
    (hnum : kdTree.numNodes = kdTree'.numNodes) : kdTree.printed.LooksLike kdTree'.printed := by
  intro id
  by_cases hid : id < kdTree.numNodes
  · have hview : (kdTree.nodeAt id).view = (kdTree'.nodeAt id).view := by
      have hslot := h id
      unfold KDTree.nodeAt
      cases hnode : kdTree.getNode id <;> cases hnode' : kdTree'.getNode id <;> simp_all
    rw [kdTree.getNode_printed hid, kdTree'.getNode_printed (hnum ▸ hid), Option.map_some,
      Option.map_some, view_printed_congr hview]
  · rw [kdTree.getNode_printed_of_le (not_lt.mp hid),
      kdTree'.getNode_printed_of_le (hnum ▸ not_lt.mp hid)]

end Printing

variable [LinearOrder K]

/-- Sorting splits a segment at its median, whichever way ties are ordered. -/
theorem IsSplit.plane_eq {std std' : StdAlgorithms K} {segment : Segment K} {d : ℕ}
    {sws sws' : SplitWithSegments K} (h : IsSplit std segment .median d sws)
    (h' : IsSplit std' segment .median d sws') (hne : segment.sampleIdsInSegment ≠ [])
    (hd : d < segment.samples.cols) :
    sws.split.plane = sws'.split.plane ∧ sws.lessIds = sws'.lessIds ∧
      sws.greaterIds = sws'.greaterIds := by
  have hmedian {std : StdAlgorithms K} {sws : SplitWithSegments K}
      (h : IsSplit std segment .median d sws) :
      sws.split.splitPoint.getValueAt d = medianValue (segment.keys d) := by
    apply (h.isMedian hne hd).eq_medianValue
    rw [← List.length_pos_iff, segment.keys_length]
    exact List.length_pos_iff.mpr hne
  have hthreshold : sws.split.splitPoint.getValueAt d = sws'.split.splitPoint.getValueAt d := by
    rw [hmedian h, hmedian h']
  have hsegments : sws.splitSegments = sws'.splitSegments := by
    rw [h.segments, h'.segments, SplitSegments.generate, SplitSegments.generate, hthreshold]
  have hless : sws.lessIds = sws'.lessIds := by
    rw [SplitWithSegments.lessIds, SplitWithSegments.lessIds, hsegments]
  have hgreater : sws.greaterIds = sws'.greaterIds := by
    rw [SplitWithSegments.greaterIds, SplitWithSegments.greaterIds, hsegments]
  have hleft : sws.split.leftBounds = sws'.split.leftBounds :=
    Except.ok.inj (h.left.symm.trans (hless ▸ h'.left))
  have hright : sws.split.rightBounds = sws'.split.rightBounds :=
    Except.ok.inj (h.right.symm.trans (hgreater ▸ h'.right))
  refine ⟨?_, hless, hgreater⟩
  rw [Split.plane, Split.plane, Split.getSplitThreshold, Split.getSplitThreshold, h.dimension,
    h'.dimension, hthreshold, hleft, hright]

variable [IsStrictOrderedRing K]

/-- Trees built by sorting have the same planes and the same leaves, whichever way
ties are ordered. -/
theorem BuiltFrom.mapSplits_plane_eq {std std' : StdAlgorithms K} {item : DataToBuildNodes K}
    {t t' : SplitTree (Split K) ℕ} (h : BuiltFrom std item t) (h' : BuiltFrom std' item t')
    (hvalid : item.Valid) (hmethod : item.splittingMethod = .median) :
    t.mapSplits Split.plane = t'.mapSplits Split.plane := by
  induction h generalizing t' with
  | @leaf item sampleId hid =>
    cases h' with
    | leaf hid' =>
      rw [hid] at hid'
      obtain rfl : sampleId = _ := List.singleton_inj.mp hid'
      rfl
    | node hsplit _ _ => exact absurd (congrArg List.length hid) hsplit.length_ne_one
  | @node item d sws l r hsplit hl hr ihl ihr =>
    cases h' with
    | leaf hid => exact absurd (congrArg List.length hid) hsplit.length_ne_one
    | @node _ d' sws' l' r' hsplit' hl' hr' =>
      obtain rfl : d = d' := Except.ok.inj (hsplit.selected.symm.trans hsplit'.selected)
      obtain ⟨hplane, hless, hgreater⟩ := (hmethod ▸ hsplit.isSplit).plane_eq
        (hmethod ▸ hsplit'.isSplit) hvalid.ids_ne_nil (hvalid.dimension_lt hsplit)
      have hl'' : BuiltFrom std' (item.lessChild d sws) l' := by
        rwa [DataToBuildNodes.lessChild, hless]
      have hr'' : BuiltFrom std' (item.greaterChild d sws) r' := by
        rwa [DataToBuildNodes.greaterChild, hgreater]
      rw [mapSplits, mapSplits, hplane, ihl hl'' (hvalid.lessChild hsplit) hmethod,
        ihr hr'' (hvalid.greaterChild hsplit) hmethod]

variable [FloorRing K]

/-- Whether a build by sorting writes a model file does not depend on how ties are
ordered, nor on the builder. The trees that are loaded from two such files look alike,
so that every file of queries is answered with the same lines, or fails in the same way,
after the same number of rounds. -/
theorem queryKDTree_tieOrder {std : StdAlgorithms K} (std' : StdAlgorithms K) (gzip : Gzip)
    (sqrt : K → K) {inputSampleDataset : List Text} {samples : Samples K}
    (hsamples : loadSamples inputSampleDataset = .ok samples) (hcols : 0 < samples.cols)
    {selector : DimensionSelectorType} {parallelExecution : Bool} (parallelExecution' : Bool)
    {modelFile : Text}
    (hbuild : BuildKDTree std gzip inputSampleDataset selector .median parallelExecution
      modelFile) :
    (∃ modelFile', BuildKDTree (K := K) std' gzip inputSampleDataset selector .median
      parallelExecution' modelFile') ∧
    ∀ modelFile', BuildKDTree (K := K) std' gzip inputSampleDataset selector .median
        parallelExecution' modelFile' →
      (∃ kdTree kdTree' : KDTree K, load gzip modelFile = .ok kdTree ∧ load gzip modelFile' =
        .ok kdTree' ∧ kdTree.LooksLike kdTree') ∧
      ∀ fuel queriesFile, queryKDTree sqrt gzip fuel inputSampleDataset modelFile queriesFile =
        queryKDTree sqrt gzip fuel inputSampleDataset modelFile' queriesFile := by
  have hrows := rows_pos_of_loadSamples hsamples
  have hvalid := rootItem_valid hrows hcols selector .median
  obtain ⟨t, ht, -⟩ := hvalid.exists_builtFrom std
  obtain ⟨t', ht', -⟩ := hvalid.exists_builtFrom std'
  have hplanes := ht.mapSplits_plane_eq ht' hvalid rfl
  obtain ⟨numNodes, hnumNodes, hwrite⟩ := (buildKDTree_iff hsamples hcols ht).mp hbuild
  obtain ⟨file, hfile, hload⟩ := ht.exists_modelFile gzip hvalid numNodes
  obtain rfl : modelFile = file := Except.ok.inj (hwrite.symm.trans hfile)
  obtain ⟨file', hfile', hload'⟩ := ht'.exists_modelFile gzip hvalid numNodes
  have hlooks : (modelTree numNodes t).printed.LooksLike (modelTree numNodes t').printed :=
    (looksLike_modelTree hplanes numNodes).printed (by simp)
  refine ⟨⟨file', (buildKDTree_iff hsamples hcols ht').mpr ⟨numNodes, hnumNodes, hfile'⟩⟩,
    fun modelFile' hbuild' => ?_⟩
  obtain ⟨numNodes', hnumNodes', hwrite'⟩ := (buildKDTree_iff hsamples hcols ht').mp hbuild'
  obtain rfl : numNodes = numNodes' := Except.ok.inj (hnumNodes.symm.trans hnumNodes')
  obtain rfl : modelFile' = file' := Except.ok.inj (hwrite'.symm.trans hfile')
  refine ⟨⟨_, _, hload, hload', hlooks⟩, fun fuel queriesFile => ?_⟩
  simp only [queryKDTree, hsamples, hload, hload', bind, Except.bind,
    findNearestNeighbor_congr hlooks]

/-- Sorting by insertion from the other end, which turns ties around. -/
def StdAlgorithms.turning : StdAlgorithms K where
  sort := fun l => l.reverse.insertionSort fun a b => a.value ≤ b.value
  nthElement := fun _ l => l.reverse.insertionSort fun a b => a.value ≤ b.value
  sort_spec := fun l => (isSorting_insertionSort ValueInSegment.value l.reverse).of_perm
    l.reverse_perm
  nthElement_spec := fun n l _ => ((isSorting_insertionSort ValueInSegment.value
    l.reverse).of_perm l.reverse_perm).isSelection n

/-- Three samples, two of them tied in the first dimension. -/
def tiedLines : List Text := ["1,10".toList, "1,20".toList, "2,30".toList]

-- The two sortings do put different samples in the middle.
example :
    getSplitPoint .sorting (.ofSamples (.ofRows [[(1 : ℚ), 10], [1, 20], [2, 30]])) .median 0 =
      .ok ⟨[1, 20]⟩ ∧
    getSplitPoint .turning (.ofSamples (.ofRows [[(1 : ℚ), 10], [1, 20], [2, 30]])) .median 0 =
      .ok ⟨[1, 10]⟩ := by
  decide +kernel

/-- The files for the two sortings answer alike. -/
theorem queryKDTree_tieOrder_tiedLines : ∃ modelFile,
    BuildKDTree (K := ℚ) .sorting .stored tiedLines .cycleThroughAxes .median false modelFile ∧
    (∃ modelFile', BuildKDTree (K := ℚ) .turning .stored tiedLines .cycleThroughAxes .median true
      modelFile') ∧
    ∀ modelFile', BuildKDTree (K := ℚ) .turning .stored tiedLines .cycleThroughAxes .median true
        modelFile' →
      (∃ kdTree kdTree' : KDTree ℚ, load .stored modelFile = .ok kdTree ∧ load .stored modelFile' =
        .ok kdTree' ∧ kdTree.LooksLike kdTree') ∧
      ∀ fuel queriesFile, queryKDTree (K := ℚ) id .stored fuel tiedLines modelFile queriesFile =
        queryKDTree (K := ℚ) id .stored fuel tiedLines modelFile' queriesFile := by
  have hsamples : loadSamples tiedLines =
      .ok (Samples.ofRows [[(1 : ℚ), 10], [1, 20], [2, 30]]) :=
    loadSamples_eq_ok (by decide +kernel) (by decide) (by decide) (by decide) (by decide)
  obtain ⟨-, modelFile, hbuild⟩ := exists_buildKDTree .sorting .stored hsamples (by decide)
    (by decide) .cycleThroughAxes .median false
  exact ⟨modelFile, hbuild,
    queryKDTree_tieOrder .turning .stored id hsamples (by decide) true hbuild⟩

end Kdtree
