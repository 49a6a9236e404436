import Kdtree.Builder
import Kdtree.SplitStep
import Kdtree.General.Fallible
import Kdtree.General.FirstMaximum
import Kdtree.General.SplitTree

/-!
# The tree a builder lays out

The recursion on segments, without the array: an item with one sample is a leaf,
and any other item is a node over the trees of the two sides of its split. The
recursive builder writes exactly the nodes of that tree, in preorder.
-/

namespace Kdtree

open SplitTree FirstMaximum

variable {K : Type}

namespace DataToBuildNodes

/-- The segment of an item. -/
def segment (item : DataToBuildNodes K) : Segment K := ⟨item.samples, item.sampleIdsInSegment⟩

/-- The item built from the less side of a split. -/
def lessChild (item : DataToBuildNodes K) (d : ℕ) (sws : SplitWithSegments K) :
    DataToBuildNodes K :=
  { item with
    sampleIdsInSegment := sws.lessIds
    nodeId := KDTree.leftNodeId item.nodeId
    lastDimensionUsedForSplitting := d }

/-- The item built from the greater side of a split. -/
def greaterChild (item : DataToBuildNodes K) (d : ℕ) (sws : SplitWithSegments K) :
    DataToBuildNodes K :=
  { item with
    sampleIdsInSegment := sws.greaterIds
    nodeId := KDTree.rightNodeId item.nodeId
    lastDimensionUsedForSplitting := d }

/-- An item the builders can be started with: it has a sample and a dimension,
and no sample twice. -/
structure Valid (item : DataToBuildNodes K) : Prop where
  /-- There is a sample to place. -/
  ids_ne_nil : item.sampleIdsInSegment ≠ []
  /-- No sample is placed twice. -/
  ids_nodup : item.sampleIdsInSegment.Nodup
  /-- There is a dimension to split in. -/
  cols_pos : 0 < item.samples.cols

end DataToBuildNodes

/-- The item that building a tree over all samples starts from. -/
def rootItem (samples : Samples K) (dimensionSelectorType : DimensionSelectorType)
    (splittingMethod : SplittingMethod) : DataToBuildNodes K where
  samples := samples
  sampleIdsInSegment := List.range samples.rows
  nodeId := 0
  dimensionSelectorType := dimensionSelectorType
  splittingMethod := splittingMethod
  lastDimensionUsedForSplitting := -1

/-- The item of all samples is valid when there are a sample and a dimension. -/
theorem rootItem_valid {samples : Samples K} (hrows : 0 < samples.rows) (hcols : 0 < samples.cols)
    (dimensionSelectorType : DimensionSelectorType) (splittingMethod : SplittingMethod) :
    (rootItem samples dimensionSelectorType splittingMethod).Valid where
  ids_ne_nil := by simpa [rootItem] using hrows.ne'
  ids_nodup := List.nodup_range
  cols_pos := hcols

/-- The node that an entry of a laid out tree stands for. -/
def Node.ofEntry (e : ℕ × (Split K ⊕ ℕ)) : Node K :=
  match e.2 with
  | .inl split => .internal e.1 split
  | .inr sampleId => .leaf e.1 sampleId

/-- An entry becomes the node of its slot. -/
@[simp] theorem Node.getId_ofEntry (e : ℕ × (Split K ⊕ ℕ)) : (Node.ofEntry e).getId = e.1 := by
  obtain ⟨i, s | a⟩ := e <;> rfl

/-- The nodes of a tree laid out from a slot, in preorder. -/
def layout (root : ℕ) (t : SplitTree (Split K) ℕ) : List (Node K) :=
  (entries root t).map Node.ofEntry

/-- A leaf is laid out in its slot alone. -/
theorem layout_leaf (root sampleId : ℕ) :
    layout root (.leaf sampleId : SplitTree (Split K) ℕ) = [.leaf root sampleId] := rfl

/-- An internal node comes before its left and its right subtree. -/
theorem layout_node (root : ℕ) (s : Split K) (l r : SplitTree (Split K) ℕ) :
    layout root (.node s l r) =
      .internal root s ::
        (layout (KDTree.leftNodeId root) l ++ layout (KDTree.rightNodeId root) r) := by
  simp only [layout, entries, List.map_cons, List.map_append]
  rfl

/-- The ids of the nodes of a tree are the slots it occupies. -/
theorem map_getId_layout (root : ℕ) (t : SplitTree (Split K) ℕ) :
    (layout root t).map Node.getId = (entries root t).map Prod.fst := by
  simp [layout, Function.comp_def]

/-- Writes a list of nodes into a tree under construction. -/
def Build.write (build : Build K) (nodes : List (Node K)) : Build K where
  kdtree := nodes.foldl KDTree.insert build.kdtree
  written := build.written ++ nodes

/-- Writing two lists is writing one after the other. -/
theorem Build.write_append (build : Build K) (nodes nodes' : List (Node K)) :
    build.write (nodes ++ nodes') = (build.write nodes).write nodes' := by
  simp [write]

/-- A leaf node is written as it is, -/
theorem Build.insertLeafNode_eq_write (build : Build K) (nodeId : ℕ) (sampleId : ℤ) :
    build.insertLeafNode nodeId sampleId = build.write [.leaf nodeId sampleId] := rfl

/-- and so is an internal node. -/
theorem Build.insertInternalNode_eq_write (build : Build K) (nodeId : ℕ) (split : Split K) :
    build.insertInternalNode nodeId split = build.write [.internal nodeId split] := rfl

variable [Field K] [LinearOrder K]

/-- `SplitsAt std item d sws`: the builders split the item in dimension `d`, with
result `sws`. -/
structure SplitsAt (std : StdAlgorithms K) (item : DataToBuildNodes K) (d : ℕ)
    (sws : SplitWithSegments K) : Prop where
  /-- The item does not have exactly one sample. -/
  length_ne_one : item.sampleIdsInSegment.length ≠ 1
  /-- The dimension is the selector's. -/
  selected : DimensionSelectorByType.get item.segment item.dimensionSelectorType
    item.lastDimensionUsedForSplitting = .ok d
  /-- The split is the one the chosen method generates. -/
  isSplit : IsSplit std item.segment item.splittingMethod d sws

/-- The sides of a split share out the samples of the item. -/
theorem SplitsAt.sides_length {std : StdAlgorithms K} {item : DataToBuildNodes K} {d : ℕ}
    {sws : SplitWithSegments K} (h : SplitsAt std item d sws) :
    sws.lessIds.length + sws.greaterIds.length = item.sampleIdsInSegment.length := by
  rw [← List.length_append]
  exact h.isSplit.perm.length_eq

/-- `BuiltFrom std item t`: `t` is the tree over the item's segment. -/
inductive BuiltFrom (std : StdAlgorithms K) : DataToBuildNodes K → SplitTree (Split K) ℕ → Prop
  | leaf {item : DataToBuildNodes K} {sampleId : ℕ} (hid : item.sampleIdsInSegment = [sampleId]) :
      BuiltFrom std item (.leaf sampleId)
  | node {item : DataToBuildNodes K} {d : ℕ} {sws : SplitWithSegments K}
      {l r : SplitTree (Split K) ℕ} (hsplit : SplitsAt std item d sws)
      (hl : BuiltFrom std (item.lessChild d sws) l)
      (hr : BuiltFrom std (item.greaterChild d sws) r) :
      BuiltFrom std item (.node sws.split l r)

/-- One call of the recursive builder on an item with one sample. -/
theorem buildUsingRecursion_leaf (std : StdAlgorithms K) (fuel : ℕ) {item : DataToBuildNodes K}
    {sampleId : ℕ} (hid : item.sampleIdsInSegment = [sampleId]) (build : Build K) :
    buildUsingRecursion std (fuel + 1) item build =
      .ok (build.insertLeafNode item.nodeId sampleId) := by
  simp [buildUsingRecursion, hid]

/-- One call of the recursive builder on an item that is split. -/
theorem buildUsingRecursion_node (std : StdAlgorithms K) (fuel : ℕ) {item : DataToBuildNodes K}
    {d : ℕ} {sws : SplitWithSegments K} (hsplit : SplitsAt std item d sws) (build : Build K) :
    buildUsingRecursion std (fuel + 1) item build =
      (buildUsingRecursion std fuel (item.lessChild d sws)
        (build.insertInternalNode item.nodeId sws.split)).bind
          (buildUsingRecursion std fuel (item.greaterChild d sws)) := by
  have hgen := generate_eq_ok_iff.mpr hsplit.isSplit
  have hget := hsplit.selected
  simp only [DataToBuildNodes.segment] at hgen hget
  rw [buildUsingRecursion]
  split
  next sampleId hid => exact absurd (congrArg List.length hid) hsplit.length_ne_one
  next => simp only [hget, hgen, bind, Except.bind]; rfl

/-- One run of the parallel builder on an item with one sample. -/
theorem run_leaf (std : StdAlgorithms K) {item : DataToBuildNodes K} {sampleId : ℕ}
    (hid : item.sampleIdsInSegment = [sampleId]) (build : Build K) :
    ParallelNodeBuilder.run std item build =
      .ok (build.insertLeafNode item.nodeId sampleId, []) := by
  simp [ParallelNodeBuilder.run, hid]

/-- One run of the parallel builder on an item that is split. -/
theorem run_node (std : StdAlgorithms K) {item : DataToBuildNodes K} {d : ℕ}
    {sws : SplitWithSegments K} (hsplit : SplitsAt std item d sws) (build : Build K) :
    ParallelNodeBuilder.run std item build =
      .ok (build.insertInternalNode item.nodeId sws.split,
        [item.lessChild d sws, item.greaterChild d sws]) := by
  have hgen := generate_eq_ok_iff.mpr hsplit.isSplit
  have hget := hsplit.selected
  simp only [DataToBuildNodes.segment] at hgen hget
  rw [ParallelNodeBuilder.run]
  split
  next sampleId hid => exact absurd (congrArg List.length hid) hsplit.length_ne_one
  next => simp only [hget, hgen, bind, Except.bind]; rfl

/-- The recursive builder writes the tree over the segment, in preorder. -/
theorem BuiltFrom.buildUsingRecursion_eq {std : StdAlgorithms K} {item : DataToBuildNodes K}
    {t : SplitTree (Split K) ℕ} (h : BuiltFrom std item t) {fuel : ℕ} (hfuel : t.height < fuel)
    (build : Build K) :
    buildUsingRecursion std fuel item build = .ok (build.write (layout item.nodeId t)) := by
  induction h generalizing fuel build with
  | leaf hid =>
    obtain ⟨fuel, rfl⟩ : ∃ k, fuel = k + 1 := ⟨fuel - 1, by omega⟩
    rw [buildUsingRecursion_leaf std fuel hid, Build.insertLeafNode_eq_write, layout_leaf]
  | @node item d sws l r hsplit _ _ ihl ihr =>
    simp only [height] at hfuel
    obtain ⟨fuel, rfl⟩ : ∃ k, fuel = k + 1 := ⟨fuel - 1, by omega⟩
    have hnodes : layout item.nodeId (.node sws.split l r) = [.internal item.nodeId sws.split] ++
        (layout (item.lessChild d sws).nodeId l ++ layout (item.greaterChild d sws).nodeId r) :=
      layout_node item.nodeId sws.split l r
    rw [buildUsingRecursion_node std fuel hsplit, ihl (by omega), Except.bind, ihr (by omega),
      Build.insertInternalNode_eq_write, hnodes, Build.write_append, Build.write_append]

/-- However many nested calls the recursive builder was allowed, what it returns is
the tree over the segment. -/
theorem BuiltFrom.eq_write_of_buildUsingRecursion {std : StdAlgorithms K}
    {item : DataToBuildNodes K} {t : SplitTree (Split K) ℕ} (h : BuiltFrom std item t) {fuel : ℕ}
    {build out : Build K} (hout : buildUsingRecursion std fuel item build = .ok out) :
    out = build.write (layout item.nodeId t) := by
  induction h generalizing fuel build out with
  | leaf hid =>
    cases fuel with
    | zero => cases hout
    | succ fuel =>
      rw [buildUsingRecursion_leaf std fuel hid, Build.insertLeafNode_eq_write] at hout
      exact (Except.ok.inj hout).symm
  | @node item d sws l r hsplit _ _ ihl ihr =>
    cases fuel with
    | zero => cases hout
    | succ fuel =>
      rw [buildUsingRecursion_node std fuel hsplit, Fallible.bind_eq_ok_iff] at hout
      obtain ⟨mid, hmid, hout⟩ := hout
      have hnodes : layout item.nodeId (.node sws.split l r) = [.internal item.nodeId sws.split] ++
          (layout (item.lessChild d sws).nodeId l ++ layout (item.greaterChild d sws).nodeId r) :=
        layout_node item.nodeId sws.split l r
      rw [ihr hout, ihl hmid, Build.insertInternalNode_eq_write, hnodes, Build.write_append,
        Build.write_append]

/-- An item has at most one tree. -/
theorem BuiltFrom.unique {std : StdAlgorithms K} {item : DataToBuildNodes K}
    {t t' : SplitTree (Split K) ℕ} (h : BuiltFrom std item t) (h' : BuiltFrom std item t') :
    t = t' := by
  induction h generalizing t' with
  | @leaf item sampleId hid =>
    cases h' with
    | leaf hid' =>
      rw [hid] at hid'
      simp only [List.cons.injEq, and_true] at hid'
      rw [hid']
    | node hsplit _ _ => exact absurd (congrArg List.length hid) hsplit.length_ne_one
  | @node item d sws l r hsplit _ _ ihl ihr =>
    cases h' with
    | leaf hid => exact absurd (congrArg List.length hid) hsplit.length_ne_one
    | @node _ d' sws' l' r' hsplit' hl' hr' =>
      obtain rfl : d = d' := Except.ok.inj (hsplit.selected.symm.trans hsplit'.selected)
      have hgen := generate_eq_ok_iff.mpr hsplit.isSplit
      have hgen' := generate_eq_ok_iff.mpr hsplit'.isSplit
      obtain rfl : sws = sws' := Except.ok.inj (hgen.symm.trans hgen')
      rw [ihl hl', ihr hr']

/-- The leaves of the tree hold the samples of the segment. -/
theorem BuiltFrom.leaves_perm {std : StdAlgorithms K} {item : DataToBuildNodes K}
    {t : SplitTree (Split K) ℕ} (h : BuiltFrom std item t) :
    t.leaves.Perm item.sampleIdsInSegment := by
  induction h with
  | leaf hid => rw [hid, leaves]
  | @node item d sws l r hsplit _ _ ihl ihr =>
    exact (ihl.append ihr).trans hsplit.isSplit.perm

/-- The leaves of the tree over all samples are the rows. -/
theorem BuiltFrom.mem_leaves_iff {std : StdAlgorithms K} {samples : Samples K}
    {selector : DimensionSelectorType} {splittingMethod : SplittingMethod}
    {t : SplitTree (Split K) ℕ} (h : BuiltFrom std (rootItem samples selector splittingMethod) t)
    {i : ℕ} : i ∈ t.leaves ↔ i < samples.rows :=
  h.leaves_perm.mem_iff.trans List.mem_range

/-- The last loop of `highestRangeAxis` scans the dimensions for the first largest range. -/
theorem highestRangeAxis_of_values {segment : Segment K} {maxValues minValues : List K}
    (hvalues : extremeValues segment = .ok (maxValues, minValues))
    (hcols : 0 < segment.samples.cols) :
    ∃ d, highestRangeAxis segment = .ok d ∧
      IsFirstMaximum (fun d => maxValues.getD d 0 - minValues.getD d 0) segment.samples.cols d := by
  have hscan : keepHighestRange maxValues minValues =
      keepLarger fun d => maxValues.getD d 0 - minValues.getD d 0 := rfl
  obtain ⟨d, hfold, hmax⟩ :=
    foldl_keepLarger (fun d => maxValues.getD d 0 - minValues.getD d 0) hcols
  refine ⟨d, ?_, hmax⟩
  simp only [highestRangeAxis, hvalues, Segment.getNumDimensions, if_neg hcols.ne', hscan, hfold,
    bind, Except.bind, pure, Except.pure]

/-- The dimension selector returns one of the dimensions of the matrix. -/
theorem exists_dimension (segment : Segment K) (selector : DimensionSelectorType) (last : ℤ)
    (hne : segment.sampleIdsInSegment ≠ []) (hcols : 0 < segment.samples.cols) :
    ∃ d, DimensionSelectorByType.get segment selector last = .ok d ∧ d < segment.samples.cols := by
  cases selector with
  | cycleThroughAxes =>
    have hdims : segment.getNumDimensions ≠ 0 := hcols.ne'
    refine ⟨_, if_neg hdims, ?_⟩
    have hlt : (last + 1).tmod segment.getNumDimensions < segment.samples.cols :=
      Int.tmod_lt_of_pos _ (by exact_mod_cast hcols)
    omega
  | highestRangeAxis =>
    have hvalues : ∃ values, extremeValues segment = .ok values := by
      unfold extremeValues
      cases h : segment.sampleIdsInSegment with
      | nil => exact absurd h hne
      | cons first rest => exact ⟨_, rfl⟩
    obtain ⟨⟨maxValues, minValues⟩, hvalues⟩ := hvalues
    obtain ⟨d, hd, hmax⟩ := highestRangeAxis_of_values hvalues hcols
    exact ⟨d, hd, hmax.lt⟩

namespace DataToBuildNodes.Valid

omit [Field K] [LinearOrder K] in
/-- A valid item that is split has two samples or more. -/
theorem two_le_length {item : DataToBuildNodes K} (hvalid : item.Valid)
    (hlen : item.sampleIdsInSegment.length ≠ 1) : 2 ≤ item.sampleIdsInSegment.length := by
  have := List.length_pos_iff.mpr hvalid.ids_ne_nil
  omega

variable {std : StdAlgorithms K} {item : DataToBuildNodes K} {d : ℕ} {sws : SplitWithSegments K}

/-- A valid item is split in one of its dimensions. -/
theorem dimension_lt (hvalid : item.Valid) (hsplit : SplitsAt std item d sws) :
    d < item.samples.cols := by
  obtain ⟨d', hget, hd'⟩ := exists_dimension item.segment
    item.dimensionSelectorType item.lastDimensionUsedForSplitting hvalid.ids_ne_nil hvalid.cols_pos
  obtain rfl : d = d' := Except.ok.inj (hsplit.selected.symm.trans hget)
  exact hd'

variable [IsStrictOrderedRing K]

/-- A valid item without exactly one sample can be split. -/
theorem exists_splitsAt (std : StdAlgorithms K) (hvalid : item.Valid)
    (hlen : item.sampleIdsInSegment.length ≠ 1) : ∃ d sws, SplitsAt std item d sws := by
  obtain ⟨d, hget, hd⟩ := exists_dimension item.segment
    item.dimensionSelectorType item.lastDimensionUsedForSplitting hvalid.ids_ne_nil hvalid.cols_pos
  obtain ⟨sws, hsplit, -⟩ := exists_isSplit std item.segment item.splittingMethod
    (hvalid.two_le_length hlen) hd
  exact ⟨d, sws, hlen, hget, hsplit⟩

/-- The child on the less side of a valid item is valid. -/
theorem lessChild (hvalid : item.Valid) (hsplit : SplitsAt std item d sws) :
    (item.lessChild d sws).Valid := by
  have hnodup := hsplit.isSplit.perm.nodup_iff.mpr hvalid.ids_nodup
  have hsides := hsplit.isSplit.sides_ne_nil (hvalid.two_le_length hsplit.length_ne_one)
    (hvalid.dimension_lt hsplit)
  exact ⟨hsides.1, (List.nodup_append.mp hnodup).1, hvalid.cols_pos⟩

/-- The child on the greater side of a valid item is valid. -/
theorem greaterChild (hvalid : item.Valid) (hsplit : SplitsAt std item d sws) :
    (item.greaterChild d sws).Valid := by
  have hnodup := hsplit.isSplit.perm.nodup_iff.mpr hvalid.ids_nodup
  have hsides := hsplit.isSplit.sides_ne_nil (hvalid.two_le_length hsplit.length_ne_one)
    (hvalid.dimension_lt hsplit)
  exact ⟨hsides.2, (List.nodup_append.mp hnodup).2.1, hvalid.cols_pos⟩

/-- Both children of a valid item have fewer samples. -/
theorem children_length_lt (hvalid : item.Valid) (hsplit : SplitsAt std item d sws) :
    sws.lessIds.length < item.sampleIdsInSegment.length ∧
      sws.greaterIds.length < item.sampleIdsInSegment.length := by
  have hlengths := hsplit.sides_length
  have hless := List.length_pos_iff.mpr (hvalid.lessChild hsplit).ids_ne_nil
  have hgreater := List.length_pos_iff.mpr (hvalid.greaterChild hsplit).ids_ne_nil
  simp only [DataToBuildNodes.lessChild, DataToBuildNodes.greaterChild] at hless hgreater
  omega

/-- Every valid item has a tree, whose height is below its number of samples. -/
theorem exists_builtFrom (std : StdAlgorithms K) (hvalid : item.Valid) :
    ∃ t, BuiltFrom std item t ∧ t.height < item.sampleIdsInSegment.length := by
  induction hn : item.sampleIdsInSegment.length using Nat.strong_induction_on
    generalizing item with
  | _ n ih =>
    subst hn
    by_cases hlen : item.sampleIdsInSegment.length = 1
    · obtain ⟨sampleId, hid⟩ := List.length_eq_one_iff.mp hlen
      exact ⟨.leaf sampleId, .leaf hid, by rw [height, hlen]; exact Nat.one_pos⟩
    · obtain ⟨d, sws, hsplit⟩ := hvalid.exists_splitsAt std hlen
      obtain ⟨hless, hgreater⟩ := hvalid.children_length_lt hsplit
      obtain ⟨l, hl, hlh⟩ := ih _ hless (hvalid.lessChild hsplit) rfl
      obtain ⟨r, hr, hrh⟩ := ih _ hgreater (hvalid.greaterChild hsplit) rfl
      refine ⟨.node sws.split l r, .node hsplit hl hr, ?_⟩
      simp only [height]
      omega

end DataToBuildNodes.Valid

end Kdtree
