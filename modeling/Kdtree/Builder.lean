import Kdtree.Selectors
import Kdtree.Tree
import Mathlib.Data.Multiset.AddSub

/-!
# The recursive and the parallel builder

Both builders of `KDTreeBuilder.h` write into one shared array. Neither reads it. A record
of the nodes written is kept next to the array, which the source does not have: no branch
of the builders depends on it, and statements about what is written, in which order and to
which slots, are about the record. The recursion of the source has no bound of its own;
`fuel` bounds the number of nested calls.
-/

namespace Kdtree

/-- `DataToBuildNodes` without the pointer to the tree, which is passed along. -/
structure DataToBuildNodes (K : Type) where
  /-- The matrix of all samples. -/
  samples : Samples K
  /-- The samples to be placed at the node and below it. -/
  sampleIdsInSegment : List ℕ
  /-- The slot of the node. -/
  nodeId : ℕ
  /-- How the dimension is chosen. -/
  dimensionSelectorType : DimensionSelectorType
  /-- How the split point is chosen. -/
  splittingMethod : SplittingMethod
  /-- The dimension the parent was split in, `-1` at the root. -/
  lastDimensionUsedForSplitting : ℤ

/-- The tree under construction, and every node written to it so far. -/
structure Build (K : Type) where
  /-- The array the builders share. -/
  kdtree : KDTree K
  /-- The nodes inserted by the builder, in order. -/
  written : List (Node K)

namespace Build

variable {K : Type}

/-- A tree to which nothing has been written yet. -/
def start (kdtree : KDTree K) : Build K := ⟨kdtree, []⟩

/-- `kdtree->insertLeafNode`. -/
def insertLeafNode (build : Build K) (nodeId : ℕ) (sampleId : ℤ) : Build K where
  kdtree := build.kdtree.insertLeafNode nodeId sampleId
  written := build.written ++ [.leaf nodeId sampleId]

/-- `kdtree->insertInternalNode`. -/
def insertInternalNode (build : Build K) (nodeId : ℕ) (split : Split K) : Build K where
  kdtree := build.kdtree.insertInternalNode nodeId split
  written := build.written ++ [.internal nodeId split]

end Build

variable {K : Type} [Field K] [LinearOrder K]

/-- `KDTreeBuilder::buildUsingRecursion`. -/
def buildUsingRecursion (std : StdAlgorithms K) :
    ℕ → DataToBuildNodes K → Build K → Except Fault (Build K)
  | 0, _, _ => .error .outOfFuel
  | fuel + 1, dataForIteration, build =>
    let samples := dataForIteration.samples
    let nodeId := dataForIteration.nodeId
    let segment : Segment K := ⟨samples, dataForIteration.sampleIdsInSegment⟩
    match segment.sampleIdsInSegment with
    -- `numRowsInSegment == 1`
    | [sampleId] => .ok (build.insertLeafNode nodeId sampleId)
    | _ => do
      let dimensionToSplitBy ← DimensionSelectorByType.get segment
        dataForIteration.dimensionSelectorType dataForIteration.lastDimensionUsedForSplitting
      let splitWithSegments ← SplitPointSelector.generate std segment
        dataForIteration.splittingMethod dimensionToSplitBy
      let split := splitWithSegments.split
      let splitSegments := splitWithSegments.splitSegments
      let build := build.insertInternalNode nodeId split
      let build ← buildUsingRecursion std fuel
        { samples := samples
          sampleIdsInSegment := splitSegments.segmentLessThanThreshold.sampleIdsInSegment
          nodeId := KDTree.leftNodeId nodeId
          dimensionSelectorType := dataForIteration.dimensionSelectorType
          splittingMethod := dataForIteration.splittingMethod
          lastDimensionUsedForSplitting := dimensionToSplitBy } build
      buildUsingRecursion std fuel
        { samples := samples
          sampleIdsInSegment := splitSegments.segmentGreaterThanThreshold.sampleIdsInSegment
          nodeId := KDTree.rightNodeId nodeId
          dimensionSelectorType := dataForIteration.dimensionSelectorType
          splittingMethod := dataForIteration.splittingMethod
          lastDimensionUsedForSplitting := dimensionToSplitBy } build

/-- `ParallelNodeBuilder::operator()`: the tree after it ran on an item, and the
items it hands to the feeder. -/
def ParallelNodeBuilder.run (std : StdAlgorithms K) (dataToBuildNodes : DataToBuildNodes K)
    (build : Build K) : Except Fault (Build K × List (DataToBuildNodes K)) :=
  let samples := dataToBuildNodes.samples
  let nodeId := dataToBuildNodes.nodeId
  let segment : Segment K := ⟨samples, dataToBuildNodes.sampleIdsInSegment⟩
  match segment.sampleIdsInSegment with
  -- `numRowsInSegment == 1`
  | [sampleId] => .ok (build.insertLeafNode nodeId sampleId, [])
  | _ => do
    let dimensionToSplitBy ← DimensionSelectorByType.get segment
      dataToBuildNodes.dimensionSelectorType dataToBuildNodes.lastDimensionUsedForSplitting
    let splitWithSegments ← SplitPointSelector.generate std segment
      dataToBuildNodes.splittingMethod dimensionToSplitBy
    let split := splitWithSegments.split
    let splitSegments := splitWithSegments.splitSegments
    return (build.insertInternalNode nodeId split,
      [{ samples := samples
         sampleIdsInSegment := splitSegments.segmentLessThanThreshold.sampleIdsInSegment
         nodeId := KDTree.leftNodeId nodeId
         dimensionSelectorType := dataToBuildNodes.dimensionSelectorType
         splittingMethod := dataToBuildNodes.splittingMethod
         lastDimensionUsedForSplitting := dimensionToSplitBy },
       { samples := samples
         sampleIdsInSegment := splitSegments.segmentGreaterThanThreshold.sampleIdsInSegment
         nodeId := KDTree.rightNodeId nodeId
         dimensionSelectorType := dataToBuildNodes.dimensionSelectorType
         splittingMethod := dataToBuildNodes.splittingMethod
         lastDimensionUsedForSplitting := dimensionToSplitBy }])

/-- The state of `parallel_do`: the items not yet run, and the shared tree. -/
structure ParallelState (K : Type) where
  /-- The items of the work list that have not been run. -/
  pending : Multiset (DataToBuildNodes K)
  /-- The tree all items write to. -/
  build : Build K

/-- One step of `parallel_do`: any pending item is run, and the items it feeds
become pending. -/
inductive ParallelStep (std : StdAlgorithms K) : ParallelState K → ParallelState K → Prop
  | run {item : DataToBuildNodes K} {pending : Multiset (DataToBuildNodes K)}
      {build build' : Build K} {fed : List (DataToBuildNodes K)}
      (hrun : ParallelNodeBuilder.run std item build = .ok (build', fed)) :
      ParallelStep std ⟨item ::ₘ pending, build⟩ ⟨fed + pending, build'⟩

/-- `KDTreeBuilder::buildInParallel` before its first step. -/
def buildInParallel (dataForIteration : DataToBuildNodes K) (build : Build K) :
    ParallelState K := ⟨{dataForIteration}, build⟩

end Kdtree
