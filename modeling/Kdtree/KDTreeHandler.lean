import Kdtree.Builder
import Kdtree.BuildTree
import Kdtree.KDTreeIO

/-!
# The two programs

`KDTreeHandler.h`: one program builds a tree over a file of samples and writes it
to a model file, the other loads the model file and reports the nearest sample
of every query. The schedule of the parallel builder is not fixed, so building is
a relation. Files of numbers are lists of lines.
-/

namespace Kdtree

variable {K : Type} [Field K] [LinearOrder K]

/-- What the builder that was asked for may leave behind. -/
inductive Builds (std : StdAlgorithms K) (item : DataToBuildNodes K) (kdTree : KDTree K) :
    Bool → Build K → Prop
  /-- `buildUsingRecursion`, which needs enough nested calls. -/
  | recursion {fuel : ℕ} {build : Build K}
      (hbuild : buildUsingRecursion std fuel item (.start kdTree) = .ok build) :
      Builds std item kdTree false build
  /-- `buildInParallel`, which returns when nothing is pending. -/
  | parallel {build : Build K}
      (hrun : Relation.ReflTransGen (ParallelStep std) (buildInParallel item (.start kdTree))
        ⟨0, build⟩) : Builds std item kdTree true build

/-- The item that `buildKDTree` starts its builder with, and the tree it is to fill. -/
def prepareBuild (inputSampleDataset : List Text) (dimensionSelectorType : DimensionSelectorType)
    (splittingMethod : SplittingMethod) : Except Fault (DataToBuildNodes K × KDTree K) := do
  let samples ← loadSamples inputSampleDataset
  let numNodes ← KDTree.getNumNodes samples.rows
  return (rootItem samples dimensionSelectorType splittingMethod, .create numNodes)

variable [FloorRing K]

/-- `KDTreeHandler::buildKDTree`: it may return having written this model file. The
insertions do not check the slot they store to. What they store past the last slot is
no part of the array, and does not come into the file. -/
inductive BuildKDTree (std : StdAlgorithms K) (gzip : Gzip) (inputSampleDataset : List Text)
    (dimensionSelectorType : DimensionSelectorType) (splittingMethod : SplittingMethod)
    (parallelExecution : Bool) : Text → Prop
  | returns {item : DataToBuildNodes K} {kdTree : KDTree K} {build : Build K} {modelFile : Text}
      (hprepare : prepareBuild inputSampleDataset dimensionSelectorType splittingMethod =
        .ok (item, kdTree))
      (hbuilds : Builds std item kdTree parallelExecution build)
      (hwrite : write gzip build.kdtree = .ok modelFile) :
      BuildKDTree std gzip inputSampleDataset dimensionSelectorType splittingMethod
        parallelExecution modelFile

/-- The line that is reported for a query; `sqrt` is the function of the standard library. -/
def NearestNeighbor.toLine (sqrt : K → K) (nearestNeighbor : NearestNeighbor K) : Text :=
  toStringInt nearestNeighbor.sampleId ++ (",".toList ++
    match nearestNeighbor.squaredDistance with
    | ⊤ => "inf".toList
    | (squaredDistance : K) => toStringDouble (sqrt squaredDistance))

/-- `KDTreeHandler::queryKDTree`: the lines of the output file. Each search may take
at most `fuel` rounds. -/
def queryKDTree (sqrt : K → K) (gzip : Gzip) (fuel : ℕ) (inputSampleDataset : List Text)
    (modelFile : Text) (queriesFile : List Text) : Except Fault (List Text) := do
  let samples ← loadSamples inputSampleDataset
  let loadedKDTree ← load gzip modelFile
  let queries ← loadSamples queriesFile
  let queriesSegment := Segment.ofSamples queries
  queriesSegment.sampleIdsInSegment.mapM fun queryId => do
    let nearestNeighbor ←
      findNearestNeighbor fuel samples loadedKDTree (queriesSegment.getPoint queryId)
    return nearestNeighbor.toLine sqrt

end Kdtree
