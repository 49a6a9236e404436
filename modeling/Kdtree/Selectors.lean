import Kdtree.Segment
import Kdtree.General.OrderStatistics

/-!
# Choosing the dimension and the point of a split

The two selectors of `SplitDimensionSelector.h` and `SplitPointSelector.h`.
`std::sort` and `std::nth_element` are known by their postconditions only: where
they leave tied or unselected elements is not specified, so both are fields of
`StdAlgorithms`, which carries the postconditions as proofs.
-/

namespace Kdtree

open OrderStatistics

/-- How the dimension of the next split is chosen. -/
inductive DimensionSelectorType
  | cycleThroughAxes
  | highestRangeAxis
  deriving DecidableEq, Repr

/-- How the point of the next split is chosen. -/
inductive SplittingMethod
  | median
  | medianOfMedian
  deriving DecidableEq, Repr

/-- The two library algorithms the median is found with, each as any function
that meets the postcondition the standard gives it. No two calls made while
building a tree have the same arguments, so nothing is lost by taking functions. -/
structure StdAlgorithms (K : Type) [LinearOrder K] where
  /-- `std::sort` on a whole vector. -/
  sort : List (ValueInSegment K) → List (ValueInSegment K)
  /-- `std::nth_element` on a whole vector, with the position of its second argument. -/
  nthElement : ℕ → List (ValueInSegment K) → List (ValueInSegment K)
  /-- The result of sorting is in order. -/
  sort_spec : ∀ l, IsSorting ValueInSegment.value l (sort l)
  /-- The result of a selection is partitioned around its position. -/
  nthElement_spec : ∀ n l, n < l.length → IsSelection ValueInSegment.value n l (nthElement n l)

variable {K : Type} [Field K] [LinearOrder K]

/-- The dimension after the last one used, cyclically. C++ truncates the
remainder; the last dimension is at least `-1`, so it is never negative. -/
def cycleThroughAxis (segment : Segment K) (lastDimensionUsedForSplitting : ℤ) :
    Except Fault ℕ :=
  let numDimensions := segment.getNumDimensions
  if numDimensions = 0 then .error .divisionByZero
  else .ok ((lastDimensionUsedForSplitting + 1).tmod numDimensions).toNat

/-- One round of the last loop of `highestRangeAxis`, on `maxIndex` and `maxValue`. -/
def keepHighestRange (maxValues minValues : List K) (best : ℕ × K) (d : ℕ) : ℕ × K :=
  let currentDiff := maxValues.getD d 0 - minValues.getD d 0
  if best.2 < currentDiff then (d, currentDiff) else best

/-- The first dimension in which the values of the segment spread furthest. The scan
starts from the values in dimension zero, whether or not there is one. -/
def highestRangeAxis (segment : Segment K) : Except Fault ℕ := do
  let (maxValues, minValues) ← extremeValues segment
  if segment.getNumDimensions = 0 then .error .outOfRange
  else
    let maxValue := maxValues.getD 0 0 - minValues.getD 0 0
    return ((List.range segment.getNumDimensions).foldl (keepHighestRange maxValues minValues)
      (0, maxValue)).1

/-- `DimensionSelectorByType::get`. -/
def DimensionSelectorByType.get (segment : Segment K)
    (dimensionSelectorType : DimensionSelectorType) (lastDimensionUsedForSplitting : ℤ) :
    Except Fault ℕ :=
  match dimensionSelectorType with
  | .cycleThroughAxes => cycleThroughAxis segment lastDimensionUsedForSplitting
  | .highestRangeAxis => highestRangeAxis segment

/-- A read of a vector of values at an index. -/
def valueAt (values : List (ValueInSegment K)) (index : ℕ) : Except Fault (ValueInSegment K) :=
  match values[index]? with
  | some value => .ok value
  | none => .error .outOfRange

/-- The values of a segment in one dimension, in the order of its sample ids. -/
def getValuesInSegment (segment : Segment K) (dimensionToSplitBy : ℕ) :
    Except Fault (List (ValueInSegment K)) :=
  segment.sampleIdsInSegment.mapM fun sampleId =>
    ValueInSegment.create segment sampleId dimensionToSplitBy

/-- The split point found by sorting. -/
def median (std : StdAlgorithms K) (segment : Segment K) (dimensionToSplitBy : ℕ) :
    Except Fault (Point K) := do
  let valuesInSegment ← getValuesInSegment segment dimensionToSplitBy
  let size := valuesInSegment.length
  let valuesInSegment := std.sort valuesInSegment
  if size % 2 = 0 then
    let point1 := segment.getPoint (← valueAt valuesInSegment (size / 2 - 1)).sampleId
    let point2 := segment.getPoint (← valueAt valuesInSegment (size / 2)).sampleId
    return Point.average point1 point2
  else
    return segment.getPoint (← valueAt valuesInSegment (size / 2)).sampleId

/-- The split point found by selection. For an even size the second selection
runs over the whole vector again, after which both positions are read. -/
def medianOfMedianScorer (std : StdAlgorithms K) (segment : Segment K)
    (dimensionToSplitBy : ℕ) : Except Fault (Point K) := do
  let valuesInSegment ← getValuesInSegment segment dimensionToSplitBy
  let size := valuesInSegment.length
  let middleItemIndex := size / 2
  let valuesInSegment := std.nthElement middleItemIndex valuesInSegment
  if size % 2 = 0 then
    let neighborIndex := middleItemIndex - 1
    let valuesInSegment := std.nthElement neighborIndex valuesInSegment
    let point1 := segment.getPoint (← valueAt valuesInSegment neighborIndex).sampleId
    let point2 := segment.getPoint (← valueAt valuesInSegment middleItemIndex).sampleId
    return Point.average point1 point2
  else
    return segment.getPoint (← valueAt valuesInSegment middleItemIndex).sampleId

/-- `SplitPointSelector::getSplitPoint`. -/
def getSplitPoint (std : StdAlgorithms K) (segment : Segment K)
    (splittingMethod : SplittingMethod) (dimensionToSplitBy : ℕ) : Except Fault (Point K) :=
  match splittingMethod with
  | .median => median std segment dimensionToSplitBy
  | .medianOfMedian => medianOfMedianScorer std segment dimensionToSplitBy

/-- `SplitPointSelector::generate`: the split point, the two segments and their boxes. -/
def SplitPointSelector.generate (std : StdAlgorithms K) (segment : Segment K)
    (splittingMethod : SplittingMethod) (dimensionToSplitBy : ℕ) :
    Except Fault (SplitWithSegments K) := do
  let splitPoint ← getSplitPoint std segment splittingMethod dimensionToSplitBy
  let splitSegments := SplitSegments.generate segment splitPoint dimensionToSplitBy
  let leftBounds ← Bounds.generate splitSegments.segmentLessThanThreshold
  let rightBounds ← Bounds.generate splitSegments.segmentGreaterThanThreshold
  return ⟨⟨dimensionToSplitBy, splitPoint, leftBounds, rightBounds⟩, splitSegments⟩

end Kdtree
