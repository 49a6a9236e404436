import Mathlib.Algebra.Order.Field.Basic

/-!
# Points, segments, bounds and splits

The data of `Segment.h`. A sample matrix is shared by every segment, a segment
is a list of sample ids, and a split stores the plane that separates two
segments together with the bounding box of each. Coordinates lie in an
arbitrary linearly ordered field, so that the arithmetic is exact.
-/

namespace Kdtree

/-- The ways in which a call can fail to return: the exceptions the source
throws, and the operations that the language leaves undefined. -/
inductive Fault
  /-- `throw sample_id_not_in_segment()`. -/
  | sampleIdNotInSegment
  /-- `throw query_and_kd_tree_dimensions_dont_match()`. -/
  | queryAndKdTreeDimensionsDontMatch
  /-- `throw no_samples_in_input_file()`. -/
  | noSamplesInInputFile
  /-- `std::invalid_argument`, thrown by `stoi`, `stol` and `stod`. -/
  | invalidArgument
  /-- A vector or matrix is read past its end. -/
  | outOfRange
  /-- A remainder by zero is taken. -/
  | divisionByZero
  /-- The empty `unique_ptr` of a node without a split is dereferenced. -/
  | nullSplit
  /-- A value does not fit the 32-bit `int` it is stored in. -/
  | intOverflow
  /-- The bound that a definition puts on a loop of the source was too small. -/
  | outOfFuel
  deriving DecidableEq, Repr

/-- The matrix of samples, one row a sample. Entries outside the matrix are
arbitrary, so nothing can be proved about a read that misses it. -/
structure Samples (K : Type) where
  /-- The number of samples. -/
  rows : ℕ
  /-- The number of dimensions. -/
  cols : ℕ
  /-- The entry in a row and a column. -/
  coeff : ℕ → ℕ → K

/-- A point, given by the vector of its coefficients. -/
structure Point (K : Type) where
  /-- One coefficient for each dimension. -/
  coefficients : List K
  deriving DecidableEq, Repr

/-- A list of sample ids over a shared sample matrix. -/
structure Segment (K : Type) where
  /-- The matrix the ids refer to. -/
  samples : Samples K
  /-- The rows that belong to the segment, in order. -/
  sampleIdsInSegment : List ℕ

/-- A bounding box, given by its largest and its smallest corner. -/
structure Bounds (K : Type) where
  /-- The largest coefficient in each dimension. -/
  maxPoint : Point K
  /-- The smallest coefficient in each dimension. -/
  minPoint : Point K
  deriving DecidableEq, Repr

/-- The data of an internal node: the splitting plane and the boxes on its two sides. -/
structure Split (K : Type) where
  /-- The dimension the plane is orthogonal to. -/
  splitDimension : ℕ
  /-- A point on the plane. -/
  splitPoint : Point K
  /-- The box of the samples on the less side. -/
  leftBounds : Bounds K
  /-- The box of the samples on the greater side. -/
  rightBounds : Bounds K
  deriving DecidableEq, Repr

/-- A segment dealt out to the two sides of a plane. -/
structure SplitSegments (K : Type) where
  /-- The samples below the threshold and some of those on it. -/
  segmentLessThanThreshold : Segment K
  /-- The samples above the threshold and the rest of those on it. -/
  segmentGreaterThanThreshold : Segment K

/-- A split together with the two segments it was made from. -/
structure SplitWithSegments (K : Type) where
  /-- The data stored in the internal node. -/
  split : Split K
  /-- The segments the two children are built from. -/
  splitSegments : SplitSegments K

variable {K : Type} [Field K] [LinearOrder K]

/-- The coefficient in one dimension. -/
def Point.getValueAt (p : Point K) (dimensionId : ℕ) : K := p.coefficients.getD dimensionId 0

/-- The midpoint of two points. -/
def Point.average (point1 point2 : Point K) : Point K :=
  ⟨(List.range point1.coefficients.length).map fun dimension =>
    (point1.getValueAt dimension + point2.getValueAt dimension) / 2⟩

/-- The squared Euclidean distance, accumulated over the dimensions of the first point. -/
def Point.squaredDistance (point1 point2 : Point K) : K :=
  let distance := (List.range point1.coefficients.length).foldl (fun distance dimension =>
    let diff := point1.getValueAt dimension - point2.getValueAt dimension
    distance + diff * diff) 0
  if distance ≤ 0 then 0 else distance

/-- The segment of all samples. -/
def Segment.ofSamples (samples : Samples K) : Segment K := ⟨samples, List.range samples.rows⟩

/-- The number of columns of the sample matrix. -/
def Segment.getNumDimensions (segment : Segment K) : ℕ := segment.samples.cols

/-- The row of a sample as a point. -/
def Segment.getPoint (segment : Segment K) (sampleId : ℕ) : Point K :=
  ⟨(List.range segment.getNumDimensions).map fun dimension =>
    segment.samples.coeff sampleId dimension⟩

/-- One sample's value in the dimension that is being split. -/
structure ValueInSegment (K : Type) where
  /-- The coefficient, by which values are compared. -/
  value : K
  /-- The row it was read from. -/
  sampleId : ℕ
  /-- The column it was read from. -/
  dimensionId : ℕ
  deriving DecidableEq, Repr

/-- The constructor of `ValueInSegment`, which refuses ids outside the segment. -/
def ValueInSegment.create (segment : Segment K) (sampleId dimensionId : ℕ) :
    Except Fault (ValueInSegment K) :=
  if sampleId ∈ segment.sampleIdsInSegment then
    .ok ⟨segment.samples.coeff sampleId dimensionId, sampleId, dimensionId⟩
  else .error .sampleIdNotInSegment

/-- The local variables of the loop in `SplitSegments::generate`. -/
structure SplitSegments.Dealt where
  /-- The ids dealt to the less side so far. -/
  sampleIdsLessThanThreshold : List ℕ
  /-- The ids dealt to the greater side so far. -/
  sampleIdsGreaterThanThreshold : List ℕ
  /-- Whether the next sample on the threshold goes to the less side. -/
  putInLessThanIfEqual : Bool
  deriving DecidableEq, Repr

/-- One round of the loop in `SplitSegments::generate`: samples on the threshold
go to the two sides in turn. -/
def SplitSegments.deal (samples : Samples K) (splitThreshold : K) (dimensionToSplitBy : ℕ)
    (dealt : SplitSegments.Dealt) (sampleId : ℕ) : SplitSegments.Dealt :=
  let sampleValue := samples.coeff sampleId dimensionToSplitBy
  if sampleValue < splitThreshold then
    { dealt with
      sampleIdsLessThanThreshold := dealt.sampleIdsLessThanThreshold ++ [sampleId] }
  else if splitThreshold < sampleValue then
    { dealt with
      sampleIdsGreaterThanThreshold := dealt.sampleIdsGreaterThanThreshold ++ [sampleId] }
  else if dealt.putInLessThanIfEqual then
    { dealt with
      sampleIdsLessThanThreshold := dealt.sampleIdsLessThanThreshold ++ [sampleId]
      putInLessThanIfEqual := false }
  else
    { dealt with
      sampleIdsGreaterThanThreshold := dealt.sampleIdsGreaterThanThreshold ++ [sampleId]
      putInLessThanIfEqual := true }

/-- Deals the samples of a segment to the two sides of a plane. -/
def SplitSegments.generate (segment : Segment K) (splitPoint : Point K)
    (dimensionToSplitBy : ℕ) : SplitSegments K :=
  let splitThreshold := splitPoint.getValueAt dimensionToSplitBy
  let dealt := segment.sampleIdsInSegment.foldl
    (SplitSegments.deal segment.samples splitThreshold dimensionToSplitBy) ⟨[], [], true⟩
  ⟨⟨segment.samples, dealt.sampleIdsLessThanThreshold⟩,
    ⟨segment.samples, dealt.sampleIdsGreaterThanThreshold⟩⟩

/-- One round of the outer loop that collects `maxValues` and `minValues`: the
inner loop stretches both vectors to one more sample. -/
def stretchValues (samples : Samples K) (values : List K × List K) (sampleId : ℕ) :
    List K × List K :=
  let (maxValues, minValues) := values
  ((List.range samples.cols).map fun d =>
      if maxValues.getD d 0 < samples.coeff sampleId d then samples.coeff sampleId d
      else maxValues.getD d 0,
    (List.range samples.cols).map fun d =>
      if samples.coeff sampleId d < minValues.getD d 0 then samples.coeff sampleId d
      else minValues.getD d 0)

/-- The loops that `Bounds::generate` and `highestRangeAxis` share word for word:
both vectors start at the first sample, which an empty segment does not have. -/
def extremeValues (segment : Segment K) : Except Fault (List K × List K) :=
  match segment.sampleIdsInSegment with
  | [] => .error .outOfRange
  | first :: rest =>
    let start := (List.range segment.getNumDimensions).map (segment.samples.coeff first)
    .ok (rest.foldl (stretchValues segment.samples) (start, start))

/-- The bounding box of a segment. -/
def Bounds.generate (segment : Segment K) : Except Fault (Bounds K) := do
  let (maxValues, minValues) ← extremeValues segment
  return ⟨⟨maxValues⟩, ⟨minValues⟩⟩

/-- The squared distance from a box to a point, accumulated over the dimensions. -/
def Bounds.distanceFromPoint (bounds : Bounds K) (point : Point K) : K :=
  (List.range point.coefficients.length).foldl (fun distance index =>
    let coefficient := point.getValueAt index
    let maxCoefficient := bounds.maxPoint.getValueAt index
    let minCoefficient := bounds.minPoint.getValueAt index
    if coefficient < minCoefficient then
      let diff := minCoefficient - coefficient
      distance + diff * diff
    else if maxCoefficient < coefficient then
      let diff := coefficient - maxCoefficient
      distance + diff * diff
    else distance) 0

/-- The coefficient of the split point in the split dimension. -/
def Split.getSplitThreshold (split : Split K) : K :=
  split.splitPoint.getValueAt split.splitDimension

/-- The box of the less side with its upper face moved to the splitting plane. -/
def Split.leftBox (split : Split K) : Bounds K :=
  ⟨⟨split.leftBounds.maxPoint.coefficients.set split.splitDimension
      (split.splitPoint.getValueAt split.splitDimension)⟩, split.leftBounds.minPoint⟩

/-- The box of the greater side with its lower face moved to the splitting plane. -/
def Split.rightBox (split : Split K) : Bounds K :=
  ⟨split.rightBounds.maxPoint, ⟨split.rightBounds.minPoint.coefficients.set split.splitDimension
      (split.splitPoint.getValueAt split.splitDimension)⟩⟩

/-- The squared distances from a query to the boxes of the two sides. -/
def Split.getDistancesFromSplits (split : Split K) (query : Point K) : K × K :=
  (split.leftBox.distanceFromPoint query, split.rightBox.distanceFromPoint query)

end Kdtree
