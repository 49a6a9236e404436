import Kdtree.SplitBalance
import Kdtree.General.Fallible

/-!
# One split of a segment

What `SplitPointSelector::generate` returns, stated once: the split point of the
chosen method, the two sides dealt at its coefficient, and the bounding box of
each side. On a segment of two or more samples the split always succeeds, with a
sample on each side.
-/

namespace Kdtree

open OrderStatistics

variable {K : Type} [Field K] [LinearOrder K]

/-- The ids on the less side of a split. -/
def SplitWithSegments.lessIds (sws : SplitWithSegments K) : List ℕ :=
  sws.splitSegments.segmentLessThanThreshold.sampleIdsInSegment

/-- The ids on the greater side of a split. -/
def SplitWithSegments.greaterIds (sws : SplitWithSegments K) : List ℕ :=
  sws.splitSegments.segmentGreaterThanThreshold.sampleIdsInSegment

/-- Everything that a call of `SplitPointSelector::generate` which returns has computed. -/
structure IsSplit (std : StdAlgorithms K) (segment : Segment K)
    (splittingMethod : SplittingMethod) (d : ℕ) (sws : SplitWithSegments K) : Prop where
  /-- The split point of the chosen method. -/
  point : getSplitPoint std segment splittingMethod d = .ok sws.split.splitPoint
  /-- The dimension is stored in the split. -/
  dimension : sws.split.splitDimension = d
  /-- The sides are dealt at the split point. -/
  segments : sws.splitSegments = SplitSegments.generate segment sws.split.splitPoint d
  /-- The box of the less side. -/
  left : Bounds.generate ⟨segment.samples, sws.lessIds⟩ = .ok sws.split.leftBounds
  /-- The box of the greater side. -/
  right : Bounds.generate ⟨segment.samples, sws.greaterIds⟩ = .ok sws.split.rightBounds

/-- The box of a segment exists as soon as the segment has a sample. -/
theorem exists_bounds {segment : Segment K} (hne : segment.sampleIdsInSegment ≠ []) :
    ∃ bounds, Bounds.generate segment = .ok bounds := by
  unfold Bounds.generate extremeValues
  cases h : segment.sampleIdsInSegment with
  | nil => exact absurd h hne
  | cons first rest => exact ⟨_, rfl⟩

/-- A call of `SplitPointSelector::generate` returns exactly what `IsSplit` describes. -/
theorem generate_eq_ok_iff {std : StdAlgorithms K} {segment : Segment K}
    {splittingMethod : SplittingMethod} {d : ℕ} {sws : SplitWithSegments K} :
    SplitPointSelector.generate std segment splittingMethod d = .ok sws ↔
      IsSplit std segment splittingMethod d sws := by
  unfold SplitPointSelector.generate
  constructor
  · intro h
    obtain ⟨p, hp, h⟩ := Fallible.bind_eq_ok_iff.mp h
    obtain ⟨leftBounds, hl, h⟩ := Fallible.bind_eq_ok_iff.mp h
    obtain ⟨rightBounds, hr, h⟩ := Fallible.bind_eq_ok_iff.mp h
    obtain rfl := Except.ok.inj h
    exact ⟨hp, rfl, rfl, hl, hr⟩
  · rintro ⟨hp, hd, hsegments, hl, hr⟩
    obtain ⟨⟨_, p, leftBounds, rightBounds⟩, splitSegments⟩ := sws
    simp only [SplitWithSegments.lessIds, SplitWithSegments.greaterIds] at *
    subst hd hsegments
    have hl' : Bounds.generate (SplitSegments.generate segment p _).segmentLessThanThreshold =
        .ok leftBounds := hl
    have hr' : Bounds.generate (SplitSegments.generate segment p _).segmentGreaterThanThreshold =
        .ok rightBounds := hr
    simp only [hp, hl', hr', bind, Except.bind, pure, Except.pure]

namespace IsSplit

variable {std : StdAlgorithms K} {segment : Segment K} {splittingMethod : SplittingMethod} {d : ℕ}
  {sws : SplitWithSegments K}

/-- The two sides hold the samples of the segment. -/
theorem perm (h : IsSplit std segment splittingMethod d sws) :
    (sws.lessIds ++ sws.greaterIds).Perm segment.sampleIdsInSegment := by
  rw [SplitWithSegments.lessIds, SplitWithSegments.greaterIds, h.segments]
  exact (SplitSegments.generate_spec segment _ d).1

/-- Samples on the less side lie at most at the threshold. -/
theorem le_threshold (h : IsSplit std segment splittingMethod d sws) {i : ℕ}
    (hi : i ∈ sws.lessIds) :
    segment.samples.coeff i d ≤ sws.split.splitPoint.getValueAt d := by
  rw [SplitWithSegments.lessIds, h.segments] at hi
  exact (SplitSegments.generate_spec segment _ d).2.1 i hi

/-- Samples on the greater side lie at least at the threshold. -/
theorem threshold_le (h : IsSplit std segment splittingMethod d sws) {i : ℕ}
    (hi : i ∈ sws.greaterIds) :
    sws.split.splitPoint.getValueAt d ≤ segment.samples.coeff i d := by
  rw [SplitWithSegments.greaterIds, h.segments] at hi
  exact (SplitSegments.generate_spec segment _ d).2.2 i hi

/-- The size of the less side. -/
theorem less_length (h : IsSplit std segment splittingMethod d sws) :
    sws.lessIds.length = lessSize (segment.keys d) (sws.split.splitPoint.getValueAt d) := by
  rw [SplitWithSegments.lessIds, h.segments]
  exact SplitSegments.generate_less_length segment _ d

/-- The size of the greater side. -/
theorem greater_length (h : IsSplit std segment splittingMethod d sws) :
    sws.greaterIds.length = greaterSize (segment.keys d) (sws.split.splitPoint.getValueAt d) := by
  rw [SplitWithSegments.greaterIds, h.segments]
  exact SplitSegments.generate_greater_length segment _ d

/-- If at most one sample lies on the threshold, the sides are those up to it, and above it. -/
theorem sides_eq_filter (h : IsSplit std segment splittingMethod d sws)
    (hone : (segment.keys d).countP (· = sws.split.splitPoint.getValueAt d) ≤ 1) :
    sws.lessIds = segment.sampleIdsInSegment.filter
        (fun i => segment.samples.coeff i d ≤ sws.split.splitPoint.getValueAt d) ∧
      sws.greaterIds = segment.sampleIdsInSegment.filter
        (fun i => sws.split.splitPoint.getValueAt d < segment.samples.coeff i d) := by
  rw [Segment.keys, List.countP_map] at hone
  have hfold := foldl_deal_of_le_one segment.samples (sws.split.splitPoint.getValueAt d) d
    segment.sampleIdsInSegment ⟨[], [], true⟩ hone
  rw [SplitWithSegments.lessIds, SplitWithSegments.greaterIds, h.segments]
  simpa [SplitSegments.generate] using hfold

end IsSplit

/-- Sorting splits at a median of the coefficients. -/
theorem IsSplit.isMedian {std : StdAlgorithms K} {segment : Segment K} {d : ℕ}
    {sws : SplitWithSegments K} (h : IsSplit std segment .median d sws)
    (hne : segment.sampleIdsInSegment ≠ []) (hd : d < segment.samples.cols) :
    IsMedian (segment.keys d) (sws.split.splitPoint.getValueAt d) := by
  obtain ⟨p, hp, hmedian⟩ := median_spec std hne hd
  obtain rfl : sws.split.splitPoint = p := Except.ok.inj (h.point.symm.trans hp)
  exact hmedian

/-- Either method splits at a threshold of the coefficients. -/
theorem IsSplit.isThreshold {std : StdAlgorithms K} {segment : Segment K} {d : ℕ}
    {splittingMethod : SplittingMethod} {sws : SplitWithSegments K}
    (h : IsSplit std segment splittingMethod d sws) (hne : segment.sampleIdsInSegment ≠ [])
    (hd : d < segment.samples.cols) :
    IsThreshold (segment.keys d) (sws.split.splitPoint.getValueAt d) := by
  obtain ⟨p, hp, hthreshold⟩ := getSplitPoint_spec std splittingMethod hne hd
  obtain rfl : sws.split.splitPoint = p := Except.ok.inj (h.point.symm.trans hp)
  exact hthreshold

variable [IsStrictOrderedRing K]

/-- A segment of two or more samples is split by either method, with at least one
sample on each side. -/
theorem exists_isSplit (std : StdAlgorithms K) (segment : Segment K) {d : ℕ}
    (splittingMethod : SplittingMethod) (hlen : 2 ≤ segment.sampleIdsInSegment.length)
    (hd : d < segment.samples.cols) :
    ∃ sws, IsSplit std segment splittingMethod d sws ∧ sws.lessIds ≠ [] ∧ sws.greaterIds ≠ [] := by
  have hne : segment.sampleIdsInSegment ≠ [] := List.length_pos_iff.mp (by omega)
  obtain ⟨p, hp, hthreshold⟩ := getSplitPoint_spec std splittingMethod hne hd
  obtain ⟨hless, hgreater⟩ := hthreshold.sizes_pos (by rwa [segment.keys_length])
  have hless' : (SplitSegments.generate segment p d).segmentLessThanThreshold.sampleIdsInSegment ≠
      [] := by
    rw [← List.length_pos_iff, SplitSegments.generate_less_length]
    exact hless
  have hgreater' :
      (SplitSegments.generate segment p d).segmentGreaterThanThreshold.sampleIdsInSegment ≠ [] := by
    rw [← List.length_pos_iff, SplitSegments.generate_greater_length]
    exact hgreater
  obtain ⟨leftBounds, hl⟩ := exists_bounds hless'
  obtain ⟨rightBounds, hr⟩ := exists_bounds hgreater'
  exact ⟨⟨⟨d, p, leftBounds, rightBounds⟩, SplitSegments.generate segment p d⟩,
    ⟨hp, rfl, rfl, hl, hr⟩, hless', hgreater'⟩

/-- Both sides of a split of two or more samples hold a sample. -/
theorem IsSplit.sides_ne_nil {std : StdAlgorithms K} {segment : Segment K} {d : ℕ}
    {splittingMethod : SplittingMethod} {sws : SplitWithSegments K}
    (h : IsSplit std segment splittingMethod d sws) (hlen : 2 ≤ segment.sampleIdsInSegment.length)
    (hd : d < segment.samples.cols) : sws.lessIds ≠ [] ∧ sws.greaterIds ≠ [] := by
  obtain ⟨sws', h', hless, hgreater⟩ := exists_isSplit std segment splittingMethod hlen hd
  rw [← generate_eq_ok_iff] at h h'
  obtain rfl : sws = sws' := Except.ok.inj (h.symm.trans h')
  exact ⟨hless, hgreater⟩

end Kdtree
