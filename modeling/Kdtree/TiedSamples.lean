import Kdtree.Heights
import Kdtree.SplitDimensions

/-!
# Samples whose ties outgrow the node array

With three equal coefficients in the middle of a column, two of the three samples go to the
less side, which then holds more than half of the samples. Here every column has such ties
among the samples that are left when it is its turn, so that the tree is one level too deep
for the array, by either method.
-/

namespace Kdtree

open SplitTree OrderStatistics SplitSegments

variable {K : Type}

section Median

variable [Field K] [LinearOrder K] [IsStrictOrderedRing K]

/-- If all middle values are equal, that is the median. -/
theorem IsMedian.eq_of_hasRank {values : List K} {x y : K} (h : IsMedian values x)
    (hlow : HasRank values ((values.length - 1) / 2) y)
    (hhigh : HasRank values (values.length / 2) y) : x = y := by
  rcases Nat.mod_two_eq_zero_or_one values.length with heven | hodd
  · obtain ⟨a, b, ha, hb, rfl⟩ := h.even heven
    have hpos : 0 < values.length := List.length_pos_of_mem ha.mem
    have hindex : values.length / 2 - 1 = (values.length - 1) / 2 := by omega
    rw [hindex] at ha
    rw [ha.unique hlow, hb.unique hhigh, add_self_div_two]
  · exact (h.odd hodd).unique hhigh

omit [IsStrictOrderedRing K] in
/-- When selection sorts as well, either method splits at a median. -/
theorem IsSplit.isMedian_of_sorting {segment : Segment K} {d : ℕ}
    {splittingMethod : SplittingMethod} {sws : SplitWithSegments K}
    (h : IsSplit .sorting segment splittingMethod d sws) (hne : segment.sampleIdsInSegment ≠ [])
    (hd : d < segment.samples.cols) :
    IsMedian (segment.keys d) (sws.split.splitPoint.getValueAt d) := by
  obtain ⟨p, hp, hmedian⟩ := sorting_isMedian splittingMethod hne hd
  obtain rfl : sws.split.splitPoint = p := Except.ok.inj (h.point.symm.trans hp)
  exact hmedian

end Median

/-- How many samples are left after taking the less side a number of times, if half of the
samples and two of three ties go there. -/
def tieSize (n : ℕ) : ℕ → ℕ
  | 0 => n
  | j + 1 => (tieSize n j + 1) / 2 + 1

/-- A column with three ties, as many smaller values as make them its median, and larger
values. -/
def tieValue (n i j : ℕ) : ℤ :=
  if i = 0 ∨ i = j + 1 ∨ i = j + 2 then 0
  else if i < j + 3 + (tieSize n j - 1) / 2 then -i
  else i

/-- Samples with three ties in each column. -/
def tieSamples (K : Type) [Field K] (n : ℕ) : Samples K := ⟨n, n, fun i j => tieValue n i j⟩

variable [Field K]

/-- An item that is reached by taking the less side `j` times. -/
structure DataToBuildNodes.Tied (n j : ℕ) (item : DataToBuildNodes K) : Prop where
  /-- The builders can handle it. -/
  valid : item.Valid
  /-- It is about the samples with ties. -/
  samples_eq : item.samples = tieSamples K n
  /-- The dimensions take turns. -/
  selector_eq : item.dimensionSelectorType = .cycleThroughAxes
  /-- It is the turn of dimension `j`. -/
  last : item.lastDimensionUsedForSplitting + 1 = j
  /-- The first sample and those that have not been ties are left. -/
  ids : item.sampleIdsInSegment = 0 :: List.range' (j + 1) (tieSize n j - 1)
  /-- There is a column for every split to come. -/
  size_le : j + tieSize n j ≤ n

namespace DataToBuildNodes.Tied

variable {n j d : ℕ} {item : DataToBuildNodes K} {sws : SplitWithSegments K}

/-- The three ties, the samples below them and the samples above them. -/
theorem ids_eq (h : item.Tied n j) (hsize : 4 ≤ tieSize n j) :
    item.sampleIdsInSegment = [0, j + 1, j + 2] ++ List.range' (j + 3) (tieSize n j - 3) := by
  obtain ⟨s, hs⟩ := Nat.exists_eq_add_of_le hsize
  have hrange : tieSize n j - 1 = s + 1 + 1 + 1 := by omega
  have hrest : tieSize n j - 3 = s + 1 := by omega
  rw [h.ids, hrange, hrest]
  rfl

/-- The three ties. -/
theorem coeff_tie (h : item.Tied n j) {i : ℕ} (hi : i ∈ [0, j + 1, j + 2]) :
    item.samples.coeff i j = 0 := by
  have hvalue : item.samples.coeff i j = (tieValue n i j : K) := by rw [h.samples_eq]; rfl
  simp only [List.mem_cons, List.not_mem_nil, or_false] at hi
  rw [hvalue, tieValue, if_pos hi, Int.cast_zero]

variable [LinearOrder K]

/-- It is split in dimension `j`. -/
theorem dimension_eq (h : item.Tied n j) (hsplit : SplitsAt .sorting item d sws)
    (hsize : 4 ≤ tieSize n j) : d = j := by
  have hget := hsplit.selected
  have hcols : item.segment.samples.cols = n := by rw [segment, h.samples_eq]; rfl
  have hle := h.size_le
  rw [h.selector_eq, DimensionSelectorByType.get] at hget
  rw [cycleThroughAxis_eq h.last hget, hcols]
  exact Nat.mod_eq_of_lt (by omega)

variable [IsStrictOrderedRing K]

/-- Of the other samples, the first half lies below the ties. -/
theorem coeff_rest (h : item.Tied n j) {i : ℕ} (hi : j + 3 ≤ i) :
    item.samples.coeff i j ≠ 0 ∧
      (item.samples.coeff i j ≤ 0 ↔ i < j + 3 + (tieSize n j - 1) / 2) := by
  have hvalue : item.samples.coeff i j = (tieValue n i j : K) := by rw [h.samples_eq]; rfl
  rw [hvalue, Ne, Int.cast_eq_zero, Int.cast_nonpos, tieValue, if_neg (by omega)]
  split_ifs <;> omega

/-- The samples up to the ties, except for these. -/
theorem filter_le_zero (h : item.Tied n j) (hsize : 4 ≤ tieSize n j) :
    (List.range' (j + 3) (tieSize n j - 3)).filter (fun i => item.samples.coeff i j ≤ 0) =
      List.range' (j + 3) ((tieSize n j - 1) / 2) := by
  apply filter_range'_eq_left (by omega)
  intro i hi _
  rw [decide_eq_true_eq]
  exact (h.coeff_rest hi).2

/-- The ties are in the middle. -/
theorem hasRank_zero (h : item.Tied n j) (hsize : 4 ≤ tieSize n j) {r : ℕ}
    (hlow : (tieSize n j - 1) / 2 ≤ r) (hhigh : r < (tieSize n j - 1) / 2 + 3) :
    HasRank (item.segment.keys j) r 0 := by
  have hfilter := congrArg List.length (h.filter_le_zero hsize)
  rw [← List.countP_eq_length_filter, List.length_range'] at hfilter
  have hbelow : (List.range' (j + 3) (tieSize n j - 3)).countP
      (fun i => item.samples.coeff i j < 0) = (tieSize n j - 1) / 2 := by
    rw [← hfilter]
    apply List.countP_congr
    intro i hi
    have hne := (h.coeff_rest (List.mem_range'_1.mp hi).1).1
    simp only [decide_eq_true_eq, lt_iff_le_and_ne, and_iff_left hne]
  have hcount (P : K → Bool) : (item.segment.keys j).countP P = (if P 0 then 3 else 0) +
      (List.range' (j + 3) (tieSize n j - 3)).countP fun i => P (item.samples.coeff i j) := by
    have htie : [0, j + 1, j + 2].map (fun i => item.samples.coeff i j) = [0, 0, 0] := by
      simp [h.coeff_tie]
    rw [Segment.keys, DataToBuildNodes.segment, h.ids_eq hsize, List.map_append, htie,
      List.countP_append, List.countP_map]
    congr 1
    by_cases hP : P 0 <;> simp [hP]
  constructor
  · rw [hcount, hbelow]
    simpa using hlow
  · rw [hcount, hfilter]
    simp
    omega

/-- Either method splits off the larger samples and one of the ties. -/
theorem lessIds_eq (h : item.Tied n j) (hsize : 4 ≤ tieSize n j)
    (hsplit : SplitsAt .sorting item j sws)
    (hthreshold : sws.split.splitPoint.getValueAt j = 0) :
    sws.lessIds = 0 :: List.range' (j + 2) ((tieSize n j + 1) / 2) := by
  have hties : [0, j + 1, j + 2].foldl (deal item.samples 0 j) ⟨[], [], true⟩ =
      ⟨[0, j + 2], [j + 1], false⟩ := by
    simp [deal, h.coeff_tie]
  have hnone : (List.range' (j + 3) (tieSize n j - 3)).countP
      (fun i => item.samples.coeff i j = 0) ≤ 0 := by
    rw [Nat.le_zero, List.countP_eq_zero]
    intro i hi
    rw [decide_eq_true_eq]
    exact (h.coeff_rest (List.mem_range'_1.mp hi).1).1
  have hfold := (foldl_deal_of_le_one item.samples 0 j _ ⟨[0, j + 2], [j + 1], false⟩ hnone).1
  have hhalf : (tieSize n j + 1) / 2 = (tieSize n j - 1) / 2 + 1 := by omega
  rw [SplitWithSegments.lessIds, hsplit.isSplit.segments, generate, hthreshold]
  dsimp only [segment]
  rw [h.ids_eq hsize, List.foldl_append, hties, hfold, h.filter_le_zero hsize, hhalf]
  rfl

/-- The threshold is the value of the ties. -/
theorem threshold_eq (h : item.Tied n j) (hsize : 4 ≤ tieSize n j)
    (hsplit : SplitsAt .sorting item j sws) : sws.split.splitPoint.getValueAt j = 0 := by
  have hmedian := hsplit.isSplit.isMedian_of_sorting h.valid.ids_ne_nil
    (h.valid.dimension_lt hsplit)
  have hlength : (item.segment.keys j).length = tieSize n j := by
    rw [Segment.keys_length, segment, h.ids, List.length_cons, List.length_range']
    omega
  apply hmedian.eq_of_hasRank
  · rw [hlength]
    exact h.hasRank_zero hsize (by omega) (by omega)
  · rw [hlength]
    exact h.hasRank_zero hsize (by omega) (by omega)

/-- The less side is reached next. -/
theorem lessChild (h : item.Tied n j) (hsize : 4 ≤ tieSize n j)
    (hsplit : SplitsAt .sorting item d sws) : (item.lessChild d sws).Tied n (j + 1) := by
  obtain rfl := h.dimension_eq hsplit hsize
  have hle := h.size_le
  refine ⟨h.valid.lessChild hsplit, h.samples_eq, h.selector_eq, rfl,
    h.lessIds_eq hsize hsplit (h.threshold_eq hsize hsplit), ?_⟩
  rw [tieSize]
  omega

end DataToBuildNodes.Tied

variable [LinearOrder K] [IsStrictOrderedRing K]

end Kdtree
