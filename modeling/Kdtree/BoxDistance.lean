import Kdtree.Explorer
import Kdtree.SplitPoint
import Kdtree.General.Boxes

/-!
# Distances to samples and to boxes

The loops that accumulate squared distances, as sums over the dimensions, and
the boxes that the search compares a query with. A sample that lies in such a
box, up to an error in each dimension, bounds the distance to the box.
-/

namespace Kdtree

open Boxes

/-- A loop that adds one term for each dimension computes their sum. -/
theorem foldl_add_eq_sum {K : Type} [AddCommMonoid K] (f : ℕ → K) (n : ℕ) :
    (List.range n).foldl (fun acc j => acc + f j) 0 = ∑ j ∈ Finset.range n, f j := by
  induction n with
  | zero => rfl
  | succ n ih => rw [List.range_succ, List.foldl_append, ih, Finset.sum_range_succ]; rfl

variable {K : Type} [Field K]

/-- The upper face of the left box is the splitting plane, its other upper faces
are those of the left bounds. -/
theorem Split.leftBox_maxPoint (split : Split K) {j : ℕ}
    (hj : split.splitDimension < split.leftBounds.maxPoint.coefficients.length) :
    split.leftBox.maxPoint.getValueAt j =
      if j = split.splitDimension then split.splitPoint.getValueAt split.splitDimension
      else split.leftBounds.maxPoint.getValueAt j := by
  unfold leftBox Point.getValueAt
  split_ifs with h
  · simp [List.getD_eq_getElem?_getD, h, hj]
  · simp [List.getD_eq_getElem?_getD, Ne.symm h]

/-- The lower face of the right box is the splitting plane, its other lower faces
are those of the right bounds. -/
theorem Split.rightBox_minPoint (split : Split K) {j : ℕ}
    (hj : split.splitDimension < split.rightBounds.minPoint.coefficients.length) :
    split.rightBox.minPoint.getValueAt j =
      if j = split.splitDimension then split.splitPoint.getValueAt split.splitDimension
      else split.rightBounds.minPoint.getValueAt j := by
  unfold rightBox Point.getValueAt
  split_ifs with h
  · simp [List.getD_eq_getElem?_getD, h, hj]
  · simp [List.getD_eq_getElem?_getD, Ne.symm h]

variable [LinearOrder K]

/-- The squared distance from a row of the sample matrix to a query. -/
def sampleDistance (samples : Samples K) (query : Point K) (i : ℕ) : K :=
  Point.squaredDistance ((Segment.ofSamples samples).getPoint i) query

/-- A point lies in a box up to an error in each of its dimensions. -/
def Bounds.ContainsWithin (bounds : Bounds K) (δ : K) (point : Point K) : Prop :=
  ∀ j < point.coefficients.length, bounds.minPoint.getValueAt j - δ ≤ point.getValueAt j ∧
    point.getValueAt j ≤ bounds.maxPoint.getValueAt j + δ

/-- One term of the distance to a box is the squared gap to an interval. -/
theorem Bounds.distanceFromPoint_eq (bounds : Bounds K) (point : Point K) :
    bounds.distanceFromPoint point = ∑ j ∈ Finset.range point.coefficients.length,
      gap (bounds.minPoint.getValueAt j) (bounds.maxPoint.getValueAt j)
        (point.getValueAt j) ^ 2 := by
  rw [← foldl_add_eq_sum, distanceFromPoint]
  congr
  funext distance j
  unfold gap
  dsimp only
  split_ifs <;> ring

variable [IsStrictOrderedRing K]

/-- The squared distance between points, without the test that guards it against
rounding below zero. -/
theorem Point.squaredDistance_eq (point1 point2 : Point K) :
    point1.squaredDistance point2 = ∑ j ∈ Finset.range point1.coefficients.length,
      (point1.getValueAt j - point2.getValueAt j) ^ 2 := by
  have hsum := foldl_add_eq_sum
    (fun j => (point1.getValueAt j - point2.getValueAt j) ^ 2) point1.coefficients.length
  have hnonneg : 0 ≤ ∑ j ∈ Finset.range point1.coefficients.length,
      (point1.getValueAt j - point2.getValueAt j) ^ 2 :=
    Finset.sum_nonneg fun j _ => sq_nonneg _
  simp only [squaredDistance, ← sq, hsum]
  split_ifs with h
  · exact le_antisymm hnonneg h
  · rfl

/-- No point of a box is closer to a query than the box. -/
theorem Bounds.distanceFromPoint_le {bounds : Bounds K} {point query : Point K}
    (hin : bounds.ContainsWithin 0 point)
    (hquery : query.coefficients.length = point.coefficients.length) :
    bounds.distanceFromPoint query ≤ point.squaredDistance query := by
  rw [distanceFromPoint_eq, Point.squaredDistance_eq, hquery]
  refine Finset.sum_le_sum fun j hj => ?_
  obtain ⟨hmin, hmax⟩ := hin j (Finset.mem_range.mp hj)
  exact gap_sq_le (by rwa [sub_zero] at hmin) (by rwa [add_zero] at hmax)

/-- The corners have a coefficient for each of `D` dimensions and are in order. -/
structure Bounds.IsProper (bounds : Bounds K) (D : ℕ) : Prop where
  /-- The largest corner has `D` coefficients. -/
  maxPoint_length : bounds.maxPoint.coefficients.length = D
  /-- So has the smallest corner. -/
  minPoint_length : bounds.minPoint.coefficients.length = D
  /-- In no dimension do the corners change sides. -/
  min_le_max : ∀ j < D, bounds.minPoint.getValueAt j ≤ bounds.maxPoint.getValueAt j

/-- The points between the two corners. -/
def Bounds.points (bounds : Bounds K) (D : ℕ) : Set (Point K) :=
  {x | x.coefficients.length = D ∧ ∀ j < D,
    bounds.minPoint.getValueAt j ≤ x.getValueAt j ∧ x.getValueAt j ≤ bounds.maxPoint.getValueAt j}

/-- The point of a box that is nearest to a query. -/
def Bounds.nearestPoint (bounds : Bounds K) (query : Point K) : Point K :=
  ⟨(List.range query.coefficients.length).map fun j =>
    max (bounds.minPoint.getValueAt j) (min (bounds.maxPoint.getValueAt j) (query.getValueAt j))⟩

omit [IsStrictOrderedRing K] in
/-- It is a point of the box. -/
theorem Bounds.nearestPoint_mem {bounds : Bounds K} {query : Point K} {D : ℕ}
    (hproper : bounds.IsProper D) (hquery : query.coefficients.length = D) :
    bounds.nearestPoint query ∈ bounds.points D := by
  subst hquery
  refine ⟨by simp [nearestPoint], fun j hj => ?_⟩
  rw [nearestPoint, getValueAt_map_range _ hj]
  exact ⟨le_max_left _ _, max_le (hproper.min_le_max j hj) (min_le_left _ _)⟩

/-- It is as far away from the query as the box. -/
theorem Bounds.squaredDistance_nearestPoint {bounds : Bounds K} {query : Point K} {D : ℕ}
    (hproper : bounds.IsProper D) (hquery : query.coefficients.length = D) :
    (bounds.nearestPoint query).squaredDistance query = bounds.distanceFromPoint query := by
  subst hquery
  have hlen : (bounds.nearestPoint query).coefficients.length = query.coefficients.length := by
    simp [nearestPoint]
  rw [distanceFromPoint_eq, Point.squaredDistance_eq, hlen]
  refine Finset.sum_congr rfl fun j hj => ?_
  have hj' := Finset.mem_range.mp hj
  rw [nearestPoint, getValueAt_map_range _ hj']
  exact clamp_sub_sq (hproper.min_le_max j hj') _

/-- The distance from a query to a box is the least distance to a point of the box. -/
theorem Bounds.distanceFromPoint_isLeast {bounds : Bounds K} {query : Point K} {D : ℕ}
    (hproper : bounds.IsProper D) (hquery : query.coefficients.length = D) :
    IsLeast {distance | ∃ x ∈ bounds.points D, x.squaredDistance query = distance}
      (bounds.distanceFromPoint query) := by
  constructor
  · exact ⟨_, nearestPoint_mem hproper hquery, squaredDistance_nearestPoint hproper hquery⟩
  · rintro distance ⟨x, ⟨hx, hin⟩, rfl⟩
    refine distanceFromPoint_le (fun j hj => ?_) (hquery.trans hx.symm)
    rw [sub_zero, add_zero]
    exact hin j (hx ▸ hj)

/-- A unit square and the origin outside of it. -/
theorem unitSquare_distance_isLeast :
    IsLeast {distance : ℚ | ∃ x ∈ Bounds.points ⟨⟨[2, 2]⟩, ⟨[1, 1]⟩⟩ 2,
      x.squaredDistance ⟨[0, 0]⟩ = distance}
      (Bounds.distanceFromPoint ⟨⟨[2, 2]⟩, ⟨[1, 1]⟩⟩ ⟨[0, 0]⟩) :=
  Bounds.distanceFromPoint_isLeast ⟨rfl, rfl, by decide +kernel⟩ rfl

/-- A point that lies in a box up to an error of `δ` in each of `D` dimensions is
closer to a query than the box by at most `δ * √D`. -/
theorem Bounds.sqrt_distanceFromPoint_le {bounds : Bounds ℝ} {point query : Point ℝ} {δ : ℝ}
    (hδ : 0 ≤ δ) (hin : bounds.ContainsWithin δ point)
    (hquery : query.coefficients.length = point.coefficients.length) :
    √(bounds.distanceFromPoint query) ≤
      √(point.squaredDistance query) + δ * √query.coefficients.length := by
  rw [distanceFromPoint_eq, Point.squaredDistance_eq, Real.sqrt_le_left (by positivity), ← hquery]
  have hterm : ∀ j ∈ Finset.range query.coefficients.length,
      gap (bounds.minPoint.getValueAt j) (bounds.maxPoint.getValueAt j) (query.getValueAt j) ^ 2 ≤
        (|point.getValueAt j - query.getValueAt j| + δ) ^ 2 := by
    intro j hj
    obtain ⟨hmin, hmax⟩ := hin j (by rw [← hquery]; exact Finset.mem_range.mp hj)
    exact pow_le_pow_left₀ (gap_nonneg _ _ _) (gap_le_abs_sub_add hδ hmin hmax) 2
  have hnorm := sum_sq_add_le (Finset.range query.coefficients.length)
    (fun j => point.getValueAt j - query.getValueAt j) hδ
  rw [Finset.card_range] at hnorm
  exact (Finset.sum_le_sum hterm).trans hnorm

end Kdtree
