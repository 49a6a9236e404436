import Kdtree.BoundingBox
import Kdtree.SearchSpec

/-!
# Search in a built tree is exact

Replacing one face of each bounding box by the splitting plane makes the box no
smaller, so it still holds every sample on its side, and the distance to it is a
bound that branch and bound may rely on.
-/

namespace Kdtree

open SplitTree

variable {K : Type} [Field K]

/-- The coefficient of a row, read through the point. -/
theorem Samples.getValueAt_row (samples : Samples K) (i : ℕ) {j : ℕ} (hj : j < samples.cols) :
    ((Segment.ofSamples samples).getPoint i).getValueAt j = samples.coeff i j :=
  (Segment.ofSamples samples).getPoint_getValueAt i hj

variable [LinearOrder K]

/-- The left box of a split holds every sample on the less side. -/
theorem SplitFits.leftBox_contains {samples : Samples K} {split : Split K}
    {less greater : List ℕ} (h : SplitFits samples split less greater) {i : ℕ} (hi : i ∈ less) :
    split.leftBox.ContainsWithin 0 ((Segment.ofSamples samples).getPoint i) := by
  intro j hj
  rw [Segment.getPoint_length] at hj
  have hbox := h.left.coeff_mem hi hj
  have hd : split.splitDimension < split.leftBounds.maxPoint.coefficients.length := by
    rw [h.left.maxPoint_length]
    exact h.dimension_lt
  rw [samples.getValueAt_row i hj, sub_zero, add_zero, split.leftBox_maxPoint hd]
  refine ⟨hbox.1, ?_⟩
  split_ifs with heq
  · subst heq
    exact hbox.2.trans h.le_splitPoint
  · exact hbox.2

/-- The right box of a split holds every sample on the greater side. -/
theorem SplitFits.rightBox_contains {samples : Samples K} {split : Split K}
    {less greater : List ℕ} (h : SplitFits samples split less greater) {i : ℕ}
    (hi : i ∈ greater) :
    split.rightBox.ContainsWithin 0 ((Segment.ofSamples samples).getPoint i) := by
  intro j hj
  rw [Segment.getPoint_length] at hj
  have hbox := h.right.coeff_mem hi hj
  have hd : split.splitDimension < split.rightBounds.minPoint.coefficients.length := by
    rw [h.right.minPoint_length]
    exact h.dimension_lt
  rw [samples.getValueAt_row i hj, sub_zero, add_zero, split.rightBox_minPoint hd]
  refine ⟨?_, hbox.2⟩
  split_ifs with heq
  · subst heq
    exact h.splitPoint_le.trans hbox.1
  · exact hbox.1

variable [IsStrictOrderedRing K]

/-- The recursive builder followed by the search: for every query, the search in
the tree that was built terminates, and reports a nearest sample with its row and
its squared distance. -/
theorem findNearestNeighbor_exact (std : StdAlgorithms K) {samples : Samples K}
    (hrows : 0 < samples.rows) (hcols : 0 < samples.cols)
    (dimensionSelectorType : DimensionSelectorType) (splittingMethod : SplittingMethod)
    (kdtree : KDTree K) {query : Point K} (hquery : query.coefficients.length = samples.cols) :
    ∃ out : Build K,
      (∀ fuel ≥ samples.rows, buildUsingRecursion std fuel
        (rootItem samples dimensionSelectorType splittingMethod) (.start kdtree) = .ok out) ∧
      ∃ s < samples.rows,
        (∀ fuel ≥ 2 * samples.rows, findNearestNeighbor fuel samples out.kdtree query =
          .ok ⟨s, (Segment.ofSamples samples).getPoint s,
            (Point.squaredDistance ((Segment.ofSamples samples).getPoint s) query : K)⟩) ∧
        ∀ i < samples.rows,
          Point.squaredDistance ((Segment.ofSamples samples).getPoint s) query ≤
            Point.squaredDistance ((Segment.ofSamples samples).getPoint i) query := by
  have hvalid := rootItem_valid hrows hcols dimensionSelectorType splittingMethod
  obtain ⟨t, out, ht, hbuild, -, hstored, -⟩ :=
    exists_build_rootItem std hrows hcols dimensionSelectorType splittingMethod kdtree
  have hlength : t.leaves.length = samples.rows :=
    ht.leaves_perm.length_eq.trans List.length_range
  have hfits : t.ForallNodes (SplitFits samples) := ht.forallNodes hvalid
  obtain ⟨s, hs, hvisit, hsearch⟩ := findNearestNeighbor_stored hstored
    (fun i hi => ht.mem_leaves_iff.mp hi) hquery
  refine ⟨out, hbuild, s, ht.mem_leaves_iff.mp hs, fun fuel hfuel => hsearch fuel (by omega),
    fun i hi => ?_⟩
  have hlen : query.coefficients.length =
      ((Segment.ofSamples samples).getPoint i).coefficients.length := by
    rw [hquery, Segment.getPoint_length]
    rfl
  refine visit_cost_le (ht.mem_leaves_iff.mpr hi)
    (hfits.imp fun split l r h => ⟨fun hl => ?_, fun hr => ?_⟩) hvisit
  · exact Bounds.distanceFromPoint_le (h.leftBox_contains hl) hlen
  · exact Bounds.distanceFromPoint_le (h.rightBox_contains hr) hlen

/-- The nearest of the three samples on a diagonal to a query. -/
theorem findNearestNeighbor_diagonal :
    ∃ out : Build ℚ,
      (∀ fuel ≥ 3, buildUsingRecursion .sorting fuel
        (rootItem diagonalSamples .highestRangeAxis .median) (.start (.create 1)) = .ok out) ∧
      ∃ s < (3 : ℕ),
        (∀ fuel ≥ 6, findNearestNeighbor fuel diagonalSamples out.kdtree ⟨[4, 4, 4]⟩ =
          .ok ⟨s, (Segment.ofSamples diagonalSamples).getPoint s,
            (Point.squaredDistance ((Segment.ofSamples diagonalSamples).getPoint s)
              ⟨[4, 4, 4]⟩ : ℚ)⟩) ∧
        ∀ i < 3, Point.squaredDistance ((Segment.ofSamples diagonalSamples).getPoint s)
            ⟨[4, 4, 4]⟩ ≤
          Point.squaredDistance ((Segment.ofSamples diagonalSamples).getPoint i) ⟨[4, 4, 4]⟩ :=
  findNearestNeighbor_exact .sorting diagonalSamples_pos.1 diagonalSamples_pos.2
    .highestRangeAxis .median (.create 1) rfl

end Kdtree
