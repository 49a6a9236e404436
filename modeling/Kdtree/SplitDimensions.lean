import Kdtree.BoundingBox
import Kdtree.NodeIds

/-!
# The dimension of every split

Cycling through the axes splits a node at depth `k` in dimension `k mod D`. The
other strategy splits a node in the first of the dimensions in which the samples
below it spread furthest, which it computes with loops of its own.
-/

namespace Kdtree

open SplitTree FirstMaximum

variable {K : Type} [Field K] [LinearOrder K]

/-- How far a box reaches in one dimension. -/
def Bounds.rangeIn (bounds : Bounds K) (d : ℕ) : K :=
  bounds.maxPoint.getValueAt d - bounds.minPoint.getValueAt d

/-- `highestRangeAxis` returns the first dimension in which the box of the segment
reaches furthest. -/
theorem highestRangeAxis_spec {segment : Segment K} {d : ℕ} (hcols : 0 < segment.samples.cols)
    (h : highestRangeAxis segment = .ok d) :
    ∃ bounds, Bounds.generate segment = .ok bounds ∧
      IsFirstMaximum bounds.rangeIn segment.samples.cols d := by
  obtain ⟨⟨maxValues, minValues⟩, hvalues, -⟩ := Fallible.bind_eq_ok_iff.mp h
  obtain ⟨d', hd, hmax⟩ := highestRangeAxis_of_values hvalues hcols
  obtain rfl : d' = d := Except.ok.inj (hd.symm.trans h)
  refine ⟨⟨⟨maxValues⟩, ⟨minValues⟩⟩, ?_, hmax⟩
  rw [Bounds.generate, hvalues]
  rfl

omit [Field K] [LinearOrder K] in
/-- The dimension after the last one used is the next one, cyclically. -/
theorem cycleThroughAxis_eq {segment : Segment K} {last : ℤ} {m d : ℕ} (hlast : last + 1 = m)
    (h : cycleThroughAxis segment last = .ok d) : d = m % segment.samples.cols := by
  by_cases hdims : segment.getNumDimensions = 0
  · rw [cycleThroughAxis, if_pos hdims] at h
    cases h
  · rw [cycleThroughAxis, if_neg hdims] at h
    obtain rfl := Except.ok.inj h
    rw [hlast, Segment.getNumDimensions, ← Int.ofNat_tmod, Int.toNat_natCast]

/-- An item at depth `k` of a tree that cycles through the axes: the dimension it was
handed comes before dimension `k`, cyclically. -/
structure CyclesAt (samples : Samples K) (k : ℕ) (item : DataToBuildNodes K) : Prop where
  /-- The matrix is handed down unchanged. -/
  samples_eq : item.samples = samples
  /-- So is the selector. -/
  selector_eq : item.dimensionSelectorType = .cycleThroughAxes
  /-- The item is for a node at that depth. -/
  atDepth : KDTree.AtDepth k item.nodeId
  /-- The next dimension is the depth, up to the number of dimensions. -/
  last : ∃ m : ℕ, item.lastDimensionUsedForSplitting + 1 = m ∧ m % samples.cols = k % samples.cols

variable {std : StdAlgorithms K}

namespace CyclesAt

variable {samples : Samples K} {k : ℕ} {item : DataToBuildNodes K} {d : ℕ}
  {sws : SplitWithSegments K}

/-- At depth `k` the item is split in dimension `k mod D`. -/
theorem dimension_eq (h : CyclesAt samples k item) (hsplit : SplitsAt std item d sws) :
    d = k % samples.cols := by
  obtain ⟨m, hlast, hmod⟩ := h.last
  have hget := hsplit.selected
  rw [h.selector_eq, DimensionSelectorByType.get] at hget
  rw [cycleThroughAxis_eq hlast hget, DataToBuildNodes.segment, h.samples_eq, hmod]

/-- The dimension an item is split in comes before that of its children. -/
theorem next (h : CyclesAt samples k item) (hsplit : SplitsAt std item d sws) :
    (d + 1) % samples.cols = (k + 1) % samples.cols := by
  rw [h.dimension_eq hsplit, Nat.mod_add_mod]

end CyclesAt

/-- Under cycling, every item that the recursion comes to is at some depth. -/
theorem Reached.exists_cyclesAt {samples : Samples K} {splittingMethod : SplittingMethod}
    {item : DataToBuildNodes K}
    (h : Reached std (rootItem samples .cycleThroughAxes splittingMethod) item) :
    ∃ k, CyclesAt samples k item := by
  induction h with
  | root => exact ⟨0, rfl, rfl, KDTree.atDepth_root, 0, rfl, rfl⟩
  | @less item d sws _ hsplit ih =>
    obtain ⟨k, h⟩ := ih
    exact ⟨k + 1, h.samples_eq, h.selector_eq, h.atDepth.left, d + 1, rfl, h.next hsplit⟩
  | @greater item d sws _ hsplit ih =>
    obtain ⟨k, h⟩ := ih
    exact ⟨k + 1, h.samples_eq, h.selector_eq, h.atDepth.right, d + 1, rfl, h.next hsplit⟩

/-- The matrix and the selector are handed down unchanged. -/
theorem Reached.handedDown {root item : DataToBuildNodes K} (h : Reached std root item) :
    item.samples = root.samples ∧ item.dimensionSelectorType = root.dimensionSelectorType := by
  induction h with
  | root => exact ⟨rfl, rfl⟩
  | less _ _ ih => exact ih
  | greater _ _ ih => exact ih

/-- By ranges, an item is split in the first dimension in which the bounding box of its
samples reaches furthest. -/
theorem SplitsAt.highestRange {item : DataToBuildNodes K} {d : ℕ} {sws : SplitWithSegments K}
    (hsplit : SplitsAt std item d sws) (hselector : item.dimensionSelectorType = .highestRangeAxis)
    (hcols : 0 < item.samples.cols) :
    ∃ bounds, Bounds.generate item.segment = .ok bounds ∧
      IsBox item.samples item.sampleIdsInSegment bounds ∧
      IsFirstMaximum bounds.rangeIn item.samples.cols sws.split.splitDimension := by
  have hget := hsplit.selected
  rw [hselector, DimensionSelectorByType.get] at hget
  obtain ⟨bounds, hbounds, hmax⟩ := highestRangeAxis_spec hcols hget
  rw [← hsplit.isSplit.dimension] at hmax
  exact ⟨bounds, hbounds, isBox_of_generate hbounds, hmax⟩

/-- Every internal node of a stored tree was made by splitting an item that the
recursion comes to, and what is stored below it is the tree over that item. -/
theorem BuiltFrom.exists_reached {root item : DataToBuildNodes K} {t : SplitTree (Split K) ℕ}
    {tree : KDTree K} {id : ℕ} {split : Split K} (h : BuiltFrom std item t)
    (hreached : Reached std root item) (hstored : tree.Stored item.nodeId t)
    (hnode : .internal id split ∈ layout item.nodeId t) :
    ∃ item' d sws t', Reached std root item' ∧ SplitsAt std item' d sws ∧ item'.nodeId = id ∧
      sws.split = split ∧ BuiltFrom std item' t' ∧ tree.Stored id t' := by
  induction h with
  | leaf hid => simp [layout_leaf] at hnode
  | @node item d sws l r hsplit hl hr ihl ihr =>
    obtain ⟨-, hstoredl, hstoredr⟩ := KDTree.stored_node_iff.mp hstored
    rw [layout_node, List.mem_cons, List.mem_append] at hnode
    rcases hnode with heq | hleft | hright
    · obtain ⟨rfl, rfl⟩ : id = item.nodeId ∧ split = sws.split := by simpa using heq
      exact ⟨item, d, sws, _, hreached, hsplit, rfl, rfl, .node hsplit hl hr, hstored⟩
    · exact ihl (hreached.less hsplit) hstoredl hleft
    · exact ihr (hreached.greater hsplit) hstoredr hright

variable [IsStrictOrderedRing K]

/-- The recursive builder terminates on all samples, and leaves a whole tree over them in
the array. Cycling through the axes, every internal node that is reached there at
depth `k` is split in dimension `k mod D`. By ranges, every such node is split in the
first dimension in which the bounding box of its segment, which is that of the samples
in the leaves below it, reaches furthest. -/
theorem buildUsingRecursion_splitDimensions (std : StdAlgorithms K) {samples : Samples K}
    (hrows : 0 < samples.rows) (hcols : 0 < samples.cols) (splittingMethod : SplittingMethod)
    (kdtree : KDTree K) :
    (∃ out : Build K,
      (∀ fuel ≥ samples.rows, buildUsingRecursion std fuel
        (rootItem samples .cycleThroughAxes splittingMethod) (.start kdtree) = .ok out) ∧
      out.HoldsTree samples.rows ∧
      ∀ id id' split, out.kdtree.Reachable id →
        out.kdtree.getNode id = some (.internal id' split) → (∃ k, KDTree.AtDepth k id) ∧
        ∀ k, KDTree.AtDepth k id → split.splitDimension = k % samples.cols) ∧
    ∃ out : Build K,
      (∀ fuel ≥ samples.rows, buildUsingRecursion std fuel
        (rootItem samples .highestRangeAxis splittingMethod) (.start kdtree) = .ok out) ∧
      out.HoldsTree samples.rows ∧
      ∀ id id' split, out.kdtree.Reachable id →
        out.kdtree.getNode id = some (.internal id' split) → ∃ item bounds,
        Reached std (rootItem samples .highestRangeAxis splittingMethod) item ∧
        item.nodeId = id ∧ Bounds.generate item.segment = .ok bounds ∧
        (∀ j < samples.cols,
          IsGreatest (out.kdtree.coefficientsBelow samples id j) (bounds.maxPoint.getValueAt j) ∧
          IsLeast (out.kdtree.coefficientsBelow samples id j) (bounds.minPoint.getValueAt j)) ∧
        IsFirstMaximum bounds.rangeIn samples.cols split.splitDimension := by
  constructor
  · obtain ⟨t, out, ht, hbuild, -, hstored, hholds⟩ :=
      exists_build_rootItem std hrows hcols .cycleThroughAxes splittingMethod kdtree
    refine ⟨out, hbuild, hholds, fun id id' split hreachable hnode => ?_⟩
    obtain rfl : id' = id := out.kdtree.id_eq hnode
    have hlayout := hstored.mem_layout_of_reachable hreachable hnode
    obtain ⟨item, d, sws, t', hreached, hsplit, rfl, rfl, -, -⟩ :=
      ht.exists_reached .root hstored hlayout
    obtain ⟨k, h⟩ := hreached.exists_cyclesAt
    refine ⟨⟨k, h.atDepth⟩, fun k' hdepth => ?_⟩
    rw [hsplit.isSplit.dimension, h.dimension_eq hsplit, hdepth.unique h.atDepth]
  · obtain ⟨t, out, ht, hbuild, -, hstored, hholds⟩ :=
      exists_build_rootItem std hrows hcols .highestRangeAxis splittingMethod kdtree
    refine ⟨out, hbuild, hholds, fun id id' split hreachable hnode => ?_⟩
    obtain rfl : id' = id := out.kdtree.id_eq hnode
    have hlayout := hstored.mem_layout_of_reachable hreachable hnode
    obtain ⟨item, d, sws, t', hreached, hsplit, rfl, rfl, ht', hstored'⟩ :=
      ht.exists_reached .root hstored hlayout
    obtain ⟨hsamples, hselector⟩ := hreached.handedDown
    obtain ⟨bounds, hbounds, hbox, hmax⟩ := hsplit.highestRange hselector (hsamples ▸ hcols)
    have hbelow := (hbox.perm ht'.leaves_perm.symm)
    rw [hsamples] at hbelow hmax
    refine ⟨item, bounds, hreached, rfl, hbounds, fun j hj => ?_, hmax⟩
    have hcoefficients := hstored'.coefficientsBelow_eq samples j
    exact ⟨hcoefficients ▸ hbelow.isGreatest j hj, hcoefficients ▸ hbelow.isLeast j hj⟩

/-- The split dimensions in the two trees over the three samples. -/
theorem diagonal_splitDimensions :
    (∃ out : Build ℚ,
      (∀ fuel ≥ 3, buildUsingRecursion .sorting fuel
        (rootItem diagonalSamples .cycleThroughAxes .median) (.start (.create 1)) = .ok out) ∧
      out.HoldsTree 3 ∧
      ∀ id id' split, out.kdtree.Reachable id →
        out.kdtree.getNode id = some (.internal id' split) → (∃ k, KDTree.AtDepth k id) ∧
        ∀ k, KDTree.AtDepth k id → split.splitDimension = k % 3) ∧
    ∃ out : Build ℚ,
      (∀ fuel ≥ 3, buildUsingRecursion .sorting fuel
        (rootItem diagonalSamples .highestRangeAxis .median) (.start (.create 1)) = .ok out) ∧
      out.HoldsTree 3 ∧
      ∀ id id' split, out.kdtree.Reachable id →
        out.kdtree.getNode id = some (.internal id' split) → ∃ item bounds,
        Reached .sorting (rootItem diagonalSamples .highestRangeAxis .median) item ∧
        item.nodeId = id ∧ Bounds.generate item.segment = .ok bounds ∧
        (∀ j < 3,
          IsGreatest (out.kdtree.coefficientsBelow diagonalSamples id j)
            (bounds.maxPoint.getValueAt j) ∧
          IsLeast (out.kdtree.coefficientsBelow diagonalSamples id j)
            (bounds.minPoint.getValueAt j)) ∧
        IsFirstMaximum bounds.rangeIn 3 split.splitDimension :=
  buildUsingRecursion_splitDimensions .sorting diagonalSamples_pos.1 diagonalSamples_pos.2 .median
    (.create 1)

end Kdtree
