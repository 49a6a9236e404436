import Kdtree.BuildSpec
import Mathlib.Order.Bounds.Basic

/-!
# Bounding boxes in a built tree

A box is computed from a segment before the subtree below it exists. Since the
leaves of that subtree hold exactly the samples of the segment, the box of each
side of a split is the bounding box of the samples stored below that side, and
the splitting plane runs between the two boxes.
-/

namespace Kdtree

open SplitTree

variable {K : Type}

/-- The entries of some rows in one column. -/
def Samples.entriesAt (samples : Samples K) (ids : List ℕ) (j : ℕ) : Set K :=
  {x | ∃ i ∈ ids, samples.coeff i j = x}

/-- One more row adds one entry to every column. -/
theorem Samples.entriesAt_cons (samples : Samples K) (i : ℕ) (ids : List ℕ) (j : ℕ) :
    samples.entriesAt (i :: ids) j = insert (samples.coeff i j) (samples.entriesAt ids j) := by
  ext x
  simp [entriesAt, eq_comm]

/-- The order of the rows does not matter to their entries. -/
theorem Samples.entriesAt_perm (samples : Samples K) {ids ids' : List ℕ} (hperm : ids.Perm ids')
    (j : ℕ) : samples.entriesAt ids j = samples.entriesAt ids' j := by
  ext x
  simp [entriesAt, hperm.mem_iff]

variable [Field K]

variable [LinearOrder K]

/-- The bounding box of some samples: in each dimension, the largest and the
smallest of their coefficients. -/
structure IsBox (samples : Samples K) (ids : List ℕ) (bounds : Bounds K) : Prop where
  /-- The largest corner has a coefficient for each dimension. -/
  maxPoint_length : bounds.maxPoint.coefficients.length = samples.cols
  /-- The smallest corner has a coefficient for each dimension. -/
  minPoint_length : bounds.minPoint.coefficients.length = samples.cols
  /-- The largest corner holds the largest coefficients. -/
  isGreatest : ∀ j < samples.cols,
    IsGreatest (samples.entriesAt ids j) (bounds.maxPoint.getValueAt j)
  /-- The smallest corner holds the smallest coefficients. -/
  isLeast : ∀ j < samples.cols, IsLeast (samples.entriesAt ids j) (bounds.minPoint.getValueAt j)

/-- The order of the samples does not matter to their bounding box. -/
theorem IsBox.perm {samples : Samples K} {ids ids' : List ℕ} {bounds : Bounds K}
    (h : IsBox samples ids bounds) (hperm : ids.Perm ids') : IsBox samples ids' bounds where
  maxPoint_length := h.maxPoint_length
  minPoint_length := h.minPoint_length
  isGreatest j hj := samples.entriesAt_perm hperm j ▸ h.isGreatest j hj
  isLeast j hj := samples.entriesAt_perm hperm j ▸ h.isLeast j hj

/-- The coefficients of a sample lie between the corners of its box. -/
theorem IsBox.coeff_mem {samples : Samples K} {ids : List ℕ} {bounds : Bounds K}
    (h : IsBox samples ids bounds) {i j : ℕ} (hi : i ∈ ids) (hj : j < samples.cols) :
    bounds.minPoint.getValueAt j ≤ samples.coeff i j ∧
      samples.coeff i j ≤ bounds.maxPoint.getValueAt j :=
  ⟨(h.isLeast j hj).2 ⟨i, hi, rfl⟩, (h.isGreatest j hj).2 ⟨i, hi, rfl⟩⟩

/-- A single sample is its own bounding box. -/
theorem isBox_singleton (samples : Samples K) (i : ℕ) :
    IsBox samples [i] ⟨⟨(List.range samples.cols).map (samples.coeff i)⟩,
      ⟨(List.range samples.cols).map (samples.coeff i)⟩⟩ := by
  have hentries (j : ℕ) : samples.entriesAt [i] j = {samples.coeff i j} := by
    ext x
    simp [Samples.entriesAt, eq_comm]
  refine ⟨by simp, by simp, fun j hj => ?_, fun j hj => ?_⟩
  · rw [hentries, getValueAt_map_range _ hj]
    exact isGreatest_singleton
  · rw [hentries, getValueAt_map_range _ hj]
    exact isLeast_singleton

/-- One round of the loop stretches the box to one more sample. -/
theorem IsBox.stretchValues {samples : Samples K} {ids : List ℕ} {values : List K × List K}
    (h : IsBox samples ids ⟨⟨values.1⟩, ⟨values.2⟩⟩) (i : ℕ) :
    IsBox samples (i :: ids) ⟨⟨(stretchValues samples values i).1⟩,
      ⟨(stretchValues samples values i).2⟩⟩ := by
  refine ⟨by simp [Kdtree.stretchValues], by simp [Kdtree.stretchValues], fun j hj => ?_,
    fun j hj => ?_⟩
  · have hmax : Point.getValueAt ⟨(Kdtree.stretchValues samples values i).1⟩ j =
        max (samples.coeff i j) (Point.getValueAt ⟨values.1⟩ j) := by
      rw [Kdtree.stretchValues, getValueAt_map_range _ hj, max_comm, max_def_lt]
      rfl
    rw [samples.entriesAt_cons, hmax]
    exact (h.isGreatest j hj).insert _
  · have hmin : Point.getValueAt ⟨(Kdtree.stretchValues samples values i).2⟩ j =
        min (samples.coeff i j) (Point.getValueAt ⟨values.2⟩ j) := by
      rw [Kdtree.stretchValues, getValueAt_map_range _ hj, min_def_lt]
      rfl
    rw [samples.entriesAt_cons, hmin]
    exact (h.isLeast j hj).insert _

/-- The whole loop stretches the box to all samples it runs over. -/
theorem IsBox.foldl_stretchValues {samples : Samples K} {ids : List ℕ}
    (values : List K × List K) (h : IsBox samples ids ⟨⟨values.1⟩, ⟨values.2⟩⟩)
    (rest : List ℕ) :
    IsBox samples (rest ++ ids) ⟨⟨(rest.foldl (Kdtree.stretchValues samples) values).1⟩,
      ⟨(rest.foldl (Kdtree.stretchValues samples) values).2⟩⟩ := by
  induction rest generalizing ids values with
  | nil => exact h
  | cons i rest ih => exact (ih _ (h.stretchValues i)).perm List.perm_middle

/-- `Bounds::generate` computes the bounding box. -/
theorem isBox_of_generate {segment : Segment K} {bounds : Bounds K}
    (h : Bounds.generate segment = .ok bounds) :
    IsBox segment.samples segment.sampleIdsInSegment bounds := by
  unfold Bounds.generate extremeValues at h
  cases hids : segment.sampleIdsInSegment with
  | nil =>
    rw [hids] at h
    cases h
  | cons first rest =>
    rw [hids] at h
    simp only [bind, Except.bind, pure, Except.pure, Except.ok.injEq] at h
    rw [← h]
    have hbox := IsBox.foldl_stretchValues (_, _) (isBox_singleton segment.samples first) rest
    exact hbox.perm (List.perm_append_singleton _ _)

/-- What the split of an inner node has to do with the samples on its two sides. -/
structure SplitFits (samples : Samples K) (split : Split K) (less greater : List ℕ) : Prop where
  /-- The split dimension is one of the matrix's. -/
  dimension_lt : split.splitDimension < samples.cols
  /-- The split point has a coefficient for each dimension. -/
  splitPoint_length : split.splitPoint.coefficients.length = samples.cols
  /-- The left bounds are the bounding box of the less side. -/
  left : IsBox samples less split.leftBounds
  /-- The right bounds are the bounding box of the greater side. -/
  right : IsBox samples greater split.rightBounds
  /-- The less side does not reach above the plane. -/
  le_splitPoint : split.leftBounds.maxPoint.getValueAt split.splitDimension ≤
    split.splitPoint.getValueAt split.splitDimension
  /-- The greater side does not reach below the plane. -/
  splitPoint_le : split.splitPoint.getValueAt split.splitDimension ≤
    split.rightBounds.minPoint.getValueAt split.splitDimension

/-- The split of a valid item fits the two sides it was made with. -/
theorem SplitsAt.splitFits {std : StdAlgorithms K} {item : DataToBuildNodes K} {d : ℕ}
    {sws : SplitWithSegments K} (hsplit : SplitsAt std item d sws) (hvalid : item.Valid) :
    SplitFits item.samples sws.split sws.lessIds sws.greaterIds := by
  have hd := hvalid.dimension_lt hsplit
  have hisSplit := hsplit.isSplit
  have hleft := isBox_of_generate hisSplit.left
  have hright := isBox_of_generate hisSplit.right
  obtain ⟨i, hi, hmax⟩ := (hleft.isGreatest d hd).1
  obtain ⟨k, hk, hmin⟩ := (hright.isLeast d hd).1
  refine ⟨by rwa [hisSplit.dimension], getSplitPoint_length hisSplit.point, hleft, hright, ?_, ?_⟩
  · rw [hisSplit.dimension, ← hmax]
    exact hisSplit.le_threshold hi
  · rw [hisSplit.dimension, ← hmin]
    exact hisSplit.threshold_le hk

/-- The split of an inner node fits the samples of the leaves on its two sides. -/
theorem SplitFits.perm {samples : Samples K} {split : Split K}
    {less less' greater greater' : List ℕ}
    (h : SplitFits samples split less greater) (hless : less.Perm less')
    (hgreater : greater.Perm greater') : SplitFits samples split less' greater' :=
  { h with left := h.left.perm hless, right := h.right.perm hgreater }

/-- In a stored tree, an internal node is the root of a subtree that is stored below it. -/
theorem KDTree.Stored.exists_subtree {K : Type} {tree : KDTree K} {root id : ℕ} {split : Split K}
    {t : SplitTree (Split K) ℕ} {P : Split K → List ℕ → List ℕ → Prop}
    (hstored : tree.Stored root t) (hP : t.ForallNodes P)
    (hnode : .internal id split ∈ layout root t) :
    ∃ l r, P split l.leaves r.leaves ∧ tree.Stored (KDTree.leftNodeId id) l ∧
      tree.Stored (KDTree.rightNodeId id) r ∧ l.leaves ⊆ t.leaves ∧ r.leaves ⊆ t.leaves := by
  induction t generalizing root with
  | leaf sampleId => simp [layout_leaf] at hnode
  | node s l r ihl ihr =>
    obtain ⟨-, hl, hr⟩ := KDTree.stored_node_iff.mp hstored
    have hsubl : l.leaves ⊆ (SplitTree.node s l r).leaves := List.subset_append_left _ _
    have hsubr : r.leaves ⊆ (SplitTree.node s l r).leaves := List.subset_append_right _ _
    rw [layout_node, List.mem_cons, List.mem_append] at hnode
    rcases hnode with heq | hleft | hright
    · obtain ⟨rfl, rfl⟩ : id = root ∧ split = s := by simpa using heq
      exact ⟨l, r, hP.1, hl, hr, hsubl, hsubr⟩
    · obtain ⟨l', r', hPs, hl', hr', hsub, hsub'⟩ := ihl hl hP.2.1 hleft
      exact ⟨l', r', hPs, hl', hr', List.Subset.trans hsub hsubl, List.Subset.trans hsub' hsubl⟩
    · obtain ⟨l', r', hPs, hl', hr', hsub, hsub'⟩ := ihr hr hP.2.2 hright
      exact ⟨l', r', hPs, hl', hr', List.Subset.trans hsub hsubr, List.Subset.trans hsub' hsubr⟩

variable [IsStrictOrderedRing K]

/-- Every split of the tree over a valid item fits the samples below it. -/
theorem BuiltFrom.forallNodes {std : StdAlgorithms K} {item : DataToBuildNodes K}
    {t : SplitTree (Split K) ℕ} (h : BuiltFrom std item t) (hvalid : item.Valid) :
    t.ForallNodes (SplitFits item.samples) := by
  induction h with
  | leaf hid => trivial
  | @node item d sws l r hsplit hl hr ihl ihr =>
    refine ⟨?_, ihl (hvalid.lessChild hsplit), ihr (hvalid.greaterChild hsplit)⟩
    exact (hsplit.splitFits hvalid).perm hl.leaves_perm.symm hr.leaves_perm.symm

/-- The coefficients in one dimension of the samples reached from a slot. -/
def KDTree.coefficientsBelow (kdTree : KDTree K) (samples : Samples K) (id j : ℕ) : Set K :=
  {x | ∃ s : ℤ, kdTree.LeafBelow id s ∧ samples.coeff s.toNat j = x}

omit [Field K] [LinearOrder K] [IsStrictOrderedRing K] in
/-- The samples reached from the root of a stored tree are those of its leaves. -/
theorem KDTree.Stored.coefficientsBelow_eq {tree : KDTree K} {root : ℕ}
    {t : SplitTree (Split K) ℕ} (h : tree.Stored root t) (samples : Samples K) (j : ℕ) :
    tree.coefficientsBelow samples root j = samples.entriesAt t.leaves j := by
  ext x
  constructor
  · rintro ⟨s, hs, rfl⟩
    obtain ⟨i, hi, rfl⟩ := h.leafBelow_iff.mp hs
    exact ⟨i, hi, rfl⟩
  · rintro ⟨i, hi, rfl⟩
    exact ⟨i, h.leafBelow_iff.mpr ⟨i, hi, rfl⟩, rfl⟩

/-- The recursive builder terminates on all samples, and leaves a whole tree over them in
the array. Every internal node that is reached there has the bounds of the samples
reached through its left and through its right child as its left and its right
bounds. The splitting plane separates those samples, and lies between the two boxes. -/
theorem buildUsingRecursion_boundingBoxes (std : StdAlgorithms K) {samples : Samples K}
    (hrows : 0 < samples.rows) (hcols : 0 < samples.cols)
    (dimensionSelectorType : DimensionSelectorType) (splittingMethod : SplittingMethod)
    (kdtree : KDTree K) :
    ∃ out : Build K,
      (∀ fuel ≥ samples.rows, buildUsingRecursion std fuel
        (rootItem samples dimensionSelectorType splittingMethod) (.start kdtree) = .ok out) ∧
      out.HoldsTree samples.rows ∧
      ∀ id id' split, out.kdtree.Reachable id →
        out.kdtree.getNode id = some (.internal id' split) →
        split.splitDimension < samples.cols ∧
        (∀ s, out.kdtree.LeafBelow (KDTree.leftNodeId id) s ∨
          out.kdtree.LeafBelow (KDTree.rightNodeId id) s → 0 ≤ s ∧ s < samples.rows) ∧
        (∀ j < samples.cols,
          IsGreatest (out.kdtree.coefficientsBelow samples (KDTree.leftNodeId id) j)
            (split.leftBounds.maxPoint.getValueAt j) ∧
          IsLeast (out.kdtree.coefficientsBelow samples (KDTree.leftNodeId id) j)
            (split.leftBounds.minPoint.getValueAt j) ∧
          IsGreatest (out.kdtree.coefficientsBelow samples (KDTree.rightNodeId id) j)
            (split.rightBounds.maxPoint.getValueAt j) ∧
          IsLeast (out.kdtree.coefficientsBelow samples (KDTree.rightNodeId id) j)
            (split.rightBounds.minPoint.getValueAt j)) ∧
        split.leftBounds.maxPoint.getValueAt split.splitDimension ≤
          split.splitPoint.getValueAt split.splitDimension ∧
        split.splitPoint.getValueAt split.splitDimension ≤
          split.rightBounds.minPoint.getValueAt split.splitDimension := by
  have hvalid := rootItem_valid hrows hcols dimensionSelectorType splittingMethod
  obtain ⟨t, out, ht, hbuild, -, hstored, hholds⟩ :=
    exists_build_rootItem std hrows hcols dimensionSelectorType splittingMethod kdtree
  refine ⟨out, hbuild, hholds, fun id id' split hreachable hnode => ?_⟩
  obtain rfl : id' = id := out.kdtree.id_eq hnode
  obtain ⟨l, r, hfits, hl, hr, hlt, hrt⟩ := hstored.exists_subtree (ht.forallNodes hvalid)
    (hstored.mem_layout_of_reachable hreachable hnode)
  refine ⟨hfits.dimension_lt, ?_, fun j hj => ?_, hfits.le_splitPoint, hfits.splitPoint_le⟩
  · rintro s (hs | hs)
    · obtain ⟨i, hi, rfl⟩ := hl.leafBelow_iff.mp hs
      exact ⟨by omega, by exact_mod_cast ht.mem_leaves_iff.mp (hlt hi)⟩
    · obtain ⟨i, hi, rfl⟩ := hr.leafBelow_iff.mp hs
      exact ⟨by omega, by exact_mod_cast ht.mem_leaves_iff.mp (hrt hi)⟩
  · have hleft := hl.coefficientsBelow_eq samples j
    have hright := hr.coefficientsBelow_eq samples j
    exact ⟨hleft ▸ hfits.left.isGreatest j hj, hleft ▸ hfits.left.isLeast j hj,
      hright ▸ hfits.right.isGreatest j hj, hright ▸ hfits.right.isLeast j hj⟩

/-- The bounding boxes in the tree over the three samples. -/
theorem diagonal_boundingBoxes :
    ∃ out : Build ℚ,
      (∀ fuel ≥ 3, buildUsingRecursion .sorting fuel
        (rootItem diagonalSamples .highestRangeAxis .median) (.start (.create 1)) = .ok out) ∧
      out.HoldsTree 3 ∧
      ∀ id id' split, out.kdtree.Reachable id →
        out.kdtree.getNode id = some (.internal id' split) →
        split.splitDimension < 3 ∧
        (∀ s, out.kdtree.LeafBelow (KDTree.leftNodeId id) s ∨
          out.kdtree.LeafBelow (KDTree.rightNodeId id) s → 0 ≤ s ∧ s < (3 : ℕ)) ∧
        (∀ j < 3,
          IsGreatest (out.kdtree.coefficientsBelow diagonalSamples (KDTree.leftNodeId id) j)
            (split.leftBounds.maxPoint.getValueAt j) ∧
          IsLeast (out.kdtree.coefficientsBelow diagonalSamples (KDTree.leftNodeId id) j)
            (split.leftBounds.minPoint.getValueAt j) ∧
          IsGreatest (out.kdtree.coefficientsBelow diagonalSamples (KDTree.rightNodeId id) j)
            (split.rightBounds.maxPoint.getValueAt j) ∧
          IsLeast (out.kdtree.coefficientsBelow diagonalSamples (KDTree.rightNodeId id) j)
            (split.rightBounds.minPoint.getValueAt j)) ∧
        split.leftBounds.maxPoint.getValueAt split.splitDimension ≤
          split.splitPoint.getValueAt split.splitDimension ∧
        split.splitPoint.getValueAt split.splitDimension ≤
          split.rightBounds.minPoint.getValueAt split.splitDimension :=
  buildUsingRecursion_boundingBoxes .sorting diagonalSamples_pos.1 diagonalSamples_pos.2
    .highestRangeAxis .median (.create 1)

end Kdtree
