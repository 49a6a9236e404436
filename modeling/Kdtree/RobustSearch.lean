import Kdtree.SearchSpec
import Kdtree.WellShaped

/-!
# Search with inaccurate boxes

When the boxes in the array hold the samples below them only up to an error, the
distance to the reported sample exceeds the least distance by at most that error
in the norm.
-/

namespace Kdtree

open SplitTree

/-- The boxes that the search compares a query with hold the samples below them,
up to an error in each coordinate. -/
def KDTree.BoxesWithin (tree : KDTree ℝ) (samples : Samples ℝ) (δ : ℝ) : Prop :=
  ∀ id id' split, tree.Reachable id → tree.getNode id = some (.internal id' split) →
    (∀ i : ℕ, tree.LeafBelow (KDTree.leftNodeId id) i →
      split.leftBox.ContainsWithin δ ((Segment.ofSamples samples).getPoint i)) ∧
    ∀ i : ℕ, tree.LeafBelow (KDTree.rightNodeId id) i →
      split.rightBox.ContainsWithin δ ((Segment.ofSamples samples).getPoint i)

/-- The squared distances from a query to the samples in reachable leaves. -/
def KDTree.reachableDistances (tree : KDTree ℝ) (samples : Samples ℝ) (query : Point ℝ) : Set ℝ :=
  {x | ∃ i : ℕ, tree.LeafBelow 0 i ∧
    Point.squaredDistance ((Segment.ofSamples samples).getPoint i) query = x}

/-- The search in a well shaped array terminates. If the boxes hold the samples below them up
to an error of `δ` in each of the `D` coordinates, the distance that is reported is at most
`δ * √D` larger than the least distance to a reachable sample. -/
theorem findNearestNeighbor_within {samples : Samples ℝ} {kdTree : KDTree ℝ} {query : Point ℝ}
    {δ : ℝ} (hδ : 0 ≤ δ) (hquery : query.coefficients.length = samples.cols)
    (hshape : kdTree.WellShaped samples) (hboxes : kdTree.BoxesWithin samples δ) :
    ∃ out r m, (∃ rounds, ∀ fuel ≥ rounds,
        findNearestNeighbor fuel samples kdTree query = .ok out) ∧
      out.squaredDistance = (r : ℝ) ∧
      IsLeast (kdTree.reachableDistances samples query) m ∧
      √r ≤ √m + δ * √samples.cols := by
  obtain ⟨t, hstored, hrows, hsplits⟩ := hshape.exists_stored
  obtain ⟨s, hs, hvisit, hsearch⟩ := findNearestNeighbor_stored hstored hrows hquery
  have hlen (i : ℕ) : query.coefficients.length =
      ((Segment.ofSamples samples).getPoint i).coefficients.length := by
    rw [hquery, Segment.getPoint_length]
    rfl
  obtain ⟨a, ha, hleast⟩ : ∃ a ∈ t.leaves, ∀ i ∈ t.leaves,
      sampleDistance samples query a ≤ sampleDistance samples query i := by
    have hne : t.leaves.toFinset.Nonempty := ⟨s, by simpa using hs⟩
    simpa using t.leaves.toFinset.exists_min_image (sampleDistance samples query) hne
  -- A cost is good enough when its root exceeds that of the least one by the error at most.
  have hbound {bounds : Bounds ℝ}
      (hin : bounds.ContainsWithin δ ((Segment.ofSamples samples).getPoint a)) (c : ℝ)
      (hc : ¬√c ≤ √(sampleDistance samples query a) + δ * √samples.cols) :
      bounds.distanceFromPoint query ≤ c := by
    have hbox := Bounds.sqrt_distanceFromPoint_le hδ hin (hlen a)
    rw [hquery] at hbox
    by_contra hlt
    exact hc ((Real.sqrt_le_sqrt (not_le.mp hlt).le).trans hbox)
  obtain ⟨b, hb, hgood⟩ : ∃ b, t.visit (sampleDistance samples query)
      (fun split => split.getDistancesFromSplits query) none = some b ∧
      √(sampleDistance samples query b) ≤
        √(sampleDistance samples query a) + δ * √samples.cols := by
    refine visit_finds_good (fun c => √c ≤ √(sampleDistance samples query a) + δ * √samples.cols)
      (fun hle hc => (Real.sqrt_le_sqrt hle).trans hc) ha
      (le_add_of_nonneg_right (by positivity)) (hsplits.imp ?_) none
    rintro split l r ⟨id, hid, hnode, hl, hr⟩
    obtain ⟨hleft, hright⟩ := hboxes id id split hid hnode
    exact ⟨fun hal => hbound (hleft a (hl a hal)), fun har => hbound (hright a (hr a har))⟩
  obtain rfl : s = b := Option.some.inj (hvisit.symm.trans hb)
  refine ⟨_, _, _, ⟨_, hsearch⟩, rfl, ⟨⟨a, hstored.leafBelow_iff.mpr ⟨a, ha, rfl⟩, rfl⟩, ?_⟩, hgood⟩
  rintro x ⟨i, hi, rfl⟩
  obtain ⟨j, hj, hij⟩ := hstored.leafBelow_iff.mp hi
  obtain rfl : i = j := by exact_mod_cast hij
  exact hleast i hj

/-- In a stored tree it is enough to check the boxes node by node. -/
theorem KDTree.Stored.boxesWithin {tree : KDTree ℝ} {samples : Samples ℝ} {δ : ℝ}
    {t : SplitTree (Split ℝ) ℕ} (hstored : tree.Stored 0 t)
    (hboxes : t.ForallNodes fun split less greater =>
      (∀ i ∈ less, split.leftBox.ContainsWithin δ ((Segment.ofSamples samples).getPoint i)) ∧
      ∀ i ∈ greater, split.rightBox.ContainsWithin δ ((Segment.ofSamples samples).getPoint i)) :
    tree.BoxesWithin samples δ := by
  intro id id' split hid hnode
  obtain ⟨l, r, ⟨hleft, hright⟩, hl, hr⟩ := hstored.children_of_reachable hboxes hid hnode
  constructor
  · intro i hi
    obtain ⟨j, hj, hij⟩ := hl.leafBelow_iff.mp hi
    obtain rfl : i = j := by exact_mod_cast hij
    exact hleft i hj
  · intro i hi
    obtain ⟨j, hj, hij⟩ := hr.leafBelow_iff.mp hi
    obtain rfl : i = j := by exact_mod_cast hij
    exact hright i hj

/-- Two samples in one dimension. -/
def unitSamples : Samples ℝ where
  rows := 2
  cols := 1
  coeff := fun i _ => i

/-- A split of the two samples whose boxes miss them by a quarter at most; the
left box is inverted. -/
noncomputable def unitSplit : Split ℝ where
  splitDimension := 0
  splitPoint := ⟨[1 / 16]⟩
  leftBounds := ⟨⟨[0]⟩, ⟨[1 / 8]⟩⟩
  rightBounds := ⟨⟨[3 / 4]⟩, ⟨[1]⟩⟩

/-- The array with that split and its two leaves. -/
noncomputable def unitTree : KDTree ℝ :=
  ((Build.start (.create 3)).write (layout 0 (.node unitSplit (.leaf 0) (.leaf 1)))).kdtree

/-- The search on that array, for a query between the two samples. -/
theorem findNearestNeighbor_unitTree :
    ∃ out r m, (∃ rounds, ∀ fuel ≥ rounds,
        findNearestNeighbor fuel unitSamples unitTree ⟨[1 / 2]⟩ = .ok out) ∧
      out.squaredDistance = (r : ℝ) ∧
      IsLeast (unitTree.reachableDistances unitSamples ⟨[1 / 2]⟩) m ∧
      √r ≤ √m + 1 / 4 * √(1 : ℕ) := by
  have hstored : unitTree.Stored 0 (.node unitSplit (.leaf 0) (.leaf 1)) :=
    stored_write (.start (.create 3)) 0 _
  have hfinite : ∀ id ≥ 3, unitTree.getNode id = none :=
    getNode_write_create (by simp [layout_node, layout_leaf, KDTree.leftNodeId, KDTree.rightNodeId])
  refine findNearestNeighbor_within (by norm_num) rfl
    (hstored.wellShaped ⟨3, hfinite⟩ ?_ ⟨?_, trivial, trivial⟩)
    (hstored.boxesWithin ⟨⟨?_, ?_⟩, trivial, trivial⟩)
  · simp [leaves, unitSamples]
  · constructor <;> simp [unitSplit, unitSamples]
  · intro i hi j hj
    obtain rfl : i = 0 := by simpa [leaves] using hi
    obtain rfl : j = 0 := by simpa [unitSamples, Segment.ofSamples] using hj
    norm_num [unitSplit, unitSamples, Split.leftBox, Point.getValueAt, Segment.getPoint,
      Segment.ofSamples, Segment.getNumDimensions]
  · intro i hi j hj
    obtain rfl : i = 1 := by simpa [leaves] using hi
    obtain rfl : j = 0 := by simpa [unitSamples, Segment.ofSamples] using hj
    norm_num [unitSplit, unitSamples, Split.rightBox, Point.getValueAt, Segment.getPoint,
      Segment.ofSamples, Segment.getNumDimensions]

end Kdtree
