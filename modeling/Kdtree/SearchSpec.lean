import Kdtree.BoxDistance
import Kdtree.Stored
import Kdtree.General.BranchAndBound

/-!
# The search as branch and bound

The loop with its stack, run on a stored tree, computes the depth-first branch
and bound of that tree: popping the root of a subtree and going on until the
stack below it is uncovered changes the best sample as a visit of the subtree does.
-/

namespace Kdtree

open SplitTree

variable {K : Type}

/-- A row below the number of rows can be read. -/
theorem Samples.row_natCast (samples : Samples K) {i : ℕ} (hi : i < samples.rows) :
    samples.row i = .ok ((Segment.ofSamples samples).getPoint i) := by
  have hcond : (0 : ℤ) ≤ i ∧ (i : ℤ) < samples.rows := by omega
  rw [row, if_pos hcond, Int.toNat_natCast]

/-- The root of a stored tree is in the array. -/
theorem KDTree.Stored.exists_root {tree : KDTree K} {root : ℕ} {t : SplitTree (Split K) ℕ}
    (h : tree.Stored root t) : ∃ node, tree.getNode root = some node := by
  cases t with
  | leaf i => exact ⟨_, KDTree.stored_leaf_iff.mp h⟩
  | node s l r => exact ⟨_, (KDTree.stored_node_iff.mp h).1⟩

variable [Field K] [LinearOrder K]

/-- A leaf replaces the best sample when its own is strictly closer. -/
theorem visitLeaf_eq {samples : Samples K} {point : Point K} {sampleId : ℤ}
    (hrow : samples.row sampleId = .ok point) (query : Point K) (nearest : NearestNeighbor K) :
    visitLeaf samples query sampleId nearest =
      .ok (if (Point.squaredDistance point query : K) < nearest.squaredDistance then
        ⟨sampleId, point, (Point.squaredDistance point query : K)⟩ else nearest) := by
  rw [visitLeaf, hrow, apply_ite Except.ok]
  rfl

/-- The best sample of the loop is the best leaf of a visit. -/
structure Reports (samples : Samples K) (query : Point K) (nearest : NearestNeighbor K)
    (best : Option ℕ) : Prop where
  /-- The distance belongs to that sample, and is infinite without one. -/
  squaredDistance_eq : nearest.squaredDistance = leastCost (sampleDistance samples query) best
  /-- The id is that of the sample. -/
  sampleId_eq : ∀ i ∈ best, nearest.sampleId = i
  /-- The point is its row. -/
  point_eq : ∀ i ∈ best, nearest.point = (Segment.ofSamples samples).getPoint i

/-- At a leaf the loop and the visit replace the best sample alike. -/
theorem Reports.visitLeaf {samples : Samples K} {query : Point K} {nearest : NearestNeighbor K}
    {best : Option ℕ} (h : Reports samples query nearest best) {i : ℕ} (hi : i < samples.rows) :
    ∃ nearest', Kdtree.visitLeaf samples query i nearest = .ok nearest' ∧
      Reports samples query nearest' (better (sampleDistance samples query) best i) := by
  refine ⟨_, visitLeaf_eq (samples.row_natCast hi) query nearest, ?_⟩
  rw [better, ← h.squaredDistance_eq, sampleDistance]
  split_ifs
  · exact ⟨rfl, by simp, by simp⟩
  · exact h

/-- What a round does when it popped a leaf. -/
theorem exploreNode_leaf {samples : Samples K} {query : Point K}
    {nearest nearest' : NearestNeighbor K} {sampleId : ℤ}
    (hvisit : visitLeaf samples query sampleId nearest = .ok nearest')
    (kdTree : KDTree K) (id : ℕ) (rest : List (Node K)) :
    exploreNode samples kdTree query (.leaf id sampleId) ⟨rest, nearest⟩ =
      .ok ⟨rest, nearest'⟩ := by
  simp only [exploreNode, Node.getType_leaf, Node.getSampleId, hvisit, bind, Except.bind, pure,
    Except.pure]

/-- What a round does when it popped an internal node whose children are in the array. -/
theorem exploreNode_internal {kdTree : KDTree K} {id : ℕ} {left right : Node K}
    (hleft : kdTree.getNode (KDTree.leftNodeId id) = some left)
    (hright : kdTree.getNode (KDTree.rightNodeId id) = some right) (samples : Samples K)
    (query : Point K) (split : Split K) (rest : List (Node K)) (nearest : NearestNeighbor K) :
    exploreNode samples kdTree query (.internal id split) ⟨rest, nearest⟩ =
      .ok ⟨childrenToExplore left right (split.getDistancesFromSplits query)
        nearest.squaredDistance ++ rest, nearest⟩ := by
  simp only [exploreNode, Node.getType_internal, Node.getId_internal, KDTree.lookup, hleft, hright,
    Node.getSplit, Option.elim, bind, Except.bind, pure, Except.pure]

/-- One round of the loop at a leaf. -/
theorem exploreLoop_leaf {samples : Samples K} {kdTree : KDTree K} {query : Point K}
    {nearest nearest' : NearestNeighbor K} {id i : ℕ}
    (hvisit : visitLeaf samples query i nearest = .ok nearest') (fuel : ℕ)
    (rest : List (Node K)) :
    exploreLoop samples kdTree query (fuel + 1) ⟨.leaf id i :: rest, nearest⟩ =
      exploreLoop samples kdTree query fuel ⟨rest, nearest'⟩ := by
  simp only [exploreLoop, exploreNode_leaf hvisit, bind, Except.bind]

/-- One round of the loop at an internal node whose children are in the array. -/
theorem exploreLoop_internal {samples : Samples K} {kdTree : KDTree K} {query : Point K}
    {nearest : NearestNeighbor K} {id : ℕ} {split : Split K} {left right : Node K}
    (hleft : kdTree.getNode (KDTree.leftNodeId id) = some left)
    (hright : kdTree.getNode (KDTree.rightNodeId id) = some right) (fuel : ℕ)
    (rest : List (Node K)) :
    exploreLoop samples kdTree query (fuel + 1) ⟨.internal id split :: rest, nearest⟩ =
      exploreLoop samples kdTree query fuel
        ⟨childrenToExplore left right (split.getDistancesFromSplits query)
          nearest.squaredDistance ++ rest, nearest⟩ := by
  simp only [exploreLoop, exploreNode_internal hleft hright, bind, Except.bind]

omit [Field K] in
/-- The children to explore, with the tests written as propositions. -/
theorem childrenToExplore_eq (left right : Node K) (distances : K × K)
    (currentDistance : WithTop K) :
    childrenToExplore left right distances currentDistance =
      if distances.1 ≤ currentDistance ∧ distances.2 ≤ currentDistance then
        if distances.1 < distances.2 then [left, right] else [right, left]
      else if distances.1 ≤ currentDistance then [left]
      else if distances.2 ≤ currentDistance then [right]
      else [] := by
  simp only [childrenToExplore, Bool.and_eq_true, decide_eq_true_eq]

/-- `Explores samples kdTree query rounds nodes nearest nearest'`: in that many rounds
the loop takes the nodes and everything below them off the stack, and the best
sample changes from `nearest` to `nearest'`. -/
def Explores (samples : Samples K) (kdTree : KDTree K) (query : Point K) (rounds : ℕ)
    (nodes : List (Node K)) (nearest nearest' : NearestNeighbor K) : Prop :=
  ∀ fuel rest, exploreLoop samples kdTree query (fuel + rounds) ⟨nodes ++ rest, nearest⟩ =
    exploreLoop samples kdTree query fuel ⟨rest, nearest'⟩

/-- Nothing happens to an empty list of nodes. -/
theorem explores_nil (samples : Samples K) (kdTree : KDTree K) (query : Point K)
    (nearest : NearestNeighbor K) : Explores samples kdTree query 0 [] nearest nearest :=
  fun _ _ => rfl

/-- Two stretches of the loop, one after the other. -/
theorem Explores.append {samples : Samples K} {kdTree : KDTree K} {query : Point K}
    {rounds rounds' : ℕ} {nodes nodes' : List (Node K)}
    {nearest nearest' nearest'' : NearestNeighbor K}
    (h : Explores samples kdTree query rounds nodes nearest nearest')
    (h' : Explores samples kdTree query rounds' nodes' nearest' nearest'') :
    Explores samples kdTree query (rounds' + rounds) (nodes ++ nodes') nearest nearest'' := by
  intro fuel rest
  rw [← Nat.add_assoc, List.append_assoc, h, h']

/-- One round at a leaf. -/
theorem explores_leaf {samples : Samples K} {kdTree : KDTree K} {query : Point K}
    {nearest nearest' : NearestNeighbor K} {id i : ℕ}
    (hvisit : visitLeaf samples query i nearest = .ok nearest') :
    Explores samples kdTree query 1 [.leaf id i] nearest nearest' := by
  intro fuel rest
  exact exploreLoop_leaf hvisit fuel rest

/-- One round at an internal node whose children are in the array, and what the
loop does to the children it puts on the stack. -/
theorem explores_internal {samples : Samples K} {kdTree : KDTree K} {query : Point K}
    {nearest nearest' : NearestNeighbor K} {id rounds : ℕ} {split : Split K} {left right : Node K}
    (hleft : kdTree.getNode (KDTree.leftNodeId id) = some left)
    (hright : kdTree.getNode (KDTree.rightNodeId id) = some right)
    (hchildren : Explores samples kdTree query rounds (childrenToExplore left right
      (split.getDistancesFromSplits query) nearest.squaredDistance) nearest nearest') :
    Explores samples kdTree query (rounds + 1) [.internal id split] nearest nearest' := by
  intro fuel rest
  rw [← hchildren fuel rest, ← Nat.add_assoc, List.singleton_append,
    exploreLoop_internal hleft hright]

/-- From the root of a stored tree on top of the stack, the loop visits the tree
in no more rounds than it has nodes. -/
theorem explores_stored {samples : Samples K} {kdTree : KDTree K} {query : Point K}
    {root : ℕ} {t : SplitTree (Split K) ℕ} (hstored : kdTree.Stored root t)
    (hrows : ∀ i ∈ t.leaves, i < samples.rows) {node : Node K}
    (hnode : kdTree.getNode root = some node) {nearest : NearestNeighbor K} {best : Option ℕ}
    (hreports : Reports samples query nearest best) :
    ∃ rounds < 2 * t.leaves.length, ∃ nearest',
      Explores samples kdTree query rounds [node] nearest nearest' ∧
      Reports samples query nearest' (t.visit (sampleDistance samples query)
        (fun split => split.getDistancesFromSplits query) best) := by
  induction t generalizing root node nearest best with
  | leaf i =>
    obtain rfl : node = .leaf root i :=
      Option.some.inj (hnode.symm.trans (KDTree.stored_leaf_iff.mp hstored))
    obtain ⟨nearest', hvisit, hreports'⟩ := hreports.visitLeaf (hrows i (by simp [leaves]))
    exact ⟨1, by simp [leaves], nearest', explores_leaf hvisit, hreports'⟩
  | node s l r ihl ihr =>
    obtain ⟨hroot, hl, hr⟩ := KDTree.stored_node_iff.mp hstored
    obtain rfl : node = .internal root s := Option.some.inj (hnode.symm.trans hroot)
    obtain ⟨left, hleft⟩ := hl.exists_root
    obtain ⟨right, hright⟩ := hr.exists_root
    have hlpos := l.leaves_length_pos
    have hrpos := r.leaves_length_pos
    have hlrows : ∀ i ∈ l.leaves, i < samples.rows := fun i hi => hrows i (by simp [leaves, hi])
    have hrrows : ∀ i ∈ r.leaves, i < samples.rows := fun i hi => hrows i (by simp [leaves, hi])
    have hchildren := childrenToExplore_eq left right (s.getDistancesFromSplits query)
      nearest.squaredDistance
    rw [hreports.squaredDistance_eq] at hchildren
    rw [leaves, List.length_append, visit]
    have hround {rounds : ℕ} {nearest' : NearestNeighbor K}
        (h : Explores samples kdTree query rounds (childrenToExplore left right
          (s.getDistancesFromSplits query) nearest.squaredDistance) nearest nearest') :=
      explores_internal hleft hright h
    rw [hreports.squaredDistance_eq, hchildren] at hround
    -- The tests of the round are those of the visit, so both split into the same cases.
    split_ifs at hround ⊢
    · obtain ⟨m, hm, nearest₁, hexp₁, hrep₁⟩ := ihl hl hlrows hleft hreports
      obtain ⟨n, hn, nearest₂, hexp₂, hrep₂⟩ := ihr hr hrrows hright hrep₁
      exact ⟨_, by omega, nearest₂, hround (hexp₁.append hexp₂), hrep₂⟩
    · obtain ⟨m, hm, nearest₁, hexp₁, hrep₁⟩ := ihr hr hrrows hright hreports
      obtain ⟨n, hn, nearest₂, hexp₂, hrep₂⟩ := ihl hl hlrows hleft hrep₁
      exact ⟨_, by omega, nearest₂, hround (hexp₁.append hexp₂), hrep₂⟩
    · obtain ⟨m, hm, nearest₁, hexp₁, hrep₁⟩ := ihl hl hlrows hleft hreports
      exact ⟨_, by omega, nearest₁, hround hexp₁, hrep₁⟩
    · obtain ⟨m, hm, nearest₁, hexp₁, hrep₁⟩ := ihr hr hrrows hright hreports
      exact ⟨_, by omega, nearest₁, hround hexp₁, hrep₁⟩
    · exact ⟨0 + 1, by omega, nearest, hround (explores_nil _ _ _ _), hreports⟩

/-- What the loop returns once it has seen a sample. -/
theorem Reports.eq_of_some {samples : Samples K} {query : Point K} {nearest : NearestNeighbor K}
    {s : ℕ} (h : Reports samples query nearest (some s)) : nearest =
      ⟨s, (Segment.ofSamples samples).getPoint s, (sampleDistance samples query s : K)⟩ := by
  obtain ⟨sampleId, point, squaredDistance⟩ := nearest
  obtain ⟨hdist, hid, hpoint⟩ := h
  obtain rfl : sampleId = s := hid s rfl
  obtain rfl : point = _ := hpoint s rfl
  obtain rfl : squaredDistance = _ := hdist
  rfl

/-- The search starts its loop at the root. -/
theorem findNearestNeighbor_eq {samples : Samples K} {kdTree : KDTree K} {query : Point K}
    {node : Node K} (hquery : query.coefficients.length = samples.cols)
    (hrows : 0 < samples.rows) (hnode : kdTree.getNode 0 = some node) (fuel : ℕ) :
    findNearestNeighbor fuel samples kdTree query =
      exploreLoop samples kdTree query fuel
        ⟨[node], ⟨0, (Segment.ofSamples samples).getPoint 0, ⊤⟩⟩ := by
  have hdims : ¬(Segment.ofSamples samples).getNumDimensions ≠ query.coefficients.length :=
    not_not.mpr hquery.symm
  have hrow : samples.row 0 = .ok ((Segment.ofSamples samples).getPoint 0) :=
    samples.row_natCast hrows
  simp only [findNearestNeighbor, if_neg hdims, hrow, KDTree.lookup, hnode, bind, Except.bind]

/-- On a stored tree the search terminates, and reports the leaf that branch and
bound ends with: its row, and its squared distance. -/
theorem findNearestNeighbor_stored {samples : Samples K} {kdTree : KDTree K} {query : Point K}
    {t : SplitTree (Split K) ℕ} (hstored : kdTree.Stored 0 t)
    (hrows : ∀ i ∈ t.leaves, i < samples.rows)
    (hquery : query.coefficients.length = samples.cols) :
    ∃ s ∈ t.leaves, t.visit (sampleDistance samples query)
        (fun split => split.getDistancesFromSplits query) none = some s ∧
      ∀ fuel ≥ 2 * t.leaves.length, findNearestNeighbor fuel samples kdTree query =
        .ok ⟨s, (Segment.ofSamples samples).getPoint s, (sampleDistance samples query s : K)⟩ := by
  obtain ⟨node, hnode⟩ := hstored.exists_root
  have hstart : Reports samples query ⟨0, (Segment.ofSamples samples).getPoint 0, ⊤⟩ none :=
    ⟨rfl, by simp, by simp⟩
  obtain ⟨rounds, hrounds, nearest, hexplores, hreports⟩ :=
    explores_stored hstored hrows hnode hstart
  obtain ⟨s, hs, hvisit⟩ := exists_visit (sampleDistance samples query)
    (fun split => split.getDistancesFromSplits query) t
  rw [hvisit] at hreports
  refine ⟨s, hs, hvisit, fun fuel hfuel => ?_⟩
  obtain ⟨fuel, rfl⟩ : ∃ k, fuel = k + 1 + rounds := ⟨fuel - 1 - rounds, by omega⟩
  rw [findNearestNeighbor_eq hquery (Nat.zero_lt_of_lt (hrows s hs)) hnode,
    ← List.append_nil [node], hexplores, hreports.eq_of_some]
  rfl

end Kdtree
