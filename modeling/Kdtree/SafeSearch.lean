import Kdtree.SearchSpec
import Kdtree.WellShaped
import Kdtree.General.SlotWalk

/-!
# Searching without looking

The loop treats every node that is not a leaf as an internal one and follows the
pointer to its split. That is safe because of what can be on the stack, whatever the
comparisons with the boxes say. Nothing is pruned while the best distance is still
infinite, so the loop also comes to a leaf.
-/

namespace Kdtree

variable {K : Type} [Field K] [LinearOrder K]

/-- The search loop together with the nodes it pops, in order. -/
def exploreLoopTraced (samples : Samples K) (kdTree : KDTree K) (query : Point K) :
    ℕ → Search K → Except Fault (List (Node K) × NearestNeighbor K)
  | 0, _ => .error .outOfFuel
  | fuel + 1, search =>
    match search.nodesToExplore with
    | [] => .ok ([], search.currentNearestNeighbor)
    | node :: rest => do
      let search ← exploreNode samples kdTree query node { search with nodesToExplore := rest }
      let (popped, nearest) ← exploreLoopTraced samples kdTree query fuel search
      return (node :: popped, nearest)

/-- `findNearestNeighbor` together with the nodes it pops. -/
def findNearestNeighborTraced (fuel : ℕ) (samples : Samples K) (kdTree : KDTree K)
    (query : Point K) : Except Fault (List (Node K) × NearestNeighbor K) := do
  let segment := Segment.ofSamples samples
  if segment.getNumDimensions ≠ query.coefficients.length then
    throw .queryAndKdTreeDimensionsDontMatch
  let point ← samples.row 0
  let rootNode ← kdTree.lookup 0
  exploreLoopTraced samples kdTree query fuel ⟨[rootNode], ⟨0, point, ⊤⟩⟩

open SplitTree

/-- Keeping the popped nodes does not change what the loop returns. -/
theorem exploreLoop_eq_of_traced {samples : Samples K} {kdTree : KDTree K} {query : Point K}
    {fuel : ℕ} {search : Search K} {popped : List (Node K)} {nearest : NearestNeighbor K}
    (h : exploreLoopTraced samples kdTree query fuel search = .ok (popped, nearest)) :
    exploreLoop samples kdTree query fuel search = .ok nearest := by
  induction fuel generalizing search popped with
  | zero => cases h
  | succ fuel ih =>
    obtain ⟨stack, best⟩ := search
    cases stack with
    | nil =>
      cases h
      rfl
    | cons node rest =>
      obtain ⟨search', hround, h⟩ := Fallible.bind_eq_ok_iff.mp h
      obtain ⟨⟨popped', nearest'⟩, hrest, h⟩ := Fallible.bind_eq_ok_iff.mp h
      cases h
      exact Fallible.bind_eq_ok_iff.mpr ⟨search', hround, ih hrest⟩

/-- More rounds do not change what the loop does once it has ended. -/
theorem exploreLoopTraced_mono {samples : Samples K} {kdTree : KDTree K} {query : Point K}
    {fuel fuel' : ℕ} {search : Search K} {out : List (Node K) × NearestNeighbor K}
    (h : exploreLoopTraced samples kdTree query fuel search = .ok out) (hle : fuel ≤ fuel') :
    exploreLoopTraced samples kdTree query fuel' search = .ok out := by
  induction fuel generalizing fuel' search out with
  | zero => cases h
  | succ fuel ih =>
    obtain ⟨fuel', rfl⟩ : ∃ k, fuel' = k + 1 := ⟨fuel' - 1, by omega⟩
    obtain ⟨stack, best⟩ := search
    cases stack with
    | nil => exact h
    | cons node rest =>
      obtain ⟨search', hround, h⟩ := Fallible.bind_eq_ok_iff.mp h
      obtain ⟨out', hrest, h⟩ := Fallible.bind_eq_ok_iff.mp h
      exact Fallible.bind_eq_ok_iff.mpr ⟨search', hround,
        Fallible.bind_eq_ok_iff.mpr ⟨out', ih hrest (by omega), h⟩⟩

/-- The best sample is that of one of some nodes: its id, its row and its squared
distance to the query. -/
structure IsLeafOf (samples : Samples K) (query : Point K) (popped : List (Node K))
    (nearest : NearestNeighbor K) : Prop where
  /-- One of the nodes is a leaf with that sample. -/
  mem : ∃ id, .leaf id nearest.sampleId ∈ popped
  /-- The point is the row of the sample. -/
  row_eq : samples.row nearest.sampleId = .ok nearest.point
  /-- The distance is that of the point. -/
  squaredDistance_eq :
    nearest.squaredDistance = (Point.squaredDistance nearest.point query : K)

/-- No leaf among some nodes is closer than the best sample. -/
def NoneCloser (samples : Samples K) (query : Point K) (popped : List (Node K))
    (nearest : NearestNeighbor K) : Prop :=
  ∀ id sampleId point, .leaf id sampleId ∈ popped → samples.row sampleId = .ok point →
    nearest.squaredDistance ≤ (Point.squaredDistance point query : K)

/-- What holds of the nodes popped so far, the stack and the best sample. -/
structure Exploring (samples : Samples K) (kdTree : KDTree K) (query : Point K)
    (popped : List (Node K)) (search : Search K) : Prop where
  /-- Every node that ever was on the stack lies in a slot that can be reached. -/
  reachable : ∀ node ∈ popped ++ search.nodesToExplore,
    kdTree.Reachable node.getId ∧ kdTree.getNode node.getId = some node
  /-- None of them is empty. -/
  not_empty : ∀ node ∈ popped ++ search.nodesToExplore, node.getType ≠ .empty
  /-- No slot comes up twice. -/
  isWalk : IsWalk (popped.map Node.getId) (search.nodesToExplore.map Node.getId)
  /-- Until a leaf was popped nothing was pruned. -/
  best : search.currentNearestNeighbor.squaredDistance = ⊤ ∧ search.nodesToExplore ≠ [] ∨
    IsLeafOf samples query popped search.currentNearestNeighbor
  /-- The best sample is the best of the leaves that were popped. -/
  noneCloser : NoneCloser samples query popped search.currentNearestNeighbor

omit [Field K] [LinearOrder K] in
/-- A row can be read if its number is below the number of rows. -/
theorem Samples.exists_row {samples : Samples K} {sampleId : ℤ}
    (h : 0 ≤ sampleId ∧ sampleId < samples.rows) : ∃ point, samples.row sampleId = .ok point :=
  ⟨_, if_pos h⟩

omit [Field K] in
/-- Only the children are put on the stack. -/
theorem mem_childrenToExplore {left right node : Node K} {distances : K × K}
    {currentDistance : WithTop K}
    (h : node ∈ childrenToExplore left right distances currentDistance) :
    node = left ∨ node = right := by
  rw [childrenToExplore_eq] at h
  split_ifs at h
  · simpa using h
  · simpa [or_comm] using h
  · exact .inl (by simpa using h)
  · exact .inr (by simpa using h)
  · simp at h

omit [Field K] in
/-- None of them is put there twice. -/
theorem childrenToExplore_nodup {left right : Node K} (hne : left.getId ≠ right.getId)
    (distances : K × K) (currentDistance : WithTop K) :
    ((childrenToExplore left right distances currentDistance).map Node.getId).Nodup := by
  rw [childrenToExplore_eq]
  split_ifs
  · simpa using hne
  · simpa using hne.symm
  · simp
  · simp
  · simp

omit [Field K] in
/-- Nothing is pruned while the best distance is infinite. -/
theorem childrenToExplore_top_ne_nil (left right : Node K) (distances : K × K) :
    childrenToExplore left right distances ⊤ ≠ [] := by
  rw [childrenToExplore_eq, if_pos ⟨le_top, le_top⟩]
  split_ifs
  · simp
  · simp

namespace Exploring

variable {samples : Samples K} {kdTree : KDTree K} {query : Point K} {popped : List (Node K)}

/-- The search starts with the root on the stack. -/
theorem start (hshape : kdTree.WellShaped samples) {node : Node K}
    (hnode : kdTree.getNode 0 = some node) (point : Point K) :
    Exploring samples kdTree query [] ⟨[node], ⟨0, point, ⊤⟩⟩ := by
  have hid : node.getId = 0 := kdTree.id_eq hnode
  refine ⟨fun n hn => ?_, fun n hn => ?_, ?_, .inl ⟨rfl, by simp⟩, fun _ _ _ h => by simp at h⟩
  · obtain rfl : n = node := by simpa using hn
    rw [hid]
    exact ⟨.root, hnode⟩
  · obtain rfl : n = node := by simpa using hn
    obtain ⟨node', hnode', htype⟩ := hshape.root
    obtain rfl : n = node' := Option.some.inj (hnode.symm.trans hnode')
    exact htype
  · exact IsWalk.start node.getId

omit [Field K] [LinearOrder K] in
/-- What was popped and what is on the stack stays the same list when a node is popped. -/
theorem mem_pop {node n : Node K} {rest : List (Node K)} :
    n ∈ popped ++ [node] ++ rest ↔ n ∈ popped ++ node :: rest := by
  rw [List.append_assoc, List.singleton_append]

/-- Popping a leaf. -/
theorem popLeaf {best : NearestNeighbor K} {id : ℕ} {sampleId : ℤ} {rest : List (Node K)}
    (h : Exploring samples kdTree query popped ⟨.leaf id sampleId :: rest, best⟩)
    (hshape : kdTree.WellShaped samples) :
    ∃ search, exploreNode samples kdTree query (.leaf id sampleId) ⟨rest, best⟩ = .ok search ∧
      Exploring samples kdTree query (popped ++ [.leaf id sampleId]) search := by
  obtain ⟨hreach, hnode⟩ := h.reachable (.leaf id sampleId) (by simp)
  obtain ⟨point, hrow⟩ := Samples.exists_row (hshape.leaves hreach hnode)
  have hround := exploreNode_leaf (visitLeaf_eq hrow query best) kdTree id rest
  have hwalk := h.isWalk.pop List.nodup_nil (by simp)
  rw [Node.getId_leaf, List.nil_append] at hwalk
  refine ⟨_, hround, fun n hn => h.reachable n (mem_pop.mp hn),
    fun n hn => h.not_empty n (mem_pop.mp hn), by rwa [List.map_append], .inr ?_, ?_⟩
  · split_ifs with hlt
    · exact ⟨⟨id, by simp⟩, hrow, rfl⟩
    · rcases h.best with ⟨htop, -⟩ | hleaf
      · exact absurd (htop ▸ WithTop.coe_lt_top _) hlt
      · obtain ⟨id', hmem⟩ := hleaf.mem
        exact ⟨⟨id', List.mem_append_left _ hmem⟩, hleaf.row_eq, hleaf.squaredDistance_eq⟩
  · intro id' sampleId' point' hmem hrow'
    rcases List.mem_append.mp hmem with hold | hnew
    · have hle := h.noneCloser id' sampleId' point' hold hrow'
      split_ifs with hlt
      · exact hlt.le.trans hle
      · exact hle
    · obtain ⟨rfl, rfl⟩ : id' = id ∧ sampleId' = sampleId := by simpa using hnew
      obtain rfl : point = point' := Except.ok.inj (hrow.symm.trans hrow')
      split_ifs with hlt
      · exact le_rfl
      · exact not_lt.mp hlt

/-- Popping an internal node. -/
theorem popInternal {best : NearestNeighbor K} {id : ℕ} {split : Split K} {rest : List (Node K)}
    (h : Exploring samples kdTree query popped ⟨.internal id split :: rest, best⟩)
    (hshape : kdTree.WellShaped samples) :
    ∃ search, exploreNode samples kdTree query (.internal id split) ⟨rest, best⟩ = .ok search ∧
      Exploring samples kdTree query (popped ++ [.internal id split]) search := by
  obtain ⟨hreach, hnode⟩ := h.reachable (.internal id split) (by simp)
  obtain ⟨⟨left, hleft, hltype⟩, right, hright, hrtype⟩ := hshape.children hreach hnode
  have hlid : left.getId = leftSlot id := kdTree.id_eq hleft
  have hrid : right.getId = rightSlot id := kdTree.id_eq hright
  have hne : left.getId ≠ right.getId := by
    rw [hlid, hrid]
    unfold leftSlot rightSlot
    omega
  have hround := exploreNode_internal hleft hright samples query split rest best
  have hkids {n : Node K} (hn : n ∈ popped ++ [.internal id split] ++
      (childrenToExplore left right (split.getDistancesFromSplits query)
        best.squaredDistance ++ rest)) :
      n ∈ popped ++ .internal id split :: rest ∨ n = left ∨ n = right := by
    rcases List.mem_append.mp hn with hpop | hn
    · exact .inl (mem_pop.mp (List.mem_append_left _ hpop))
    · rcases List.mem_append.mp hn with hkid | hrest
      · exact .inr (mem_childrenToExplore hkid)
      · exact .inl (mem_pop.mp (List.mem_append_right _ hrest))
  refine ⟨_, hround, fun n hn => ?_, fun n hn => ?_, ?_, ?_, ?_⟩
  · rcases hkids hn with hold | rfl | rfl
    · exact h.reachable n hold
    · rw [hlid]
      exact ⟨hreach.left hnode, hleft⟩
    · rw [hrid]
      exact ⟨hreach.right hnode, hright⟩
  · rcases hkids hn with hold | rfl | rfl
    · exact h.not_empty n hold
    · exact hltype
    · exact hrtype
  · rw [List.map_append, List.map_append]
    refine h.isWalk.pop (childrenToExplore_nodup hne _ _) fun k hk => ?_
    obtain ⟨kid, hkid, rfl⟩ := List.mem_map.mp hk
    rcases mem_childrenToExplore hkid with rfl | rfl
    · exact .inl hlid
    · exact .inr hrid
  · rcases h.best with ⟨htop, -⟩ | hleaf
    · refine .inl ⟨htop, List.append_ne_nil_of_left_ne_nil ?_ _⟩
      dsimp only at htop
      rw [htop]
      exact childrenToExplore_top_ne_nil _ _ _
    · obtain ⟨id', hmem⟩ := hleaf.mem
      exact .inr ⟨⟨id', List.mem_append_left _ hmem⟩, hleaf.row_eq, hleaf.squaredDistance_eq⟩
  · intro id' sampleId point hmem hrow
    rcases List.mem_append.mp hmem with hold | hnew
    · exact h.noneCloser id' sampleId point hold hrow
    · simp at hnew

/-- One round of the loop. -/
theorem pop {best : NearestNeighbor K} {node : Node K} {rest : List (Node K)}
    (h : Exploring samples kdTree query popped ⟨node :: rest, best⟩)
    (hshape : kdTree.WellShaped samples) :
    ∃ search, exploreNode samples kdTree query node ⟨rest, best⟩ = .ok search ∧
      Exploring samples kdTree query (popped ++ [node]) search := by
  cases node with
  | empty id => exact absurd rfl (h.not_empty (.empty id) (by simp))
  | internal id split => exact h.popInternal hshape
  | leaf id sampleId => exact h.popLeaf hshape

/-- Only slots of the array are popped, and none of them twice. -/
theorem length_le {search : Search K} {numNodes : ℕ}
    (h : Exploring samples kdTree query popped search)
    (hslots : ∀ id ≥ numNodes, kdTree.getNode id = none) : popped.length ≤ numNodes := by
  have hle := h.isWalk.length_le (n := numNodes) fun i hi => ?_
  · rwa [List.length_map] at hle
  · obtain ⟨node, hnode, rfl⟩ := List.mem_map.mp hi
    obtain ⟨-, hstored⟩ := h.reachable node (List.mem_append_left _ hnode)
    by_contra hge
    rw [hslots _ (not_lt.mp hge)] at hstored
    cases hstored

/-- The loop ends, with nothing left on the stack. -/
theorem run {search : Search K} {numNodes fuel : ℕ}
    (h : Exploring samples kdTree query popped search) (hshape : kdTree.WellShaped samples)
    (hslots : ∀ id ≥ numNodes, kdTree.getNode id = none)
    (hfuel : numNodes < fuel + popped.length) :
    ∃ rest nearest, exploreLoopTraced samples kdTree query fuel search = .ok (rest, nearest) ∧
      Exploring samples kdTree query (popped ++ rest) ⟨[], nearest⟩ := by
  induction fuel generalizing popped search with
  | zero =>
    have := h.length_le hslots
    omega
  | succ fuel ih =>
    obtain ⟨stack, best⟩ := search
    cases stack with
    | nil => exact ⟨[], best, rfl, by rwa [List.append_nil]⟩
    | cons node stack =>
      obtain ⟨search', hround, h'⟩ := h.pop hshape
      obtain ⟨rest, nearest, hrest, hdone⟩ := ih h' (by simp; omega)
      refine ⟨node :: rest, nearest, ?_, ?_⟩
      · exact Fallible.bind_eq_ok_iff.mpr ⟨search', hround,
          Fallible.bind_eq_ok_iff.mpr ⟨_, hrest, rfl⟩⟩
      · rwa [List.append_assoc, List.singleton_append] at hdone

end Exploring

/-- The search starts its loop at the root. -/
theorem findNearestNeighborTraced_eq {samples : Samples K} {kdTree : KDTree K} {query : Point K}
    {node : Node K} (hquery : query.coefficients.length = samples.cols)
    (hrows : 0 < samples.rows) (hnode : kdTree.getNode 0 = some node) (fuel : ℕ) :
    findNearestNeighborTraced fuel samples kdTree query =
      exploreLoopTraced samples kdTree query fuel
        ⟨[node], ⟨0, (Segment.ofSamples samples).getPoint 0, ⊤⟩⟩ := by
  have hdims : ¬(Segment.ofSamples samples).getNumDimensions ≠ query.coefficients.length :=
    not_not.mpr hquery.symm
  have hrow : samples.row 0 = .ok ((Segment.ofSamples samples).getPoint 0) :=
    samples.row_natCast hrows
  simp only [findNearestNeighborTraced, if_neg hdims, hrow, KDTree.lookup, hnode, bind, Except.bind]

/-- In a well shaped array without a slot from `numNodes` on, whatever its splits are,
the search returns after at most `numNodes` rounds and one more test. It pops no slot
twice, and every node it pops is a leaf, or has a split with the dimensions of the query
and two children in the array that are not empty. A leaf is popped, and what is
returned is the id, the row and the squared distance of a popped leaf that no other
popped leaf is closer than. -/
theorem findNearestNeighbor_safe {samples : Samples K} {kdTree : KDTree K} {numNodes : ℕ}
    {query : Point K} (hslots : ∀ id ≥ numNodes, kdTree.getNode id = none)
    (hshape : kdTree.WellShaped samples) (hquery : query.coefficients.length = samples.cols) :
    ∃ popped nearest,
      (∀ fuel > numNodes,
        findNearestNeighborTraced fuel samples kdTree query = .ok (popped, nearest) ∧
        findNearestNeighbor fuel samples kdTree query = .ok nearest) ∧
      (popped.map Node.getId).Nodup ∧
      (∀ node ∈ popped, node.getId < numNodes ∧ kdTree.getNode node.getId = some node ∧
        (node.getType = .leaf ∨ node.getType = .internal ∧
          (∃ split, node.getSplit = some split ∧
            split.HasDimensions query.coefficients.length) ∧
          ∀ child ∈ [KDTree.leftNodeId node.getId, KDTree.rightNodeId node.getId],
            child < numNodes ∧ kdTree.Present child)) ∧
      IsLeafOf samples query popped nearest ∧ NoneCloser samples query popped nearest := by
  have hlt {id : ℕ} {node : Node K} (hnode : kdTree.getNode id = some node) : id < numNodes := by
    by_contra hge
    rw [hslots id (not_lt.mp hge)] at hnode
    cases hnode
  obtain ⟨root, hroot, -⟩ := hshape.root
  obtain ⟨t, -, hrows, -⟩ := hshape.exists_stored
  obtain ⟨s, hs⟩ := List.exists_mem_of_length_pos t.leaves_length_pos
  have hpos : 0 < samples.rows := Nat.zero_lt_of_lt (hrows s hs)
  have hstart : Exploring samples kdTree query [] ⟨[root], ⟨0, _, ⊤⟩⟩ :=
    .start hshape hroot ((Segment.ofSamples samples).getPoint 0)
  obtain ⟨popped, nearest, hloop, hdone⟩ := hstart.run hshape hslots
    (show numNodes < numNodes + 1 + ([] : List (Node K)).length by simp)
  rw [List.nil_append] at hdone
  refine ⟨popped, nearest, fun fuel hfuel => ?_, hdone.isWalk.nodup, fun node hnode => ?_, ?_,
    hdone.noneCloser⟩
  · have hlong := exploreLoopTraced_mono hloop (Nat.succ_le_of_lt hfuel)
    rw [findNearestNeighborTraced_eq hquery hpos hroot, findNearestNeighbor_eq hquery hpos hroot]
    exact ⟨hlong, exploreLoop_eq_of_traced hlong⟩
  · obtain ⟨hreach, hstored⟩ := hdone.reachable node (List.mem_append_left _ hnode)
    refine ⟨hlt hstored, hstored, ?_⟩
    cases node with
    | empty id => exact absurd rfl (hdone.not_empty _ (List.mem_append_left _ hnode))
    | leaf id sampleId => exact .inl rfl
    | internal id split =>
      obtain ⟨hleft, hright⟩ := hshape.children hreach hstored
      refine .inr ⟨rfl, ⟨split, rfl, hquery ▸ hshape.splits hreach hstored⟩, fun child hchild => ?_⟩
      have hpresent : kdTree.Present child := by
        rcases List.mem_pair.mp hchild with rfl | rfl
        · exact hleft
        · exact hright
      obtain ⟨kid, hkid, htype⟩ := hpresent
      exact ⟨hlt hkid, kid, hkid, htype⟩
  · rcases hdone.best with ⟨-, hne⟩ | hleaf
    · exact absurd rfl hne
    · exact hleaf

/-- Two samples on a line. -/
def lineSamples : Samples ℚ where
  rows := 2
  cols := 1
  coeff := fun i _ => i

/-- A split whose boxes are on the wrong sides and inverted. -/
def crossedSplit : Split ℚ where
  splitDimension := 0
  splitPoint := ⟨[7]⟩
  leftBounds := ⟨⟨[0]⟩, ⟨[1]⟩⟩
  rightBounds := ⟨⟨[-3]⟩, ⟨[0]⟩⟩

/-- The array with that split and its two leaves. -/
def crossedTree : KDTree ℚ :=
  ((Build.start (.create 3)).write (layout 0 (.node crossedSplit (.leaf 0) (.leaf 1)))).kdtree

/-- The search on that array. -/
theorem findNearestNeighbor_crossedTree :
    ∃ popped nearest,
      (∀ fuel > 3,
        findNearestNeighborTraced fuel lineSamples crossedTree ⟨[1 / 4]⟩ = .ok (popped, nearest) ∧
        findNearestNeighbor fuel lineSamples crossedTree ⟨[1 / 4]⟩ = .ok nearest) ∧
      (popped.map Node.getId).Nodup ∧
      (∀ node ∈ popped, node.getId < 3 ∧ crossedTree.getNode node.getId = some node ∧
        (node.getType = .leaf ∨ node.getType = .internal ∧
          (∃ split, node.getSplit = some split ∧ split.HasDimensions 1) ∧
          ∀ child ∈ [KDTree.leftNodeId node.getId, KDTree.rightNodeId node.getId],
            child < 3 ∧ crossedTree.Present child)) ∧
      IsLeafOf lineSamples ⟨[1 / 4]⟩ popped nearest ∧
      NoneCloser lineSamples ⟨[1 / 4]⟩ popped nearest := by
  have hslots : ∀ id ≥ 3, crossedTree.getNode id = none :=
    getNode_write_create (by simp [layout_node, layout_leaf, KDTree.leftNodeId, KDTree.rightNodeId])
  have hstored : crossedTree.Stored 0 (.node crossedSplit (.leaf 0) (.leaf 1)) :=
    stored_write (.start (.create 3)) 0 _
  refine findNearestNeighbor_safe hslots
    (hstored.wellShaped ⟨3, hslots⟩ ?_ ⟨?_, trivial, trivial⟩) rfl
  · simp [leaves, lineSamples]
  · constructor <;> simp [crossedSplit, lineSamples]

end Kdtree
