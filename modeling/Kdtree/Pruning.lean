import Kdtree.PrintedBoxes
import Kdtree.SafeSearch

/-!
# What the search prunes

When an internal node is popped, the search decides once and for all which of its
children it will come to. The decision depends on the leaves popped before, and on
nothing else: a child is skipped exactly when one of these leaves is closer than the box
on its side. If both children are kept, the one with the closer box comes first.
-/

namespace Kdtree

open SplitTree

variable {K : Type} [Field K] [LinearOrder K]

/-- No leaf among some nodes is closer to the query than a bound. -/
def Admits (samples : Samples K) (query : Point K) (popped : List (Node K)) (bound : K) : Prop :=
  ∀ id sampleId point, .leaf id sampleId ∈ popped → samples.row sampleId = .ok point →
    bound ≤ Point.squaredDistance point query

/-- What was decided for the children of an internal node, of the slots that the search comes
to; the nodes in `before` were popped before that node. -/
structure DecidedAt (samples : Samples K) (query : Point K) (slots : List ℕ)
    (before : List (Node K)) (id : ℕ) (split : Split K) : Prop where
  /-- The left child is skipped if a leaf was closer than its box. -/
  left_iff : KDTree.leftNodeId id ∈ slots ↔
    Admits samples query before (split.getDistancesFromSplits query).1
  /-- So is the right child. -/
  right_iff : KDTree.rightNodeId id ∈ slots ↔
    Admits samples query before (split.getDistancesFromSplits query).2
  /-- Of two children, the one whose box is closer comes first, the right one on a tie. -/
  order : KDTree.leftNodeId id ∈ slots → KDTree.rightNodeId id ∈ slots →
    (if (split.getDistancesFromSplits query).1 < (split.getDistancesFromSplits query).2 then
      [KDTree.leftNodeId id, KDTree.rightNodeId id]
    else [KDTree.rightNodeId id, KDTree.leftNodeId id]).Sublist slots

variable {samples : Samples K} {kdTree : KDTree K} {query : Point K} {popped : List (Node K)}

/-- Slots that are no children of the node do not change what was decided. -/
theorem DecidedAt.mono {slots slots' : List ℕ} {before : List (Node K)} {id : ℕ} {split : Split K}
    (h : DecidedAt samples query slots before id split) (hsub : slots.Sublist slots')
    (hnew : ∀ i ∈ slots', i = KDTree.leftNodeId id ∨ i = KDTree.rightNodeId id → i ∈ slots) :
    DecidedAt samples query slots' before id split where
  left_iff := by
    rw [← h.left_iff]
    exact ⟨fun hmem => hnew _ hmem (.inl rfl), fun hmem => hsub.subset hmem⟩
  right_iff := by
    rw [← h.right_iff]
    exact ⟨fun hmem => hnew _ hmem (.inr rfl), fun hmem => hsub.subset hmem⟩
  order hleft hright :=
    (h.order (hnew _ hleft (.inl rfl)) (hnew _ hright (.inr rfl))).trans hsub

/-- A bound does not exceed the best distance exactly if no popped leaf is closer. -/
theorem Exploring.le_best_iff {search : Search K}
    (h : Exploring samples kdTree query popped search) (bound : K) :
    bound ≤ search.currentNearestNeighbor.squaredDistance ↔ Admits samples query popped bound := by
  constructor
  · intro hle id sampleId point hmem hrow
    exact WithTop.coe_le_coe.mp (hle.trans (h.noneCloser id sampleId point hmem hrow))
  · intro hadmits
    rcases h.best with ⟨htop, -⟩ | hleaf
    · rw [htop]
      exact le_top
    · obtain ⟨id, hmem⟩ := hleaf.mem
      rw [hleaf.squaredDistance_eq]
      exact WithTop.coe_le_coe.mpr (hadmits id _ _ hmem hleaf.row_eq)

omit [Field K] in
/-- Which children are put on the stack, and in which order. -/
theorem childrenToExplore_ids {left right : Node K} (hne : left.getId ≠ right.getId)
    (distances : K × K) (currentDistance : WithTop K) :
    let ids := (childrenToExplore left right distances currentDistance).map Node.getId
    (left.getId ∈ ids ↔ distances.1 ≤ currentDistance) ∧
      (right.getId ∈ ids ↔ distances.2 ≤ currentDistance) ∧
      (left.getId ∈ ids → right.getId ∈ ids → ids =
        if distances.1 < distances.2 then [left.getId, right.getId]
        else [right.getId, left.getId]) := by
  simp only [childrenToExplore_eq]
  by_cases hleft : distances.1 ≤ currentDistance
  · by_cases hright : distances.2 ≤ currentDistance
    · rw [if_pos ⟨hleft, hright⟩]
      by_cases hlt : distances.1 < distances.2
      · simp [hlt, hleft, hright]
      · simp [hlt, hleft, hright]
    · rw [if_neg fun h => hright h.2, if_pos hleft]
      simp [hleft, hright, hne.symm]
  · rw [if_neg fun h => hleft h.1, if_neg hleft]
    by_cases hright : distances.2 ≤ currentDistance
    · rw [if_pos hright]
      simp [hleft, hright, hne]
    · rw [if_neg hright]
      simp [hleft, hright]

/-- The decisions for all internal nodes that were popped. -/
def Decided (samples : Samples K) (query : Point K) (popped stack : List (Node K)) : Prop :=
  ∀ before id split after, popped = before ++ .internal id split :: after →
    DecidedAt samples query ((popped ++ stack).map Node.getId) before id split

/-- A list with one more entry at its end is cut at that entry or earlier. -/
theorem append_singleton_cases {α : Type*} {l before after : List α} {a b : α}
    (h : l ++ [a] = before ++ b :: after) :
    (a = b ∧ l = before) ∨ ∃ after', after = after' ++ [a] ∧ l = before ++ b :: after' := by
  rcases List.eq_nil_or_concat' after with rfl | ⟨after', c, rfl⟩
  · obtain ⟨hl, hb⟩ := List.append_inj' h rfl
    exact .inl ⟨List.singleton_inj.mp hb, hl⟩
  · rw [← List.cons_append, ← List.append_assoc] at h
    obtain ⟨hl, hb⟩ := List.append_inj' h rfl
    obtain rfl := List.singleton_inj.mp hb
    exact .inr ⟨after', rfl, hl⟩

/-- Earlier decisions stay when a node is popped and children of it are put on the stack. -/
theorem Decided.keep {node : Node K} {rest kids : List (Node K)}
    (hdecided : Decided samples query popped (node :: rest))
    (hwalk : IsWalk (popped.map Node.getId) ((node :: rest).map Node.getId))
    (hkids : ∀ kid ∈ kids, kid.getId = leftSlot node.getId ∨ kid.getId = rightSlot node.getId)
    {before : List (Node K)} {id : ℕ} {split : Split K} {after : List (Node K)}
    (hpopped : popped = before ++ .internal id split :: after) :
    DecidedAt samples query ((popped ++ [node] ++ (kids ++ rest)).map Node.getId) before id
      split := by
  apply (hdecided before id split after hpopped).mono
  · apply List.Sublist.map
    rw [List.append_assoc, List.singleton_append]
    exact ((List.sublist_append_right kids rest).cons_cons node).append_left popped
  · intro i hi hchild
    have hid : id ∈ popped.map Node.getId := by
      rw [hpopped]
      simp
    obtain ⟨n, hn, rfl⟩ := List.mem_map.mp hi
    apply List.mem_map_of_mem
    simp only [List.mem_append, List.mem_cons, List.not_mem_nil, or_false] at hn ⊢
    rcases hn with (hn | hn) | hn | hn
    · exact .inl hn
    · exact .inr (.inl hn)
    · -- a slot is child of one slot only, and the node was not popped before
      exfalso
      apply hwalk.notBelow id hid node.getId (by simp)
      have heq : id = node.getId := by
        have hkid := hkids n hn
        unfold leftSlot rightSlot at hkid
        unfold KDTree.leftNodeId KDTree.rightNodeId at hchild
        omega
      rw [heq]
      exact .refl
    · exact .inr (.inr hn)

omit [Field K] [LinearOrder K] in
/-- The children of a node that is popped come up for the first time. -/
theorem mem_kids_of_child {id : ℕ} {split : Split K} {rest kids : List (Node K)}
    (hwalk : IsWalk (popped.map Node.getId) ((Node.internal id split :: rest).map Node.getId))
    {i : ℕ}
    (hi : i = KDTree.leftNodeId id ∨ i = KDTree.rightNodeId id)
    (hmem : i ∈ (popped ++ [Node.internal id split] ++ (kids ++ rest)).map Node.getId) :
    i ∈ kids.map Node.getId := by
  have hbelow : IsBelow id i := by
    rcases hi with rfl | rfl
    · exact .left .refl
    · exact .right .refl
  simp only [List.map_append, List.map_cons, List.map_nil, List.mem_append, List.mem_cons,
    List.not_mem_nil, or_false, Node.getId_internal] at hmem
  rcases hmem with (hmem | rfl) | hmem | hmem
  · exact absurd hbelow (hwalk.notBelow i hmem id (by simp))
  · unfold KDTree.leftNodeId KDTree.rightNodeId at hi
    omega
  · exact hmem
  · rw [List.map_cons, Node.getId_internal] at hwalk
    exact absurd .refl ((List.pairwise_cons.mp hwalk.apart).1 i hmem i hbelow)

/-- The decision for the children of a node that is popped. -/
theorem decidedAt_pop {id : ℕ} {split : Split K} {best : NearestNeighbor K} {left right : Node K}
    {rest : List (Node K)}
    (h : Exploring samples kdTree query popped ⟨.internal id split :: rest, best⟩)
    (hleft : left.getId = KDTree.leftNodeId id) (hright : right.getId = KDTree.rightNodeId id) :
    DecidedAt samples query ((popped ++ [Node.internal id split] ++ (childrenToExplore left right
      (split.getDistancesFromSplits query) best.squaredDistance ++ rest)).map Node.getId)
      popped id split := by
  have hne : left.getId ≠ right.getId := by
    rw [hleft, hright]
    unfold KDTree.leftNodeId KDTree.rightNodeId
    omega
  obtain ⟨hleftIff, hrightIff, horder⟩ :=
    childrenToExplore_ids hne (split.getDistancesFromSplits query) best.squaredDistance
  have hsub : ((childrenToExplore left right (split.getDistancesFromSplits query)
      best.squaredDistance).map Node.getId).Sublist ((popped ++ [Node.internal id split] ++
        (childrenToExplore left right (split.getDistancesFromSplits query)
          best.squaredDistance ++ rest)).map Node.getId) := by
    apply List.Sublist.map
    exact (List.sublist_append_left _ rest).trans (List.sublist_append_right _ _)
  rw [hleft] at hleftIff
  rw [hright] at hrightIff
  rw [hleft, hright] at horder
  refine ⟨?_, ?_, ?_⟩
  · rw [← h.le_best_iff, ← hleftIff]
    exact ⟨mem_kids_of_child h.isWalk (.inl rfl), fun hmem => hsub.subset hmem⟩
  · rw [← h.le_best_iff, ← hrightIff]
    exact ⟨mem_kids_of_child h.isWalk (.inr rfl), fun hmem => hsub.subset hmem⟩
  · intro hl hr
    rw [← horder (mem_kids_of_child h.isWalk (.inl rfl) hl)
      (mem_kids_of_child h.isWalk (.inr rfl) hr)]
    exact hsub

/-- What one round does: a leaf replaces the best sample if it is strictly closer, any other
node has two children in the array, which are put on the stack unless they are pruned. -/
theorem Exploring.round_cases {best : NearestNeighbor K} {node : Node K} {rest : List (Node K)}
    (h : Exploring samples kdTree query popped ⟨node :: rest, best⟩)
    (hshape : kdTree.WellShaped samples) {search : Search K}
    (hround : exploreNode samples kdTree query node ⟨rest, best⟩ = .ok search) :
    (∃ id sampleId point, node = .leaf id sampleId ∧ samples.row sampleId = .ok point ∧
      search = ⟨rest, if (Point.squaredDistance point query : K) < best.squaredDistance then
        ⟨sampleId, point, (Point.squaredDistance point query : K)⟩ else best⟩) ∨
    ∃ id split left right, node = .internal id split ∧
      left.getId = KDTree.leftNodeId id ∧ right.getId = KDTree.rightNodeId id ∧
      search = ⟨childrenToExplore left right (split.getDistancesFromSplits query)
        best.squaredDistance ++ rest, best⟩ := by
  obtain ⟨hreach, hnode⟩ := h.reachable node (by simp)
  cases node with
  | empty id => exact absurd rfl (h.not_empty (.empty id) (by simp))
  | leaf id sampleId =>
    left
    obtain ⟨point, hrow⟩ := Samples.exists_row (hshape.leaves hreach hnode)
    rw [exploreNode_leaf (visitLeaf_eq hrow query best)] at hround
    exact ⟨id, sampleId, point, rfl, hrow, (Except.ok.inj hround).symm⟩
  | internal id split =>
    right
    rw [Node.getId_internal] at hreach hnode
    obtain ⟨⟨left, hleft, -⟩, right, hright, -⟩ := hshape.children hreach hnode
    rw [exploreNode_internal hleft hright] at hround
    exact ⟨id, split, left, right, rfl, kdTree.id_eq hleft, kdTree.id_eq hright,
      (Except.ok.inj hround).symm⟩

/-- What every round preserves holds when the loop has ended, of all nodes it popped. -/
theorem Exploring.run_of_step {P : List (Node K) → Search K → Prop}
    (hstep : ∀ {popped node rest best search},
      Exploring samples kdTree query popped ⟨node :: rest, best⟩ →
      exploreNode samples kdTree query node ⟨rest, best⟩ = .ok search →
      P popped ⟨node :: rest, best⟩ → P (popped ++ [node]) search)
    {search : Search K} {fuel : ℕ} {rest : List (Node K)} {nearest : NearestNeighbor K}
    (h : Exploring samples kdTree query popped search) (hshape : kdTree.WellShaped samples)
    (hstart : P popped search)
    (htraced : exploreLoopTraced samples kdTree query fuel search = .ok (rest, nearest)) :
    P (popped ++ rest) ⟨[], nearest⟩ := by
  induction fuel generalizing popped search rest with
  | zero => cases htraced
  | succ fuel ih =>
    obtain ⟨stack, best⟩ := search
    cases stack with
    | nil =>
      cases htraced
      rwa [List.append_nil]
    | cons node stack =>
      obtain ⟨search', hround, h'⟩ := h.pop hshape
      obtain ⟨search'', hround', htraced⟩ := Fallible.bind_eq_ok_iff.mp htraced
      obtain rfl : search' = search'' := Except.ok.inj (hround.symm.trans hround')
      obtain ⟨⟨rest', nearest'⟩, hrest, htraced⟩ := Fallible.bind_eq_ok_iff.mp htraced
      obtain ⟨rfl, rfl⟩ := Prod.mk.inj (Except.ok.inj htraced)
      have hdone := ih h' (hstep h hround hstart) hrest
      rwa [List.append_assoc, List.singleton_append] at hdone

/-- One round decides about the children of the node that was popped, and leaves the
earlier decisions as they are. -/
theorem Decided.pop {best : NearestNeighbor K} {node : Node K} {rest : List (Node K)}
    (h : Exploring samples kdTree query popped ⟨node :: rest, best⟩)
    (hshape : kdTree.WellShaped samples) {search : Search K}
    (hround : exploreNode samples kdTree query node ⟨rest, best⟩ = .ok search)
    (hdecided : Decided samples query popped (node :: rest)) :
    Decided samples query (popped ++ [node]) search.nodesToExplore := by
  rcases h.round_cases hshape hround with
    ⟨id, sampleId, point, rfl, -, rfl⟩ | ⟨id, split, left, right, rfl, hleft, hright, rfl⟩
  · intro before id' split after hpopped
    rcases append_singleton_cases hpopped with ⟨heq, -⟩ | ⟨after', -, hpopped'⟩
    · cases heq
    · have hkids : ∀ kid ∈ ([] : List (Node K)),
          kid.getId = leftSlot id ∨ kid.getId = rightSlot id := by simp
      exact hdecided.keep h.isWalk hkids hpopped'
  · have hkids : ∀ kid ∈ childrenToExplore left right (split.getDistancesFromSplits query)
        best.squaredDistance, kid.getId = leftSlot id ∨ kid.getId = rightSlot id := by
      intro kid hkid
      rcases mem_childrenToExplore hkid with rfl | rfl
      · exact .inl hleft
      · exact .inr hright
    intro before id' split' after hpopped
    rcases append_singleton_cases hpopped with ⟨heq, rfl⟩ | ⟨after', -, hpopped'⟩
    · obtain ⟨rfl, rfl⟩ := Node.internal.inj heq
      exact decidedAt_pop h hleft hright
    · exact hdecided.keep h.isWalk hkids hpopped'

/-- The best sample is that of a leaf that no leaf popped before it matches. -/
def IsFirstLeaf (samples : Samples K) (query : Point K) (popped : List (Node K))
    (nearest : NearestNeighbor K) : Prop :=
  ∃ before id after, popped = before ++ .leaf id nearest.sampleId :: after ∧
    ∀ id' sampleId point, .leaf id' sampleId ∈ before → samples.row sampleId = .ok point →
      nearest.squaredDistance < (Point.squaredDistance point query : K)

/-- A later node does not change which leaf was first. -/
theorem IsFirstLeaf.append {nearest : NearestNeighbor K}
    (h : IsFirstLeaf samples query popped nearest) (nodes : List (Node K)) :
    IsFirstLeaf samples query (popped ++ nodes) nearest := by
  obtain ⟨before, id, after, rfl, hbefore⟩ := h
  exact ⟨before, id, after ++ nodes, by simp, hbefore⟩

/-- One round keeps the first of the best leaves. -/
theorem IsFirstLeaf.pop {best : NearestNeighbor K} {node : Node K} {rest : List (Node K)}
    (h : Exploring samples kdTree query popped ⟨node :: rest, best⟩)
    (hshape : kdTree.WellShaped samples) {search : Search K}
    (hround : exploreNode samples kdTree query node ⟨rest, best⟩ = .ok search)
    (hfirst : best.squaredDistance = ⊤ ∨ IsFirstLeaf samples query popped best) :
    search.currentNearestNeighbor.squaredDistance = ⊤ ∨
      IsFirstLeaf samples query (popped ++ [node]) search.currentNearestNeighbor := by
  rcases h.round_cases hshape hround with
    ⟨id, sampleId, point, rfl, -, rfl⟩ | ⟨id, split, left, right, rfl, -, -, rfl⟩
  · by_cases hlt : (Point.squaredDistance point query : K) < best.squaredDistance
    · -- a leaf that is strictly closer than the best of the earlier ones is the first
      right
      simp only [if_pos hlt]
      refine ⟨popped, id, [], rfl, fun id' sampleId' point' hmem hrow' => ?_⟩
      exact hlt.trans_le (h.noneCloser id' sampleId' point' hmem hrow')
    · simp only [if_neg hlt]
      rcases hfirst with htop | hfirst
      · rw [htop] at hlt
        exact absurd (WithTop.coe_lt_top _) hlt
      · exact .inr (hfirst.append _)
  · exact hfirst.imp_right fun hfirst => hfirst.append _

/-- The search in a well shaped array: the decisions it made for the internal nodes it popped,
and the leaf that its answer is from. -/
theorem exists_findNearestNeighborTraced {numNodes : ℕ}
    (hslots : ∀ id ≥ numNodes, kdTree.getNode id = none) (hshape : kdTree.WellShaped samples)
    (hquery : query.coefficients.length = samples.cols) :
    ∃ popped nearest,
      (∀ fuel > numNodes,
        findNearestNeighborTraced fuel samples kdTree query = .ok (popped, nearest) ∧
        findNearestNeighbor fuel samples kdTree query = .ok nearest) ∧
      Exploring samples kdTree query popped ⟨[], nearest⟩ ∧ Decided samples query popped [] ∧
      0 ∈ popped.map Node.getId ∧ IsFirstLeaf samples query popped nearest := by
  obtain ⟨root, hroot, -⟩ := hshape.root
  obtain ⟨t, -, hrows, -⟩ := hshape.exists_stored
  obtain ⟨s, hs⟩ := List.exists_mem_of_length_pos t.leaves_length_pos
  have hpos : 0 < samples.rows := Nat.zero_lt_of_lt (hrows s hs)
  have hstart : Exploring samples kdTree query [] ⟨[root], ⟨0, _, ⊤⟩⟩ :=
    .start hshape hroot ((Segment.ofSamples samples).getPoint 0)
  obtain ⟨popped, nearest, hloop, hdone⟩ := hstart.run hshape hslots
    (show numNodes < numNodes + 1 + ([] : List (Node K)).length by simp)
  have hdecided : Decided samples query popped [] := by
    apply hstart.run_of_step (P := fun popped search =>
      Decided samples query popped search.nodesToExplore)
      (fun h hround => Decided.pop h hshape hround) hshape ?_ hloop
    intro before id split after hpopped
    simp at hpopped
  have hroot' : root ∈ popped := by
    have hmem := hstart.run_of_step
      (P := fun popped search => root ∈ popped ++ search.nodesToExplore)
      (fun {popped node rest best search} h hround hmem => ?_) hshape (by simp) hloop
    · simpa using hmem
    · rcases h.round_cases hshape hround with
        ⟨id, sampleId, point, rfl, -, rfl⟩ | ⟨id, split, left, right, rfl, -, -, rfl⟩
      all_goals
        simp only [List.mem_append, List.mem_cons, List.not_mem_nil, or_false] at hmem ⊢
        tauto
  rw [List.nil_append] at hdone
  refine ⟨popped, nearest, fun fuel hfuel => ?_, hdone, hdecided, ?_, ?_⟩
  · have hlong := exploreLoopTraced_mono hloop (Nat.succ_le_of_lt hfuel)
    rw [findNearestNeighborTraced_eq hquery hpos hroot, findNearestNeighbor_eq hquery hpos hroot]
    exact ⟨hlong, exploreLoop_eq_of_traced hlong⟩
  · exact List.mem_map.mpr ⟨root, hroot', kdTree.id_eq hroot⟩
  · have hfirst := hstart.run_of_step (P := fun popped search =>
      search.currentNearestNeighbor.squaredDistance = ⊤ ∨
        IsFirstLeaf samples query popped search.currentNearestNeighbor)
      (fun h hround => IsFirstLeaf.pop h hshape hround) hshape (.inl rfl) hloop
    rcases hfirst with htop | hfirst
    · rcases hdone.best with ⟨-, hne⟩ | hleaf
      · exact absurd rfl hne
      · rw [hleaf.squaredDistance_eq] at htop
        exact absurd htop (WithTop.coe_ne_top)
    · exact hfirst

/-- The search in a well shaped array without a slot from `numNodes` on, whatever its splits
are: for every internal node it pops, it pops the left child if and only if no leaf popped
before that node is closer to the query than the box on the left; likewise the right child;
and of two children the one with the closer box is popped first. -/
theorem findNearestNeighbor_decides {numNodes : ℕ}
    (hslots : ∀ id ≥ numNodes, kdTree.getNode id = none) (hshape : kdTree.WellShaped samples)
    (hquery : query.coefficients.length = samples.cols) :
    ∃ popped nearest,
      (∀ fuel > numNodes,
        findNearestNeighborTraced fuel samples kdTree query = .ok (popped, nearest) ∧
        findNearestNeighbor fuel samples kdTree query = .ok nearest) ∧
      ∀ before id split after, popped = before ++ .internal id split :: after →
        DecidedAt samples query (popped.map Node.getId) before id split := by
  obtain ⟨popped, nearest, htraced, -, hdecided, -, -⟩ :=
    exists_findNearestNeighborTraced hslots hshape hquery
  refine ⟨popped, nearest, htraced, fun before id split after hpopped => ?_⟩
  have hat := hdecided before id split after hpopped
  rwa [List.append_nil] at hat

/-- The search on the array whose boxes are crossed. -/
theorem findNearestNeighbor_decides_crossedTree :
    ∃ popped nearest,
      (∀ fuel > 3,
        findNearestNeighborTraced fuel lineSamples crossedTree ⟨[1 / 4]⟩ = .ok (popped, nearest) ∧
        findNearestNeighbor fuel lineSamples crossedTree ⟨[1 / 4]⟩ = .ok nearest) ∧
      ∀ before id split after, popped = before ++ .internal id split :: after →
        DecidedAt lineSamples ⟨[1 / 4]⟩ (popped.map Node.getId) before id split := by
  have hslots : ∀ id ≥ 3, crossedTree.getNode id = none :=
    getNode_write_create (by simp [layout_node, layout_leaf, KDTree.leftNodeId, KDTree.rightNodeId])
  have hstored : crossedTree.Stored 0 (.node crossedSplit (.leaf 0) (.leaf 1)) :=
    stored_write (.start (.create 3)) 0 _
  have hshape : crossedTree.WellShaped lineSamples := by
    apply hstored.wellShaped ⟨3, hslots⟩
    · simp [leaves, lineSamples]
    · refine ⟨?_, trivial, trivial⟩
      constructor <;> simp [crossedSplit, lineSamples]
  exact findNearestNeighbor_decides hslots hshape rfl

/-- No child on the way to a leaf is skipped if the boxes on the way are no farther from the
query than the sample of the leaf, and the sample is not farther than those already found. -/
theorem Decided.exists_popped {id : ℕ} {sampleId : ℤ} {bound : K}
    (hdecided : Decided samples query popped [])
    (hnodes : ∀ node ∈ popped, kdTree.getNode node.getId = some node)
    (hbound : Admits samples query popped bound)
    (hboxes : ∀ {id id' split}, kdTree.getNode id = some (.internal id' split) →
      id ∈ popped.map Node.getId →
      (kdTree.LeafBelow (KDTree.leftNodeId id) sampleId →
        (split.getDistancesFromSplits query).1 ≤ bound) ∧
      (kdTree.LeafBelow (KDTree.rightNodeId id) sampleId →
        (split.getDistancesFromSplits query).2 ≤ bound))
    (hbelow : kdTree.LeafBelow id sampleId) (hid : id ∈ popped.map Node.getId) :
    ∃ id', .leaf id' sampleId ∈ popped := by
  -- a popped node is the one in its slot, and was decided about if it is an internal one
  have hpopped {id : ℕ} {node : Node K} (hnode : kdTree.getNode id = some node)
      (hid : id ∈ popped.map Node.getId) : node ∈ popped := by
    obtain ⟨node', hmem, rfl⟩ := List.mem_map.mp hid
    obtain rfl := Option.some.inj (hnode.symm.trans (hnodes node' hmem))
    exact hmem
  have hdec {id id' : ℕ} {split : Split K} (hnode : kdTree.getNode id = some (.internal id' split))
      (hid : id ∈ popped.map Node.getId) : ∃ before,
        (∀ node ∈ before, node ∈ popped) ∧
        DecidedAt samples query (popped.map Node.getId) before id split := by
    obtain rfl : id' = id := kdTree.id_eq hnode
    obtain ⟨before, after, hsplit⟩ := List.append_of_mem (hpopped hnode hid)
    have hat := hdecided before id' split after hsplit
    rw [List.append_nil] at hat
    exact ⟨before, fun node hmem => by rw [hsplit]; exact List.mem_append_left _ hmem, hat⟩
  induction hbelow with
  | leaf hnode => exact ⟨_, hpopped hnode hid⟩
  | left hnode hbelow ih =>
    obtain ⟨before, hsub, hat⟩ := hdec hnode hid
    apply ih hboxes
    apply hat.left_iff.mpr
    intro id' s point hmem hrow
    exact ((hboxes hnode hid).1 hbelow).trans (hbound id' s point (hsub _ hmem) hrow)
  | right hnode hbelow ih =>
    obtain ⟨before, hsub, hat⟩ := hdec hnode hid
    apply ih hboxes
    apply hat.right_iff.mpr
    intro id' s point hmem hrow
    exact ((hboxes hnode hid).2 hbelow).trans (hbound id' s point (hsub _ hmem) hrow)

/-- A leaf that was popped names a row of the matrix. -/
theorem Exploring.exists_sample {search : Search K} {id : ℕ} {sampleId : ℤ}
    (h : Exploring samples kdTree query popped search) (hshape : kdTree.WellShaped samples)
    (hmem : .leaf id sampleId ∈ popped) : ∃ i : ℕ, sampleId = i ∧ i < samples.rows := by
  obtain ⟨hreach, hnode⟩ := h.reachable _ (List.mem_append_left _ hmem)
  obtain ⟨hnonneg, hlt⟩ := hshape.leaves hreach hnode
  obtain ⟨i, rfl⟩ := Int.eq_ofNat_of_zero_le hnonneg
  exact ⟨i, rfl, by omega⟩

/-- If the leaf of a nearest sample was popped, the first best leaf is the first leaf of a
nearest sample. -/
theorem IsFirstLeaf.isNearest {nearest : NearestNeighbor K} {i id : ℕ}
    (hfirst : IsFirstLeaf samples query popped nearest)
    (h : Exploring samples kdTree query popped ⟨[], nearest⟩) (hshape : kdTree.WellShaped samples)
    (hi : IsNearest samples query i) (hmem : .leaf id (i : ℤ) ∈ popped) :
    ∃ (before : List (Node K)) (id' s : ℕ) (after : List (Node K)),
      popped = before ++ .leaf id' s :: after ∧ nearest.sampleId = s ∧
      IsNearest samples query s ∧
      ∀ id' k : ℕ, .leaf id' k ∈ before → ¬IsNearest samples query k := by
  have hleaf : IsLeafOf samples query popped nearest := by
    rcases h.best with ⟨-, hne⟩ | hleaf
    · exact absurd rfl hne
    · exact hleaf
  obtain ⟨before, id', after, hpopped, hbefore⟩ := hfirst
  obtain ⟨s, hs, hlt⟩ := h.exists_sample hshape (hpopped ▸ List.mem_append_right _ (.head _))
  have hdistance : nearest.squaredDistance = sampleDistance samples query s := by
    have hrow := hleaf.row_eq
    rw [hs, samples.row_natCast hlt] at hrow
    rw [hleaf.squaredDistance_eq, ← Except.ok.inj hrow]
    rfl
  have hle : sampleDistance samples query s ≤ sampleDistance samples query i := by
    have hcloser := h.noneCloser id i _ hmem (samples.row_natCast hi.1)
    rw [hdistance] at hcloser
    exact WithTop.coe_le_coe.mp hcloser
  refine ⟨before, id', s, after, hs ▸ hpopped, hs, ⟨hlt, fun k hk => hle.trans (hi.2 k hk)⟩, ?_⟩
  intro id'' k hk hnearest
  have hstrict := hbefore id'' k _ hk (samples.row_natCast hnearest.1)
  rw [hdistance] at hstrict
  exact absurd (hnearest.2 s hlt) (not_le.mpr (WithTop.coe_lt_coe.mp hstrict))

omit [Field K] [LinearOrder K] in
/-- There are no nodes beyond the array and the last slot of the tree. -/
theorem exists_getNode_eq_none (numNodes : ℕ) (t : SplitTree (Split K) ℕ) :
    ∃ n, ∀ id ≥ n,
      ((Build.start (.create numNodes)).write (layout 0 t)).kdtree.getNode id = none := by
  refine ⟨numNodes + ((layout 0 t).map Node.getId).sum + 1, fun id hid => ?_⟩
  have hnotMem : id ∉ (layout 0 t).map Node.getId := by
    intro hmem
    have := List.le_sum_of_mem hmem
    omega
  have hcreate := KDTree.getNode_create (K := K) numNodes id
  rw [if_neg (by omega)] at hcreate
  exact (KDTree.getNode_foldl_insert_of_notMem _ hnotMem).trans hcreate

/-- A split that fits its two sides has the dimensions of the samples. -/
theorem SplitFits.hasDimensions {split : Split K} {less greater : List ℕ}
    (h : SplitFits samples split less greater) : split.HasDimensions samples.cols where
  splitDimension_lt := h.dimension_lt
  splitPoint := h.splitPoint_length
  leftMax := h.left.maxPoint_length
  leftMin := h.left.minPoint_length
  rightMax := h.right.maxPoint_length
  rightMin := h.right.minPoint_length

variable [IsStrictOrderedRing K]

/-- In a tree that fits the samples, the boxes on the way to a leaf are no farther from the
query than its sample. -/
theorem KDTree.Stored.boxes_le {t : SplitTree (Split K) ℕ} (hstored : kdTree.Stored 0 t)
    (hfits : t.ForallNodes (SplitFits samples)) (hquery : query.coefficients.length = samples.cols)
    {id id' i : ℕ} {split : Split K} (hid : kdTree.Reachable id)
    (hnode : kdTree.getNode id = some (.internal id' split)) :
    (kdTree.LeafBelow (KDTree.leftNodeId id) i →
      (split.getDistancesFromSplits query).1 ≤ sampleDistance samples query i) ∧
    (kdTree.LeafBelow (KDTree.rightNodeId id) i →
      (split.getDistancesFromSplits query).2 ≤ sampleDistance samples query i) := by
  obtain ⟨l, r, hfit, hl, hr⟩ := hstored.children_of_reachable hfits hid hnode
  have hlen : query.coefficients.length =
      ((Segment.ofSamples samples).getPoint i).coefficients.length := by
    rw [hquery, Segment.getPoint_length]
    rfl
  constructor
  · intro hbelow
    obtain ⟨k, hk, hik⟩ := hl.leafBelow_iff.mp hbelow
    obtain rfl : i = k := by exact_mod_cast hik
    exact Bounds.distanceFromPoint_le (hfit.leftBox_contains hk) hlen
  · intro hbelow
    obtain ⟨k, hk, hik⟩ := hr.leafBelow_iff.mp hbelow
    obtain rfl : i = k := by exact_mod_cast hik
    exact Bounds.distanceFromPoint_le (hfit.rightBox_contains hk) hlen

/-- In the tree that the recursive builder leaves in a fresh array, the search comes to the
leaf of every nearest sample, however many there are, and returns the one it came to first. -/
theorem findNearestNeighbor_tied (std : StdAlgorithms K) (hrows : 0 < samples.rows)
    (hcols : 0 < samples.cols) (dimensionSelectorType : DimensionSelectorType)
    (splittingMethod : SplittingMethod) (numNodes : ℕ)
    (hquery : query.coefficients.length = samples.cols) :
    ∃ out popped nearest,
      (∀ fuel ≥ samples.rows, buildUsingRecursion std fuel
        (rootItem samples dimensionSelectorType splittingMethod) (.start (.create numNodes)) =
          .ok out) ∧
      (∃ rounds, ∀ fuel > rounds,
        findNearestNeighborTraced fuel samples out.kdtree query = .ok (popped, nearest) ∧
        findNearestNeighbor fuel samples out.kdtree query = .ok nearest) ∧
      (∀ i, IsNearest samples query i → ∃ id, .leaf id i ∈ popped) ∧
      ∃ (before : List (Node K)) (id s : ℕ) (after : List (Node K)),
        popped = before ++ .leaf id s :: after ∧ nearest.sampleId = s ∧
        IsNearest samples query s ∧
        ∀ id' k : ℕ, .leaf id' k ∈ before → ¬IsNearest samples query k := by
  have hvalid := rootItem_valid hrows hcols dimensionSelectorType splittingMethod
  obtain ⟨t, ht, hbuild⟩ := hvalid.exists_build std
  have hlength : (rootItem samples dimensionSelectorType
      splittingMethod).sampleIdsInSegment.length = samples.rows := List.length_range
  rw [hlength] at hbuild
  have hfits : t.ForallNodes (SplitFits samples) := ht.forallNodes hvalid
  have hleaves {i : ℕ} : i ∈ t.leaves ↔ i < samples.rows := ht.mem_leaves_iff
  have hstored := stored_write (.start (.create numNodes)) 0 t
  obtain ⟨n, hslots⟩ := exists_getNode_eq_none numNodes t
  have hshape := hstored.wellShaped ⟨n, hslots⟩ (fun i => hleaves.mp)
    (hfits.imp fun split l r h => h.hasDimensions)
  obtain ⟨popped, nearest, htraced, hdone, hdecided, hroot, hfirst⟩ :=
    exists_findNearestNeighborTraced hslots hshape hquery
  have hall : ∀ i, IsNearest samples query i → ∃ id, .leaf id i ∈ popped := by
    intro i hi
    have hadmits : Admits samples query popped (sampleDistance samples query i) := by
      intro id s point hmem hrow
      obtain ⟨k, rfl, hk⟩ := hdone.exists_sample hshape hmem
      rw [samples.row_natCast hk] at hrow
      obtain rfl := Except.ok.inj hrow
      exact hi.2 k hk
    apply hdecided.exists_popped (fun node hmem => ?_) hadmits (fun hnode hmem => ?_)
      (hstored.leafBelow_iff.mpr ⟨i, hleaves.mpr hi.1, rfl⟩) hroot
    · exact (hdone.reachable node (List.mem_append_left _ hmem)).2
    · obtain ⟨node, hpopped, rfl⟩ := List.mem_map.mp hmem
      have hreach := (hdone.reachable node (List.mem_append_left _ hpopped)).1
      exact hstored.boxes_le hfits hquery hreach hnode
  obtain ⟨i, hi⟩ := exists_isNearest hrows query
  obtain ⟨id, hmem⟩ := hall i hi
  exact ⟨_, popped, nearest, hbuild _, ⟨n, htraced⟩, hall,
    hfirst.isNearest hdone hshape hi hmem⟩

/-- A query halfway between two of the samples on a diagonal. -/
theorem findNearestNeighbor_tied_diagonal :
    ∃ out popped nearest,
      (∀ fuel ≥ 3, buildUsingRecursion .sorting fuel
        (rootItem diagonalSamples .highestRangeAxis .median) (.start (.create 7)) = .ok out) ∧
      (∃ rounds, ∀ fuel > rounds,
        findNearestNeighborTraced fuel diagonalSamples out.kdtree ⟨[5 / 2, 7 / 2, 9 / 2]⟩ =
          .ok (popped, nearest) ∧
        findNearestNeighbor fuel diagonalSamples out.kdtree ⟨[5 / 2, 7 / 2, 9 / 2]⟩ =
          .ok nearest) ∧
      (∀ i, IsNearest diagonalSamples ⟨[5 / 2, 7 / 2, 9 / 2]⟩ i →
        ∃ id, .leaf id i ∈ popped) ∧
      ∃ (before : List (Node ℚ)) (id s : ℕ) (after : List (Node ℚ)),
        popped = before ++ .leaf id s :: after ∧ nearest.sampleId = s ∧
        IsNearest diagonalSamples ⟨[5 / 2, 7 / 2, 9 / 2]⟩ s ∧
        ∀ id' k : ℕ, .leaf id' k ∈ before →
          ¬IsNearest diagonalSamples ⟨[5 / 2, 7 / 2, 9 / 2]⟩ k :=
  findNearestNeighbor_tied .sorting diagonalSamples_pos.1 diagonalSamples_pos.2
    .highestRangeAxis .median 7 rfl

end Kdtree
