import Kdtree.Pruning

/-!
# The stack of the search

The loop taken one round at a time. A node on the stack has at most one node below it for
every level above it, so the stack stays logarithmic in the size of the array, although
the loop may come to all its slots.
-/

namespace Kdtree

open SplitTree

variable {K : Type} [Field K] [LinearOrder K]

/-- One round of the loop. -/
inductive SearchStep (samples : Samples K) (kdTree : KDTree K) (query : Point K) :
    Search K → Search K → Prop
  | round {node : Node K} {rest : List (Node K)} {best : NearestNeighbor K} {search : Search K}
      (hround : exploreNode samples kdTree query node ⟨rest, best⟩ = .ok search) :
      SearchStep samples kdTree query ⟨node :: rest, best⟩ search

variable {samples : Samples K} {kdTree : KDTree K} {query : Point K}

/-- Rounds that lead to an empty stack are what the loop does. -/
theorem exists_exploreLoop_eq {search : Search K} {nearest : NearestNeighbor K}
    (hrun : Relation.ReflTransGen (SearchStep samples kdTree query) search ⟨[], nearest⟩) :
    ∃ rounds, ∀ fuel > rounds, exploreLoop samples kdTree query fuel search = .ok nearest := by
  induction hrun using Relation.ReflTransGen.head_induction_on with
  | refl =>
    refine ⟨0, fun fuel hfuel => ?_⟩
    obtain ⟨fuel, rfl⟩ : ∃ n, fuel = n + 1 := ⟨fuel - 1, by omega⟩
    rfl
  | head hstep _ ih =>
    obtain ⟨rounds, hrounds⟩ := ih
    obtain ⟨hround⟩ := hstep
    refine ⟨rounds + 1, fun fuel hfuel => ?_⟩
    obtain ⟨fuel, rfl⟩ : ∃ n, fuel = n + 1 := ⟨fuel - 1, by omega⟩
    exact Fallible.bind_eq_ok_iff.mpr ⟨_, hround, hrounds fuel (by omega)⟩

/-- What the loop preserves: it is exploring, and every node on the stack lies deep enough. -/
theorem Exploring.stacked_pop {popped : List (Node K)} {node : Node K} {rest : List (Node K)}
    {best : NearestNeighbor K} {search : Search K}
    (h : Exploring samples kdTree query popped ⟨node :: rest, best⟩)
    (hshape : kdTree.WellShaped samples)
    (hround : exploreNode samples kdTree query node ⟨rest, best⟩ = .ok search)
    (hstacked : Stacked ((node :: rest).map Node.getId)) :
    Stacked (search.nodesToExplore.map Node.getId) := by
  rcases h.round_cases hshape hround with
    ⟨id, sampleId, point, rfl, -, rfl⟩ | ⟨id, split, left, right, rfl, hleft, hright, rfl⟩
  · exact hstacked.2
  · rw [List.map_append]
    apply hstacked.pop
    · rw [List.length_map, childrenToExplore_eq]
      split_ifs <;> simp
    · intro i hi
      obtain ⟨kid, hkid, rfl⟩ := List.mem_map.mp hi
      rcases mem_childrenToExplore hkid with rfl | rfl
      · exact .inl hleft
      · exact .inr hright

/-- In every state that the search of a well shaped array comes to, the loop can go on or has
ended with the result, and the stack is no longer than the number of slots has binary
digits. -/
theorem stack_le_of_wellShaped {numNodes : ℕ} {root : Node K}
    (hslots : ∀ id ≥ numNodes, kdTree.getNode id = none) (hshape : kdTree.WellShaped samples)
    (hroot : kdTree.getNode 0 = some root) {start : Point K} {search : Search K}
    (hrun : Relation.ReflTransGen (SearchStep samples kdTree query) ⟨[root], ⟨0, start, ⊤⟩⟩
      search) :
    search.nodesToExplore.length ≤ Nat.log 2 numNodes + 1 ∧
      (search.nodesToExplore = [] ∨ ∃ next, SearchStep samples kdTree query search next) := by
  obtain ⟨popped, h, hstacked⟩ : ∃ popped, Exploring samples kdTree query popped search ∧
      Stacked (search.nodesToExplore.map Node.getId) := by
    induction hrun with
    | refl =>
      refine ⟨[], .start hshape hroot start, ?_⟩
      exact Stacked.cons trivial (Nat.one_le_iff_ne_zero.mpr (Nat.succ_ne_zero _))
    | tail _ hstep ih =>
      obtain ⟨popped, h, hstacked⟩ := ih
      obtain ⟨hround⟩ := hstep
      obtain ⟨search', hround', h'⟩ := h.pop hshape
      obtain rfl := Except.ok.inj (hround.symm.trans hround')
      exact ⟨_, h', h.stacked_pop hshape hround hstacked⟩
  constructor
  · have hlt : ∀ i ∈ search.nodesToExplore.map Node.getId, i < numNodes := by
      intro i hi
      obtain ⟨node, hnode, rfl⟩ := List.mem_map.mp hi
      have hstored := (h.reachable node (List.mem_append_right _ hnode)).2
      by_contra hge
      rw [hslots _ (not_lt.mp hge)] at hstored
      cases hstored
    simpa using hstacked.length_le hlt
  · obtain ⟨stack, best⟩ := search
    cases stack with
    | nil => exact .inl rfl
    | cons node rest =>
      obtain ⟨search', hround, -⟩ := h.pop hshape
      exact .inr ⟨search', .round hround⟩

section ModelFile

variable [FloorRing K]

/-- Printing the points of a split keeps their dimensions. -/
theorem Split.HasDimensions.printed {split : Split K} {n : ℕ} (h : split.HasDimensions n) :
    split.printed.HasDimensions n where
  splitDimension_lt := h.splitDimension_lt
  splitPoint := (List.length_map _).trans h.splitPoint
  leftMax := (List.length_map _).trans h.leftMax
  leftMin := (List.length_map _).trans h.leftMin
  rightMax := (List.length_map _).trans h.rightMax
  rightMin := (List.length_map _).trans h.rightMin

variable [IsStrictOrderedRing K]

/-- What is loaded from a model file is well shaped if the tree fits into the array, and has
as many slots as were allocated. -/
theorem BuildKDTree.exists_load {std : StdAlgorithms K} {gzip : Gzip}
    {inputSampleDataset : List Text} (hsamples : loadSamples inputSampleDataset = .ok samples)
    (hcols : 0 < samples.cols) {selector : DimensionSelectorType}
    {splittingMethod : SplittingMethod} (hfits : FitsNodeArray std samples selector splittingMethod)
    {parallelExecution : Bool} {modelFile : Text}
    (hbuild : BuildKDTree std gzip inputSampleDataset selector splittingMethod parallelExecution
      modelFile) :
    ∃ kdTree, load gzip modelFile = .ok kdTree ∧ kdTree.WellShaped samples ∧
      ∀ id ≥ 2 ^ (Nat.log2 samples.rows + 2) - 1, kdTree.getNode id = none := by
  have hrows := rows_pos_of_loadSamples hsamples
  have hvalid := rootItem_valid hrows hcols selector splittingMethod
  obtain ⟨t, ht, -⟩ := hvalid.exists_builtFrom std
  obtain ⟨numNodes, hnumNodes, hload, hstored⟩ := hbuild.exists_stored hsamples hcols ht
  obtain ⟨hstored, hleaves⟩ := hstored hfits
  obtain rfl : numNodes = 2 ^ (Nat.log2 samples.rows + 2) - 1 := by
    by_cases hlt : samples.rows < 2 ^ 29
    · rw [getNumNodes_eq hrows.ne' hlt] at hnumNodes
      exact (Except.ok.inj hnumNodes).symm
    · rw [getNumNodes_overflow (not_lt.mp hlt)] at hnumNodes
      cases hnumNodes
  have hslots : ∀ id ≥ 2 ^ (Nat.log2 samples.rows + 2) - 1,
      (modelTree (2 ^ (Nat.log2 samples.rows + 2) - 1) t).printed.getNode id = none := by
    intro id hid
    apply KDTree.getNode_printed_of_le
    rwa [numNodes_modelTree]
  refine ⟨_, hload, hstored.wellShaped ⟨_, hslots⟩ hleaves ?_, hslots⟩
  apply forallNodes_mapSplits.mpr
  exact (ht.forallNodes hvalid).imp fun split l r h => h.hasDimensions.printed

omit [FloorRing K] [IsStrictOrderedRing K] [Field K] [LinearOrder K] in
/-- What is well shaped stays so for samples with more rows. -/
theorem KDTree.WellShaped.mono {current : Samples K} (h : kdTree.WellShaped samples)
    (hcols : current.cols = samples.cols) (hrows : samples.rows ≤ current.rows) :
    kdTree.WellShaped current where
  finite := h.finite
  root := h.root
  children := h.children
  splits hid hnode := hcols ▸ h.splits hid hnode
  leaves hid hnode := by
    obtain ⟨hnonneg, hlt⟩ := h.leaves hid hnode
    exact ⟨hnonneg, by omega⟩

/-- The search of a model file that was built from `m` samples whose tree fits into the
array: in every state that it comes to, for any query, at most `log2 m + 2` nodes are on
the stack, and the loop can go on or has ended with the result of the search. -/
theorem findNearestNeighbor_stack {std : StdAlgorithms K} {gzip : Gzip}
    {inputSampleDataset : List Text} (hsamples : loadSamples inputSampleDataset = .ok samples)
    (hcols : 0 < samples.cols) {selector : DimensionSelectorType}
    {splittingMethod : SplittingMethod} (hfits : FitsNodeArray std samples selector splittingMethod)
    {parallelExecution : Bool} {modelFile : Text}
    (hbuild : BuildKDTree std gzip inputSampleDataset selector splittingMethod parallelExecution
      modelFile) :
    ∃ kdTree root, load gzip modelFile = .ok kdTree ∧ kdTree.getNode 0 = some root ∧
      ∀ query : Point K, query.coefficients.length = samples.cols → ∀ search,
        Relation.ReflTransGen (SearchStep samples kdTree query)
          ⟨[root], ⟨0, (Segment.ofSamples samples).getPoint 0, ⊤⟩⟩ search →
        search.nodesToExplore.length ≤ Nat.log2 samples.rows + 2 ∧
          ((∃ next, SearchStep samples kdTree query search next) ∨
            ∃ nearest, search = ⟨[], nearest⟩ ∧ ∃ rounds, ∀ fuel > rounds,
              findNearestNeighbor fuel samples kdTree query = .ok nearest) := by
  have hrows := rows_pos_of_loadSamples hsamples
  obtain ⟨kdTree, hload, hshape, hslots⟩ := BuildKDTree.exists_load hsamples hcols hfits hbuild
  obtain ⟨root, hroot, -⟩ := hshape.root
  refine ⟨kdTree, root, hload, hroot, fun query hquery search hrun => ?_⟩
  obtain ⟨hlength, hnext⟩ := stack_le_of_wellShaped hslots hshape hroot hrun
  constructor
  · have hpow := Nat.two_pow_pos (Nat.log2 samples.rows + 2)
    have hlog : Nat.log 2 (2 ^ (Nat.log2 samples.rows + 2) - 1) < Nat.log2 samples.rows + 2 :=
      Nat.log_lt_of_lt_pow' (by omega) (by omega)
    omega
  · rcases hnext with hempty | hnext
    · right
      obtain ⟨stack, nearest⟩ := search
      obtain rfl : stack = [] := hempty
      obtain ⟨rounds, hrounds⟩ := exists_exploreLoop_eq hrun
      refine ⟨nearest, rfl, rounds, fun fuel hfuel => ?_⟩
      rw [findNearestNeighbor_eq hquery hrows hroot]
      exact hrounds fuel hfuel
    · exact .inl hnext

end ModelFile

/-- The search of a model file that was built from three lines. -/
theorem findNearestNeighbor_stack_shortLines : ∃ (modelFile : Text) (kdTree : KDTree ℚ)
    (root : Node ℚ),
    BuildKDTree (K := ℚ) .sorting .stored shortLines .highestRangeAxis .medianOfMedian true
      modelFile ∧
    load .stored modelFile = .ok kdTree ∧ kdTree.getNode 0 = some root ∧
    ∀ query : Point ℚ, query.coefficients.length = 2 → ∀ search,
      Relation.ReflTransGen (SearchStep shortSamples kdTree query)
        ⟨[root], ⟨0, (Segment.ofSamples shortSamples).getPoint 0, ⊤⟩⟩ search →
      search.nodesToExplore.length ≤ Nat.log2 3 + 2 ∧
        ((∃ next, SearchStep shortSamples kdTree query search next) ∨
          ∃ nearest, search = ⟨[], nearest⟩ ∧ ∃ rounds, ∀ fuel > rounds,
            findNearestNeighbor fuel shortSamples kdTree query = .ok nearest) := by
  obtain ⟨hfits, modelFile, hbuild⟩ := exists_buildKDTree .sorting .stored loadSamples_shortLines
    (by decide) (by decide) .highestRangeAxis .medianOfMedian true
  obtain ⟨kdTree, root, hload, hroot, hsearch⟩ :=
    findNearestNeighbor_stack loadSamples_shortLines (by decide) hfits hbuild
  exact ⟨modelFile, kdTree, root, hbuild, hload, hroot, hsearch⟩

end Kdtree
