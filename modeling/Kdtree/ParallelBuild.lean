import Kdtree.BuildSpec
import Kdtree.General.WorkList

/-!
# Every schedule of the parallel builder builds the same tree

A pending item will, whatever the schedule, write the layout of the tree over its
segment. The work list conserves this total, so the nodes written in the end are
those of the recursive builder in some order. Their slots are different, and the
order does not matter.
-/

namespace Kdtree

open SplitTree WorkList

variable {K : Type} [Field K] [LinearOrder K]

/-- A run of the parallel builder on an item, apart from the tree it writes to. -/
inductive Processes (std : StdAlgorithms K) :
    DataToBuildNodes K → List (Node K) → List (DataToBuildNodes K) → Prop
  | leaf {item : DataToBuildNodes K} {sampleId : ℕ} (hid : item.sampleIdsInSegment = [sampleId]) :
      Processes std item [.leaf item.nodeId sampleId] []
  | node {item : DataToBuildNodes K} {d : ℕ} {sws : SplitWithSegments K}
      (hsplit : SplitsAt std item d sws) :
      Processes std item [.internal item.nodeId sws.split]
        [item.lessChild d sws, item.greaterChild d sws]

/-- The parallel builder appends the writes of the item to the tree. -/
theorem run_eq_ok {std : StdAlgorithms K} {item : DataToBuildNodes K} {build build' : Build K}
    {fed : List (DataToBuildNodes K)}
    (hrun : ParallelNodeBuilder.run std item build = .ok (build', fed)) :
    ∃ writes, Processes std item writes fed ∧ build' = build.write writes := by
  by_cases hlen : item.sampleIdsInSegment.length = 1
  · obtain ⟨sampleId, hid⟩ := List.length_eq_one_iff.mp hlen
    rw [run_leaf std hid] at hrun
    obtain ⟨rfl, rfl⟩ := Prod.mk.inj (Except.ok.inj hrun)
    exact ⟨_, .leaf hid, rfl⟩
  · have hsplit : ∃ d sws, SplitsAt std item d sws := by
      rw [ParallelNodeBuilder.run] at hrun
      split at hrun
      next sampleId hid => exact absurd (congrArg List.length hid) hlen
      next =>
        cases hget : DimensionSelectorByType.get item.segment item.dimensionSelectorType
            item.lastDimensionUsedForSplitting with
        | error fault =>
          simp only [DataToBuildNodes.segment] at hget
          simp [hget, bind, Except.bind] at hrun
        | ok d =>
          cases hgen : SplitPointSelector.generate std item.segment item.splittingMethod d with
          | error fault =>
            simp only [DataToBuildNodes.segment] at hget hgen
            simp [hget, hgen, bind, Except.bind] at hrun
          | ok sws => exact ⟨d, sws, hlen, hget, generate_eq_ok_iff.mp hgen⟩
    obtain ⟨d, sws, hsplit⟩ := hsplit
    rw [run_node std hsplit] at hrun
    obtain ⟨rfl, rfl⟩ := Prod.mk.inj (Except.ok.inj hrun)
    exact ⟨_, .node hsplit, rfl⟩

/-- A valid item can be run on any tree. -/
theorem DataToBuildNodes.Valid.exists_run [IsStrictOrderedRing K] (std : StdAlgorithms K)
    {item : DataToBuildNodes K} (hvalid : item.Valid) (build : Build K) :
    ∃ out, ParallelNodeBuilder.run std item build = .ok out := by
  by_cases hlen : item.sampleIdsInSegment.length = 1
  · obtain ⟨sampleId, hid⟩ := List.length_eq_one_iff.mp hlen
    exact ⟨_, run_leaf std hid build⟩
  · obtain ⟨d, sws, hsplit⟩ := hvalid.exists_splitsAt std hlen
    exact ⟨_, run_node std hsplit build⟩

/-- What an item will have written when it and all items it leads to are done:
the layout of the tree over its segment. -/
noncomputable def totalWrites (std : StdAlgorithms K) (item : DataToBuildNodes K) :
    Multiset (Node K) := by
  classical
  exact if h : ∃ t, BuiltFrom std item t then layout item.nodeId h.choose else 0

/-- The nodes below an item are those of the tree built from it. -/
theorem BuiltFrom.totalWrites_eq {std : StdAlgorithms K} {item : DataToBuildNodes K}
    {t : SplitTree (Split K) ℕ} (h : BuiltFrom std item t) :
    totalWrites std item = layout item.nodeId t := by
  have hex : ∃ t, BuiltFrom std item t := ⟨t, h⟩
  rw [totalWrites, dif_pos hex, hex.choose_spec.unique h]

/-- The state of the work list behind a state of the parallel builder. -/
def ParallelState.workList (state : ParallelState K) :
    WorkList.State (DataToBuildNodes K) (Node K) :=
  ⟨state.pending, state.build.written⟩

/-- A step of the parallel builder is a step of its work list, and writes to the
tree what it appends to the record. -/
theorem ParallelStep.workList {std : StdAlgorithms K} {s t : ParallelState K}
    (h : ParallelStep std s t) :
    Step (Processes std) s.workList t.workList ∧
      ∃ writes, t.build = s.build.write writes := by
  obtain ⟨hrun⟩ := h
  obtain ⟨writes, hprocess, rfl⟩ := run_eq_ok hrun
  exact ⟨.run hprocess, writes, rfl⟩

/-- Along every run the tree is the initial one with the recorded nodes inserted. -/
theorem parallelRun {std : StdAlgorithms K} {item : DataToBuildNodes K} {kdtree : KDTree K}
    {state : ParallelState K}
    (hrun : Relation.ReflTransGen (ParallelStep std) (buildInParallel item (.start kdtree)) state) :
    Relation.ReflTransGen (Step (Processes std)) ⟨{item}, []⟩ state.workList ∧
      state.build.kdtree = state.build.written.foldl KDTree.insert kdtree := by
  induction hrun with
  | refl => exact ⟨.refl, rfl⟩
  | tail _ hstep ih =>
    obtain ⟨hwork, writes, hbuild⟩ := hstep.workList
    refine ⟨ih.1.tail hwork, ?_⟩
    rw [hbuild, Build.write, ih.2, List.foldl_append]

variable [IsStrictOrderedRing K]

/-- The work list of the parallel builder conserves the layouts of its items. -/
theorem conserves (std : StdAlgorithms K) :
    Conserves (Processes std) DataToBuildNodes.Valid (totalWrites std) where
  writes_ne_nil _ hprocess := by cases hprocess <;> simp
  fed_valid hvalid hprocess i hi := by
    cases hprocess with
    | leaf hid => cases hi
    | node hsplit =>
      simp only [List.mem_cons, List.not_mem_nil, or_false] at hi
      rcases hi with rfl | rfl
      · exact hvalid.lessChild hsplit
      · exact hvalid.greaterChild hsplit
  total_eq hvalid hprocess := by
    cases hprocess with
    | leaf hid =>
      rw [(BuiltFrom.leaf hid).totalWrites_eq, layout_leaf]
      simp
    | node hsplit =>
      obtain ⟨l, hl, -⟩ := (hvalid.lessChild hsplit).exists_builtFrom std
      obtain ⟨r, hr, -⟩ := (hvalid.greaterChild hsplit).exists_builtFrom std
      rw [(BuiltFrom.node hsplit hl hr).totalWrites_eq, layout_node]
      simp only [← Multiset.cons_coe, Multiset.coe_nil, Multiset.cons_bind, Multiset.zero_bind,
        add_zero, hl.totalWrites_eq, hr.totalWrites_eq, Multiset.cons_add, zero_add,
        Multiset.coe_add]
      rfl

/-- In every reachable state the pending items are valid, and what they will write
completes the record to the layout of the whole tree. -/
theorem reachable_total {std : StdAlgorithms K} {item : DataToBuildNodes K}
    {t : SplitTree (Split K) ℕ} (hvalid : item.Valid) (ht : BuiltFrom std item t)
    {kdtree : KDTree K} {state : ParallelState K}
    (hrun : Relation.ReflTransGen (ParallelStep std) (buildInParallel item (.start kdtree)) state) :
    (∀ i ∈ state.pending, i.Valid) ∧
      (state.build.written : Multiset (Node K)) + state.pending.bind (totalWrites std) =
        layout item.nodeId t := by
  have hstart : ∀ i ∈ ({item} : Multiset (DataToBuildNodes K)), i.Valid := by
    simpa using hvalid
  obtain ⟨hpending, htotal⟩ := (conserves std).run hstart (parallelRun hrun).1
  refine ⟨hpending, ?_⟩
  simpa [State.total, ParallelState.workList, ht.totalWrites_eq] using htotal

omit [IsStrictOrderedRing K] in
/-- A run of the parallel builder on an item can be made on any tree. -/
theorem Processes.run_eq {std : StdAlgorithms K} {item : DataToBuildNodes K}
    {writes : List (Node K)} {fed : List (DataToBuildNodes K)} (h : Processes std item writes fed)
    (build : Build K) :
    ParallelNodeBuilder.run std item build = .ok (build.write writes, fed) := by
  cases h with
  | leaf hid => exact run_leaf std hid build
  | node hsplit => exact run_node std hsplit build

omit [IsStrictOrderedRing K] in
/-- Every run of the work list is one of the parallel builder. -/
theorem exists_parallelRun_of_workList {std : StdAlgorithms K} {s : ParallelState K}
    {w : WorkList.State (DataToBuildNodes K) (Node K)}
    (hrun : Relation.ReflTransGen (Step (Processes std)) s.workList w) :
    ∃ t, Relation.ReflTransGen (ParallelStep std) s t ∧ t.workList = w := by
  induction hrun with
  | refl => exact ⟨s, .refl, rfl⟩
  | tail _ hstep ih =>
    obtain ⟨⟨pending, build⟩, hrun, rfl⟩ := ih
    obtain ⟨hprocess⟩ := hstep
    exact ⟨_, hrun.tail (.run (hprocess.run_eq build)), rfl⟩

/-- From a valid item, some schedule of the parallel builder finishes. -/
theorem DataToBuildNodes.Valid.exists_parallelRun (std : StdAlgorithms K)
    {item : DataToBuildNodes K} (hvalid : item.Valid) (build : Build K) :
    ∃ out, Relation.ReflTransGen (ParallelStep std) (buildInParallel item build) ⟨0, out⟩ := by
  have hprocess : ∀ i : DataToBuildNodes K, i.Valid → ∃ writes fed, Processes std i writes fed := by
    intro i hi
    obtain ⟨⟨_, fed⟩, hrun⟩ := hi.exists_run std build
    obtain ⟨writes, hwrites, -⟩ := run_eq_ok hrun
    exact ⟨writes, fed, hwrites⟩
  have hstart : ∀ i ∈ (buildInParallel item build).workList.pending, i.Valid := by
    simpa [ParallelState.workList, buildInParallel] using hvalid
  obtain ⟨w, hrun, hdone⟩ := (conserves std).exists_run hprocess hstart
  obtain ⟨⟨pending, out⟩, hparallel, rfl⟩ := exists_parallelRun_of_workList hrun
  obtain rfl : pending = 0 := hdone
  exact ⟨out, hparallel⟩

/-- The samples of the leaves an item will write are the samples of the item. -/
theorem filterMap_totalWrites {std : StdAlgorithms K} {item : DataToBuildNodes K}
    (hvalid : item.Valid) : (totalWrites std item).filterMap Node.leafSample =
      (item.sampleIdsInSegment : Multiset ℕ).map Nat.cast := by
  obtain ⟨t, ht, -⟩ := hvalid.exists_builtFrom std
  rw [ht.totalWrites_eq, Multiset.filterMap_coe, filterMap_leafSample_layout, Multiset.map_coe]
  exact Multiset.coe_eq_coe.mpr (ht.leaves_perm.map _)

/-- An item will write a node in its own slot. -/
theorem singleton_le_totalWrites {std : StdAlgorithms K} {item : DataToBuildNodes K}
    (hvalid : item.Valid) : {item.nodeId} ≤ (totalWrites std item).map Node.getId := by
  obtain ⟨t, ht, -⟩ := hvalid.exists_builtFrom std
  rw [ht.totalWrites_eq, Multiset.singleton_le, Multiset.map_coe, Multiset.mem_coe,
    map_getId_layout]
  exact root_mem_entries item.nodeId t

omit [Field K] [LinearOrder K] [IsStrictOrderedRing K] in
/-- One element of each member of a family is part of the family's union. -/
theorem map_le_bind {ι : Type} {s : Multiset ι} {f : ι → ℕ} {g : ι → Multiset ℕ}
    (h : ∀ i ∈ s, {f i} ≤ g i) : s.map f ≤ s.bind g := by
  induction s using Multiset.induction with
  | empty => simp
  | cons i s ih =>
    rw [Multiset.map_cons, Multiset.cons_bind, ← Multiset.singleton_add]
    exact add_le_add (h i (Multiset.mem_cons_self _ _))
      (ih fun j hj => h j (Multiset.mem_cons_of_mem hj))

/-- In every reachable state the slots of the recorded nodes are different, the map holds
the recorded nodes, and all other slots keep what they held. -/
theorem reachable_map {std : StdAlgorithms K} {item : DataToBuildNodes K} (hvalid : item.Valid)
    {kdtree : KDTree K} {state : ParallelState K}
    (hrun : Relation.ReflTransGen (ParallelStep std) (buildInParallel item (.start kdtree)) state) :
    ((state.build.written.map Node.getId : Multiset ℕ) +
      state.pending.map DataToBuildNodes.nodeId).Nodup ∧
    (∀ node ∈ state.build.written, state.build.kdtree.getNode node.getId = some node) ∧
    ∀ id ∉ state.build.written.map Node.getId,
      state.build.kdtree.getNode id = kdtree.getNode id := by
  obtain ⟨t, ht, -⟩ := hvalid.exists_builtFrom std
  obtain ⟨hpending, htotal⟩ := reachable_total hvalid ht hrun
  have hids := congrArg (Multiset.map Node.getId) htotal
  rw [Multiset.map_add, Multiset.map_coe, Multiset.map_bind, Multiset.map_coe] at hids
  have hnodup : ((state.build.written.map Node.getId : Multiset ℕ) +
      state.pending.map DataToBuildNodes.nodeId).Nodup := by
    refine Multiset.nodup_of_le ?_ (hids ▸ Multiset.coe_nodup.mpr (layout_ids_nodup _ t))
    exact add_le_add le_rfl (map_le_bind fun i hi => singleton_le_totalWrites (hpending i hi))
  have hwritten : (state.build.written.map Node.getId).Nodup :=
    Multiset.coe_nodup.mp (Multiset.nodup_of_le (Multiset.le_add_right _ _) hnodup)
  rw [(parallelRun hrun).2]
  exact ⟨hnodup, fun _ => KDTree.getNode_foldl_insert_of_mem _ hwritten,
    fun _ => KDTree.getNode_foldl_insert_of_notMem _⟩

/-- Every schedule of the parallel builder, from any node map and any valid item.
In every reachable state the samples of the pending items and of the leaves
written so far are those of the segment, each once, no node id occurs twice among
pending items and written nodes, the map holds every node written and is unchanged
elsewhere, and every pending item can be run. No sequence of steps is longer than
`2m - 1`. Every state without a pending item has the node map of the recursive
builder. -/
theorem buildInParallel_spec (std : StdAlgorithms K) {item : DataToBuildNodes K}
    (hvalid : item.Valid) (kdtree : KDTree K) :
    (∀ state, Relation.ReflTransGen (ParallelStep std)
        (buildInParallel item (.start kdtree)) state →
      (state.build.written.filterMap Node.leafSample : Multiset ℤ) +
          (state.pending.bind fun i => (i.sampleIdsInSegment : Multiset ℕ)).map Nat.cast =
        (item.sampleIdsInSegment : Multiset ℕ).map Nat.cast ∧
      (∀ i ∈ state.pending, i.sampleIdsInSegment ≠ []) ∧
      ((state.build.written.map Node.getId : Multiset ℕ) +
        state.pending.map DataToBuildNodes.nodeId).Nodup ∧
      (∀ node ∈ state.build.written, state.build.kdtree.getNode node.getId = some node) ∧
      (∀ id ∉ state.build.written.map Node.getId,
        state.build.kdtree.getNode id = kdtree.getNode id) ∧
      ∀ i ∈ state.pending, ∃ out, ParallelNodeBuilder.run std i state.build = .ok out) ∧
    (∀ (states : ℕ → ParallelState K) (n : ℕ), states 0 = buildInParallel item (.start kdtree) →
      (∀ k < n, ParallelStep std (states k) (states (k + 1))) →
      n ≤ 2 * item.sampleIdsInSegment.length - 1) ∧
    ∃ out : Build K,
      (∀ fuel ≥ item.sampleIdsInSegment.length,
        buildUsingRecursion std fuel item (.start kdtree) = .ok out) ∧
      ∀ state, Relation.ReflTransGen (ParallelStep std)
          (buildInParallel item (.start kdtree)) state →
        state.pending = 0 → state.build.kdtree = out.kdtree := by
  obtain ⟨t, ht, hbuild⟩ := hvalid.exists_build std
  refine ⟨fun state hrun => ?_, fun states n hstart hsteps => ?_, _, hbuild (.start kdtree),
    fun state hrun hdone => ?_⟩
  · obtain ⟨hpending, htotal⟩ := reachable_total hvalid ht hrun
    obtain ⟨hnodup, hmap, hother⟩ := reachable_map hvalid hrun
    refine ⟨?_, fun i hi => (hpending i hi).ids_ne_nil, hnodup, hmap, hother, fun i hi =>
      (hpending i hi).exists_run std state.build⟩
    have hleaves := congrArg (Multiset.filterMap Node.leafSample) htotal
    rw [Multiset.filterMap_add, Multiset.filterMap_bind,
      Multiset.bind_congr fun i hi => filterMap_totalWrites (hpending i hi),
      Multiset.filterMap_coe, Multiset.filterMap_coe, filterMap_leafSample_layout] at hleaves
    rw [Multiset.map_bind, hleaves, Multiset.map_coe]
    exact Multiset.coe_eq_coe.mpr (ht.leaves_perm.map _)
  · have hstart' : ∀ i ∈ (states 0).workList.pending, i.Valid := by
      rw [hstart]
      simpa [ParallelState.workList, buildInParallel] using hvalid
    have hle := (conserves std).length_le (fun k => (states k).workList) hstart'
      fun k hk => (hsteps k hk).workList.1
    rw [hstart] at hle
    simpa [State.total, ParallelState.workList, buildInParallel, Build.start, ht.totalWrites_eq,
      layout, entries_length, ht.leaves_perm.length_eq] using hle
  · obtain ⟨-, htotal⟩ := reachable_total hvalid ht hrun
    rw [hdone, Multiset.zero_bind, add_zero, Multiset.coe_eq_coe] at htotal
    rw [(parallelRun hrun).2]
    exact (KDTree.foldl_insert_perm kdtree htotal.symm (layout_ids_nodup _ t)).symm

/-- The parallel builder on the three samples, over an array that holds an empty
node: no schedule takes more than five steps, and each ends in the recursive
builder's tree. -/
theorem buildInParallel_diagonal :
    (∀ (states : ℕ → ParallelState ℚ) (n : ℕ), states 0 = buildInParallel
        (rootItem diagonalSamples .highestRangeAxis .median) (.start (.create 1)) →
      (∀ k < n, ParallelStep .sorting (states k) (states (k + 1))) → n ≤ 5) ∧
    ∃ out : Build ℚ,
      (∀ fuel ≥ 3, buildUsingRecursion .sorting fuel
        (rootItem diagonalSamples .highestRangeAxis .median) (.start (.create 1)) = .ok out) ∧
      ∀ state, Relation.ReflTransGen (ParallelStep .sorting) (buildInParallel
          (rootItem diagonalSamples .highestRangeAxis .median) (.start (.create 1))) state →
        state.pending = 0 → state.build.kdtree = out.kdtree :=
  (buildInParallel_spec .sorting (rootItem_valid diagonalSamples_pos.1 diagonalSamples_pos.2
    .highestRangeAxis .median) (.create 1)).2

end Kdtree
