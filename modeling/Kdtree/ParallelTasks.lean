import Kdtree.ParallelBuild
import Kdtree.ParallelDo

/-!
# The tasks of the parallel builder

`KDTreeBuilder::buildInParallel` hands one item to `parallel_do`. Every run of its
tasks is a run of the work list, so two bodies that are running at the same time
write to different slots, and when `parallel_do` returns the tree is the one of the
recursive builder. It does return: some task can always take a step, and the number of
steps is bounded.
-/

namespace Kdtree

open SplitTree ParallelDo TaskForest

variable {K : Type} [Field K] [LinearOrder K]

/-- The tree when certain bodies have written, and the nodes they have written. -/
def buildOf (kdtree : KDTree K) (s : ParallelDo.State (DataToBuildNodes K) (List (Node K))) :
    Build K := (Build.start kdtree).write (s.ran.flatMap Ran.writes)

variable {std : StdAlgorithms K} {item : DataToBuildNodes K}
  {s : ParallelDo.State (DataToBuildNodes K) (List (Node K))}

/-- Every run of the tasks is a run of the work list. -/
theorem workList_of_run
    (hrun : Relation.ReflTransGen (ParallelDo.Step (Processes std)) (start [item]) s) :
    Relation.ReflTransGen (WorkList.Step (Processes std)) ⟨{item}, []⟩ s.workList := by
  induction hrun with
  | refl =>
    have hstart : (start [item] : ParallelDo.State _ (List (Node K))).workList =
        ⟨{item}, []⟩ := by
      rw [ParallelDo.State.workList, ParallelDo.State.held, codes_start_cons, ran_start]
      simp [Code.held]
    rw [hstart]
  | tail hrun hstep ih =>
    rcases (inv_of_run hrun).workList hstep with heq | hwork
    · rwa [heq]
    · exact ih.tail hwork

/-- Every run of the tasks is a run of the parallel builder on whole items. -/
theorem parallelRun_of_run (kdtree : KDTree K)
    (hrun : Relation.ReflTransGen (ParallelDo.Step (Processes std)) (start [item]) s) :
    Relation.ReflTransGen (ParallelStep std) (buildInParallel item (.start kdtree))
      ⟨s.held, buildOf kdtree s⟩ := by
  obtain ⟨⟨pending, build⟩, hparallel, hwork⟩ :=
    exists_parallelRun_of_workList (s := buildInParallel item (.start kdtree))
      (workList_of_run hrun)
  obtain ⟨hpending, hwritten⟩ := WorkList.State.mk.inj hwork
  have hkdtree := (parallelRun hparallel).2
  have hbuild : build = buildOf kdtree s := by
    obtain ⟨kdtree', written⟩ := build
    dsimp only at hpending hwritten hkdtree
    rw [hkdtree, hwritten]
    simp [buildOf, Build.write, Build.start]
  obtain rfl : pending = s.held := hpending
  rwa [hbuild] at hparallel

/-- A body on an item writes one node, in the slot of the item. -/
theorem Processes.getId_eq {item : DataToBuildNodes K} {writes : List (Node K)}
    {fed : List (DataToBuildNodes K)} (h : Processes std item writes fed) :
    ∀ node ∈ writes, node.getId = item.nodeId := by
  cases h <;> simp

/-- A running body on an item writes in the slot of the item. -/
theorem getId_of_running
    (hrun : Relation.ReflTransGen (ParallelDo.Step (Processes std)) (start [item]) s) {t : ℕ}
    (ht : t ∈ s.tasks.live) {i : DataToBuildNodes K} {writes : List (Node K)}
    {fed : List (DataToBuildNodes K)} (hcode : s.tasks.code t = .running i writes fed) :
    ∀ node ∈ writes, node.getId = i.nodeId := by
  have hsound := (inv_of_run hrun).sound t ht
  rw [hcode] at hsound
  exact hsound.2.getId_eq

variable [IsStrictOrderedRing K]

/-- The slots that have been written and the slots of the items that no body has
written for are all different. -/
theorem slots_nodup (hvalid : item.Valid)
    (hrun : Relation.ReflTransGen (ParallelDo.Step (Processes std)) (start [item]) s) :
    (((s.ran.flatMap Ran.writes).map Node.getId : Multiset ℕ) +
      s.held.map DataToBuildNodes.nodeId).Nodup := by
  obtain ⟨t, ht, -⟩ := hvalid.exists_builtFrom std
  obtain ⟨hpending, htotal⟩ := reachable_total hvalid ht (parallelRun_of_run (.create 0) hrun)
  have hids := congrArg (Multiset.map Node.getId) htotal
  rw [Multiset.map_add, Multiset.map_coe, Multiset.map_bind, Multiset.map_coe] at hids
  have hnodup := Multiset.coe_nodup.mpr (layout_ids_nodup item.nodeId t)
  rw [← hids] at hnodup
  apply Multiset.nodup_of_le _ hnodup
  apply add_le_add
  · simp [buildOf, Build.write, Build.start]
  · exact map_le_bind fun i hi => singleton_le_totalWrites (hpending i hi)

/-- `buildInParallel` as tasks, from any node map and any valid item. Every run of the
tasks is a run of the parallel builder on whole items. Two bodies that run at the same
time never write to one slot, and no body writes to a slot that has been written. When
`parallel_do` has returned, no task is left and the node map is the one of the
recursive builder. -/
theorem buildInParallel_tasks (std : StdAlgorithms K) {item : DataToBuildNodes K}
    (hvalid : item.Valid) (kdtree : KDTree K) :
    ∃ out : Build K,
      (∀ fuel ≥ item.sampleIdsInSegment.length,
        buildUsingRecursion std fuel item (.start kdtree) = .ok out) ∧
      ∀ s, Relation.ReflTransGen (ParallelDo.Step (Processes std)) (start [item]) s →
        Relation.ReflTransGen (ParallelStep std) (buildInParallel item (.start kdtree))
          ⟨s.held, buildOf kdtree s⟩ ∧
        (∀ t₁ ∈ s.tasks.live, ∀ i₁ writes₁ fed₁,
          s.tasks.code t₁ = .running i₁ writes₁ fed₁ → ∀ node₁ ∈ writes₁,
            (∀ node ∈ (buildOf kdtree s).written, node₁.getId ≠ node.getId) ∧
            ∀ t₂ ∈ s.tasks.live, t₁ ≠ t₂ → ∀ i₂ writes₂ fed₂,
              s.tasks.code t₂ = .running i₂ writes₂ fed₂ → ∀ node₂ ∈ writes₂,
                node₁.getId ≠ node₂.getId) ∧
        (s.Returned → s.tasks.live = ∅ ∧ (buildOf kdtree s).kdtree = out.kdtree) := by
  obtain ⟨t, ht, hbuild⟩ := hvalid.exists_build std
  refine ⟨_, hbuild (.start kdtree), ?_⟩
  intro s hrun
  have hparallel := parallelRun_of_run kdtree hrun
  refine ⟨hparallel, ?_, ?_⟩
  · intro t₁ ht₁ i₁ writes₁ fed₁ hcode₁ node₁ hnode₁
    have hid₁ := getId_of_running hrun ht₁ hcode₁ node₁ hnode₁
    have hnodup := slots_nodup hvalid hrun
    -- the slot of the body stands apart from all others
    rw [ParallelDo.State.held, s.tasks.codes_eq ht₁, Multiset.add_bind, Multiset.singleton_bind,
      hcode₁, Code.held, Multiset.map_add, Multiset.map_singleton, add_left_comm,
      Multiset.singleton_add] at hnodup
    have hnotMem := (Multiset.nodup_cons.mp hnodup).1
    rw [Multiset.mem_add, not_or] at hnotMem
    rw [hid₁]
    refine ⟨?_, ?_⟩
    · intro node hnode heq
      apply hnotMem.1
      rw [heq]
      have hmem : node ∈ s.ran.flatMap Ran.writes := by
        simpa [buildOf, Build.write, Build.start] using hnode
      exact Multiset.mem_coe.mpr (List.mem_map_of_mem hmem)
    · intro t₂ ht₂ hne i₂ writes₂ fed₂ hcode₂ node₂ hnode₂ heq
      apply hnotMem.2
      rw [heq, getId_of_running hrun ht₂ hcode₂ node₂ hnode₂]
      have hmem : s.tasks.code t₂ ∈ (s.tasks.destroy t₁).codes :=
        Forest.mem_codes_iff.mpr ⟨t₂, Finset.mem_erase.mpr ⟨hne.symm, ht₂⟩, rfl⟩
      apply Multiset.mem_map_of_mem
      refine Multiset.mem_bind.mpr ⟨_, hmem, ?_⟩
      rw [hcode₂]
      exact Multiset.mem_singleton_self i₂
  · intro hreturned
    have hlive := (inv_of_run hrun).wellFormed.rooted.live_eq_empty hreturned
    refine ⟨hlive, ?_⟩
    have hheld : s.held = 0 := ParallelDo.State.held_eq_zero hlive
    obtain ⟨-, htotal⟩ := reachable_total hvalid ht hparallel
    rw [hheld, Multiset.zero_bind, add_zero, Multiset.coe_eq_coe] at htotal
    rw [(parallelRun hparallel).2]
    exact (KDTree.foldl_insert_perm kdtree htotal.symm (layout_ids_nodup _ t)).symm

/-- The tasks over the three samples, from an array that holds an empty node. -/
theorem buildInParallel_tasks_diagonal : ∃ out : Build ℚ,
    (∀ fuel ≥ 3, buildUsingRecursion .sorting fuel
      (rootItem diagonalSamples .highestRangeAxis .median) (.start (.create 1)) = .ok out) ∧
    ∀ s, Relation.ReflTransGen (ParallelDo.Step (Processes .sorting))
        (start [rootItem diagonalSamples .highestRangeAxis .median]) s →
      s.Returned → s.tasks.live = ∅ ∧ (buildOf (.create 1) s).kdtree = out.kdtree := by
  obtain ⟨out, hbuild, hruns⟩ := buildInParallel_tasks .sorting
    (rootItem_valid diagonalSamples_pos.1 diagonalSamples_pos.2 .highestRangeAxis .median)
    (.create 1)
  exact ⟨out, hbuild, fun s hrun => (hruns s hrun).2.2⟩

/-- The steps of the tasks of an item with so many samples. -/
def stepsOf (item : DataToBuildNodes K) : ℕ := 8 * item.sampleIdsInSegment.length - 5

/-- A body leaves three steps over when its items are fed. -/
theorem Processes.feedCost_le {item : DataToBuildNodes K} {writes : List (Node K)}
    {fed : List (DataToBuildNodes K)} (h : Processes std item writes fed) (hvalid : item.Valid) :
    feedCost stepsOf fed + 3 ≤ stepsOf item := by
  cases h with
  | leaf hid => simp [feedCost, stepsOf, hid]
  | @node d sws hsplit =>
    have hperm := hsplit.isSplit.perm.length_eq
    rw [List.length_append] at hperm
    have hless := List.length_pos_iff.mpr (hvalid.lessChild hsplit).ids_ne_nil
    have hgreater := List.length_pos_iff.mpr (hvalid.greaterChild hsplit).ids_ne_nil
    simp only [feedCost, stepsOf, List.map_cons, List.map_nil, List.sum_cons, List.sum_nil]
    simp only [DataToBuildNodes.lessChild, DataToBuildNodes.greaterChild,
      DataToBuildNodes.segment] at hperm hless hgreater ⊢
    omega

/-- Only valid items are held. -/
theorem valid_of_mem_held (hvalid : item.Valid)
    (hrun : Relation.ReflTransGen (ParallelDo.Step (Processes std)) (start [item]) s) :
    ∀ i ∈ s.held, i.Valid :=
  ((conserves std).run (by simpa using hvalid) (workList_of_run hrun)).1

/-- The tasks of the parallel builder never get stuck, and end: from any valid item,
some task can take a step until `parallel_do` has returned, and no sequence of steps is
longer than eight for each sample, less two. -/
theorem buildInParallel_returns (std : StdAlgorithms K) {item : DataToBuildNodes K}
    (hvalid : item.Valid) :
    (∀ s, Relation.ReflTransGen (ParallelDo.Step (Processes std)) (start [item]) s →
      ¬ s.Returned → ∃ s', ParallelDo.Step (Processes std) s s') ∧
    ∀ (states : ℕ → ParallelDo.State (DataToBuildNodes K) (List (Node K))) (n : ℕ),
      states 0 = start [item] →
      (∀ k < n, ParallelDo.Step (Processes std) (states k) (states (k + 1))) →
      n ≤ 8 * item.sampleIdsInSegment.length - 2 := by
  constructor
  · intro s hrun hreturned
    have hbarrier : myBarrier ∈ s.tasks.live := not_not.mp hreturned
    apply (inv_of_run hrun).exists_step ⟨myBarrier, hbarrier⟩
    intro t ht i hcode
    have hheld : i ∈ s.held := by
      apply ParallelDo.State.mem_held ht
      rw [hcode]
      exact Multiset.mem_singleton_self i
    obtain ⟨⟨build, fed⟩, hbody⟩ := (valid_of_mem_held hvalid hrun i hheld).exists_run std
      (.start (.create 0))
    obtain ⟨writes, hwrites, -⟩ := run_eq_ok hbody
    exact ⟨writes, fed, hwrites⟩
  · intro states n hstart hsteps
    have hreach : ∀ k ≤ n, Relation.ReflTransGen (ParallelDo.Step (Processes std)) (start [item])
        (states k) := by
      intro k
      induction k with
      | zero => exact fun _ => hstart ▸ .refl
      | succ k ih => exact fun hk => (ih (by omega)).tail (hsteps k (by omega))
    have hle := length_le_weight stepsOf states hsteps fun k hk i hi writes fed hbody =>
      hbody.feedCost_le (valid_of_mem_held hvalid (hreach k hk.le) i hi)
    have hpos := List.length_pos_iff.mpr hvalid.ids_ne_nil
    rw [hstart, ParallelDo.State.weight, codes_start_cons] at hle
    simp only [Multiset.map_add, Multiset.map_singleton, Multiset.sum_add, Multiset.sum_singleton,
      Code.weight, List.length_singleton, List.map_cons, List.map_nil, List.sum_cons, List.sum_nil,
      stepsOf] at hle
    omega

/-- Over the three samples no sequence of steps is longer than 22. -/
theorem buildInParallel_returns_diagonal :
    (∀ s, Relation.ReflTransGen (ParallelDo.Step (Processes .sorting))
        (start [rootItem diagonalSamples .highestRangeAxis .median]) s →
      ¬ s.Returned → ∃ s', ParallelDo.Step (Processes .sorting) s s') ∧
    ∀ (states : ℕ → ParallelDo.State (DataToBuildNodes ℚ) (List (Node ℚ))) (n : ℕ),
      states 0 = start [rootItem diagonalSamples .highestRangeAxis .median] →
      (∀ k < n, ParallelDo.Step (Processes .sorting) (states k) (states (k + 1))) → n ≤ 22 :=
  buildInParallel_returns .sorting
    (rootItem_valid diagonalSamples_pos.1 diagonalSamples_pos.2 .highestRangeAxis .median)

end Kdtree
