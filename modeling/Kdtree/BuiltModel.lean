import Kdtree.BoundingBox
import Kdtree.Capacity
import Kdtree.KDTreeHandler
import Kdtree.ParallelBuild
import Kdtree.Reload

/-!
# The model file of a built tree

Either builder leaves the tree over all samples in an array whose other slots are
empty. The file that is written holds the nodes that lie within the array; if the
tree fits into it, that is the same tree with printed splits.
-/

namespace Kdtree

open SplitTree

variable {K : Type}

/-- The array of the program with a tree in it, laid out from slot zero. -/
def modelTree (numNodes : ℕ) (t : SplitTree (Split K) ℕ) : KDTree K :=
  (layout 0 t).foldl KDTree.insert (.create numNodes)

/-- The array holds the tree. -/
theorem stored_modelTree (numNodes : ℕ) (t : SplitTree (Split K) ℕ) :
    (modelTree numNodes t).Stored 0 t := stored_write (.start (.create numNodes)) 0 t

/-- The array has as many slots as it was made with. -/
@[simp] theorem numNodes_modelTree (numNodes : ℕ) (t : SplitTree (Split K) ℕ) :
    (modelTree numNodes t).numNodes = numNodes := by
  rw [modelTree, KDTree.numNodes_foldl_insert, KDTree.numNodes_create]

variable [Field K]

/-- The matrix of rows that all have as many entries as the first. -/
def Samples.ofRows (items : List (List K)) : Samples K :=
  ⟨items.length, (items.headD []).length, fun i j => (items.getD i []).getD j 0⟩

/-- A file is loaded as the rows of its lines if and only if it has a line, no line has
fewer numbers than the first, and the counters can hold the numbers of rows and columns. -/
theorem loadSamples_eq_ok_iff {lines : List Text} {items : List (List K)}
    (hparse : lines.mapM parseLine = .ok items) {samples : Samples K} :
    loadSamples lines = .ok samples ↔ items ≠ [] ∧ items.length < 2 ^ 31 ∧
      (items.headD []).length < 2 ^ 31 ∧ (∀ item ∈ items, (items.headD []).length ≤ item.length) ∧
      .ofRows items = samples := by
  have hload : loadSamples lines = loadSamplesWith (Decimal.parse : Text → Option K) lines := rfl
  have hloop : lines.mapM (parseLineWith (Decimal.parse : Text → Option K)) = .ok items := hparse
  rw [hload, loadSamplesWith, hloop]
  cases items with
  | nil => simp [bind, Except.bind, throw, throwThe, MonadExceptOf.throw]
  | cons first rest =>
    simp only [bind, Except.bind, KDTree.toInt32, List.headD_cons]
    by_cases hrows : (first :: rest).length < 2 ^ 31
    · by_cases hcols : first.length < 2 ^ 31
      · by_cases hread : ∀ item ∈ first :: rest, first.length ≤ item.length
        · simp only [if_pos hrows, if_pos hcols, if_pos hread, pure, Except.pure, Except.ok.injEq]
          exact ⟨fun h => ⟨by simp, hrows, hcols, hread, h⟩, fun h => h.2.2.2.2⟩
        · simp only [if_pos hrows, if_pos hcols, if_neg hread]
          constructor
          · rintro ⟨⟩
          · exact fun h => absurd h.2.2.2.1 hread
      · simp only [if_pos hrows, if_neg hcols]
        constructor
        · rintro ⟨⟩
        · exact fun h => absurd h.2.2.1 hcols
    · simp only [if_neg hrows]
      constructor
      · rintro ⟨⟩
      · exact fun h => absurd h.2.1 hrows

/-- A file with at least one line, all of whose lines have as many numbers as the
first, is loaded. -/
theorem loadSamples_eq_ok {lines : List Text} {items : List (List K)}
    (hparse : lines.mapM parseLine = .ok items) (hitems : items ≠ [])
    (hrows : items.length < 2 ^ 31) (hcols : (items.headD []).length < 2 ^ 31)
    (hlength : ∀ item ∈ items, item.length = (items.headD []).length) :
    loadSamples lines = .ok (.ofRows items) :=
  (loadSamples_eq_ok_iff hparse).mpr
    ⟨hitems, hrows, hcols, fun item hitem => (hlength item hitem).ge, rfl⟩

/-- A file whose lines are given by their number, and all hold equally many numbers. -/
theorem exists_loadSamples_range {n cols : ℕ} (hn : 0 < n) (hrows : n < 2 ^ 31)
    (hcount : cols < 2 ^ 31) {line : ℕ → Text} {row : ℕ → List K}
    (hline : ∀ i < n, parseLine (line i) = .ok (row i)) (hcols : ∀ i < n, (row i).length = cols) :
    ∃ samples : Samples K, loadSamples ((List.range n).map line) = .ok samples ∧
      samples.rows = n ∧ samples.cols = cols ∧
      ∀ i < n, ∀ j, samples.coeff i j = (row i).getD j 0 := by
  have hparse : ((List.range n).map line).mapM parseLine = .ok ((List.range n).map row) := by
    rw [List.mapM_map]
    exact Fallible.mapM_eq_ok fun i hi => hline i (List.mem_range.mp hi)
  have hfirst : (((List.range n).map row).headD []).length = cols := by
    obtain ⟨m, rfl⟩ : ∃ m, n = m + 1 := ⟨n - 1, by omega⟩
    rw [List.range_succ_eq_map]
    exact hcols 0 hn
  refine ⟨_, loadSamples_eq_ok hparse (by simp; omega) (by simpa using hrows)
    (by rwa [hfirst]) ?_, ?_, hfirst, ?_⟩
  · intro item hitem
    obtain ⟨i, hi, rfl⟩ := List.mem_map.mp hitem
    rw [hfirst, hcols i (List.mem_range.mp hi)]
  · simp [Samples.ofRows]
  · intro i hi j
    simp only [Samples.ofRows, List.getD_eq_getElem?_getD, List.getElem?_map,
      List.getElem?_range hi, Option.map_some, Option.getD_some]

/-- Samples that were loaded are the rows of the lines. -/
theorem exists_rows_of_loadSamples {lines : List Text} {samples : Samples K}
    (h : loadSamples lines = .ok samples) : ∃ items : List (List K),
      lines.mapM parseLine = .ok items ∧ items ≠ [] ∧ items.length < 2 ^ 31 ∧
      (∀ item ∈ items, (items.headD []).length ≤ item.length) ∧ .ofRows items = samples := by
  obtain ⟨items, hparse, -⟩ := Fallible.bind_eq_ok_iff.mp h
  obtain ⟨hitems, hrows, -, hread, heq⟩ := (loadSamples_eq_ok_iff hparse).mp h
  exact ⟨items, hparse, hitems, hrows, hread, heq⟩

/-- Samples that were loaded have a row. -/
theorem rows_pos_of_loadSamples {lines : List Text} {samples : Samples K}
    (h : loadSamples lines = .ok samples) : 0 < samples.rows := by
  obtain ⟨items, -, hitems, -, -, rfl⟩ := exists_rows_of_loadSamples h
  exact List.length_pos_iff.mpr hitems

/-- The loop that copied them could count their rows. -/
theorem rows_lt_of_loadSamples {lines : List Text} {samples : Samples K}
    (h : loadSamples lines = .ok samples) : samples.rows < 2 ^ 31 := by
  obtain ⟨items, -, -, hrows, -, rfl⟩ := exists_rows_of_loadSamples h
  exact hrows

/-- What the builder starts with, for samples that could be loaded. -/
theorem prepareBuild_eq_ok_iff {inputSampleDataset : List Text} {samples : Samples K}
    (hsamples : loadSamples inputSampleDataset = .ok samples) {selector : DimensionSelectorType}
    {splittingMethod : SplittingMethod} {start : DataToBuildNodes K × KDTree K} :
    prepareBuild inputSampleDataset selector splittingMethod = .ok start ↔
      ∃ numNodes, KDTree.getNumNodes samples.rows = .ok numNodes ∧
        (rootItem samples selector splittingMethod, KDTree.create numNodes) = start := by
  simp only [prepareBuild, hsamples, bind, Except.bind, pure, Except.pure]
  cases KDTree.getNumNodes samples.rows <;> simp

variable [LinearOrder K]

/-- A split that fits its two sides has all its points. -/
theorem SplitFits.isIndexed {samples : Samples K} {split : Split K} {less greater : List ℕ}
    (h : SplitFits samples split less greater) : split.IsIndexed where
  splitPoint := by rw [h.splitPoint_length]; exact h.dimension_lt
  leftMax := by rw [h.left.maxPoint_length]; exact h.dimension_lt
  leftMin := by rw [h.left.minPoint_length]; exact h.dimension_lt
  rightMax := by rw [h.right.maxPoint_length]; exact h.dimension_lt
  rightMin := by rw [h.right.minPoint_length]; exact h.dimension_lt

/-- A tree whose splits fit their sides can be written. -/
theorem writable_modelTree {samples : Samples K} (numNodes : ℕ) {t : SplitTree (Split K) ℕ}
    (hfits : t.ForallNodes (SplitFits samples)) : (modelTree numNodes t).Writable := by
  intro id hid
  rw [numNodes_modelTree] at hid
  by_cases hmem : id ∈ (layout 0 t).map Node.getId
  · obtain ⟨node, hnode, rfl⟩ := List.mem_map.mp hmem
    refine ⟨node, stored_modelTree numNodes t node hnode, fun split hsplit => ?_⟩
    cases node with
    | empty id => cases hsplit
    | leaf id sampleId => cases hsplit
    | internal id split' =>
      obtain rfl : split' = split := Option.some.inj hsplit
      obtain ⟨_, _, hfit, -⟩ := (stored_modelTree numNodes t).exists_subtree hfits hnode
      exact hfit.isIndexed.hasCoefficients
  · have hempty : (modelTree numNodes t).getNode id = some (.empty id) := by
      rw [modelTree, KDTree.getNode_foldl_insert_of_notMem _ hmem, KDTree.getNode_create,
        if_pos hid]
    exact ⟨_, hempty, by simp [Node.HasCoefficients, Node.getSplit]⟩

section Printing

variable [FloorRing K]

/-- The nodes of a tree with printed splits are the printed nodes of the tree. -/
theorem layout_mapSplits_printed (root : ℕ) (t : SplitTree (Split K) ℕ) :
    layout root (t.mapSplits Split.printed) = (layout root t).map Node.printed := by
  induction t generalizing root with
  | leaf sampleId => rfl
  | node s l r ihl ihr =>
    rw [mapSplits, layout_node, layout_node, ihl, ihr, List.map_cons, List.map_append]
    rfl

/-- What is read back for a stored tree that fits into the array is the same tree
with printed splits. -/
theorem KDTree.Stored.printed {kdTree : KDTree K} {root : ℕ} {t : SplitTree (Split K) ℕ}
    (h : kdTree.Stored root t) (hids : ∀ node ∈ layout root t, node.getId < kdTree.numNodes) :
    kdTree.printed.Stored root (t.mapSplits Split.printed) := by
  intro node hnode
  rw [layout_mapSplits_printed] at hnode
  obtain ⟨node, hmem, rfl⟩ := List.mem_map.mp hnode
  rw [Node.getId_printed, kdTree.getNode_printed (hids node hmem), KDTree.nodeAt, h node hmem,
    Option.getD_some]

end Printing

variable [IsStrictOrderedRing K]

/-- Either builder writes the nodes of the tree over the segment, in some order,
and leaves the array that holds them. -/
theorem Builds.layout_perm {std : StdAlgorithms K} {item : DataToBuildNodes K}
    {t : SplitTree (Split K) ℕ} (hvalid : item.Valid) (ht : BuiltFrom std item t)
    {kdTree : KDTree K} {parallelExecution : Bool} {build : Build K}
    (h : Builds std item kdTree parallelExecution build) :
    (layout item.nodeId t).Perm build.written ∧
      build.kdtree = (layout item.nodeId t).foldl KDTree.insert kdTree := by
  cases h with
  | recursion hbuild =>
    obtain rfl := ht.eq_write_of_buildUsingRecursion hbuild
    exact ⟨.refl _, rfl⟩
  | parallel hrun =>
    obtain ⟨-, htotal⟩ := reachable_total hvalid ht hrun
    rw [Multiset.zero_bind, add_zero, Multiset.coe_eq_coe] at htotal
    rw [(parallelRun hrun).2]
    exact ⟨htotal.symm,
      (KDTree.foldl_insert_perm kdTree htotal.symm (layout_ids_nodup _ t)).symm⟩

/-- Either builder can return. -/
theorem DataToBuildNodes.Valid.exists_builds (std : StdAlgorithms K) {item : DataToBuildNodes K}
    (hvalid : item.Valid) (kdTree : KDTree K) (parallelExecution : Bool) :
    ∃ build, Builds std item kdTree parallelExecution build := by
  cases parallelExecution with
  | false =>
    obtain ⟨t, -, hbuild⟩ := hvalid.exists_build std
    exact ⟨_, .recursion (hbuild (.start kdTree) _ le_rfl)⟩
  | true =>
    obtain ⟨build, hrun⟩ := hvalid.exists_parallelRun std (.start kdTree)
    exact ⟨build, .parallel hrun⟩

variable [FloorRing K]

/-- The file that is written for the tree over all samples is loaded as the array with
printed splits. -/
theorem BuiltFrom.exists_modelFile {std : StdAlgorithms K} (gzip : Gzip) {samples : Samples K}
    {selector : DimensionSelectorType} {splittingMethod : SplittingMethod}
    {t : SplitTree (Split K) ℕ} (h : BuiltFrom std (rootItem samples selector splittingMethod) t)
    (hvalid : (rootItem samples selector splittingMethod).Valid) (numNodes : ℕ) :
    ∃ modelFile, write gzip (modelTree numNodes t) = .ok modelFile ∧
      load gzip modelFile = .ok (modelTree numNodes t).printed :=
  (writable_modelTree numNodes (h.forallNodes hvalid)).load_write gzip

omit [IsStrictOrderedRing K] in
/-- If the tree over all samples fits into the array, the array with printed splits holds
the same rows. -/
theorem BuiltFrom.stored_printed {std : StdAlgorithms K} {samples : Samples K}
    {selector : DimensionSelectorType} {splittingMethod : SplittingMethod}
    {t : SplitTree (Split K) ℕ} (h : BuiltFrom std (rootItem samples selector splittingMethod) t)
    {numNodes : ℕ} (hids : ∀ node ∈ layout 0 t, node.getId < numNodes) :
    (modelTree numNodes t).printed.Stored 0 (t.mapSplits Split.printed) ∧
      ∀ i ∈ (t.mapSplits Split.printed).leaves, i < samples.rows := by
  refine ⟨(stored_modelTree numNodes t).printed (by rwa [numNodes_modelTree]), fun i hi => ?_⟩
  rw [leaves_mapSplits] at hi
  exact h.mem_leaves_iff.mp hi

/-- Building writes exactly the file of the tree over all samples in an array of the
allocated size. -/
theorem buildKDTree_iff {std : StdAlgorithms K} {gzip : Gzip} {inputSampleDataset : List Text}
    {samples : Samples K} (hsamples : loadSamples inputSampleDataset = .ok samples)
    (hcols : 0 < samples.cols) {selector : DimensionSelectorType}
    {splittingMethod : SplittingMethod} {t : SplitTree (Split K) ℕ}
    (ht : BuiltFrom std (rootItem samples selector splittingMethod) t)
    {parallelExecution : Bool} {modelFile : Text} :
    BuildKDTree std gzip inputSampleDataset selector splittingMethod parallelExecution modelFile ↔
      ∃ numNodes, KDTree.getNumNodes samples.rows = .ok numNodes ∧
        write gzip (modelTree numNodes t) = .ok modelFile := by
  have hvalid := rootItem_valid (rows_pos_of_loadSamples hsamples) hcols selector splittingMethod
  constructor
  · rintro ⟨hprepare, hbuilds, hwrite⟩
    obtain ⟨numNodes, hnumNodes, hstart⟩ := (prepareBuild_eq_ok_iff hsamples).mp hprepare
    obtain ⟨rfl, rfl⟩ := Prod.mk.inj hstart
    rw [(hbuilds.layout_perm hvalid ht).2] at hwrite
    exact ⟨numNodes, hnumNodes, hwrite⟩
  · rintro ⟨numNodes, hnumNodes, hwrite⟩
    obtain ⟨build, hbuilds⟩ := hvalid.exists_builds std (.create numNodes) parallelExecution
    refine .returns ((prepareBuild_eq_ok_iff hsamples).mpr ⟨numNodes, hnumNodes, rfl⟩) hbuilds ?_
    rw [(hbuilds.layout_perm hvalid ht).2]
    exact hwrite

/-- A model file that was written is loaded as the array with the printed tree. If the tree
fits into the array, it is stored there. -/
theorem BuildKDTree.exists_stored {std : StdAlgorithms K} {gzip : Gzip}
    {inputSampleDataset : List Text} {samples : Samples K} {selector : DimensionSelectorType}
    {splittingMethod : SplittingMethod} {parallelExecution : Bool} {modelFile : Text}
    (hbuild : BuildKDTree std gzip inputSampleDataset selector splittingMethod parallelExecution
      modelFile)
    (hsamples : loadSamples inputSampleDataset = .ok samples) (hcols : 0 < samples.cols)
    {t : SplitTree (Split K) ℕ}
    (ht : BuiltFrom std (rootItem samples selector splittingMethod) t) :
    ∃ numNodes, KDTree.getNumNodes samples.rows = .ok numNodes ∧
      load gzip modelFile = .ok (modelTree numNodes t).printed ∧
      (FitsNodeArray std samples selector splittingMethod →
        (modelTree numNodes t).printed.Stored 0 (t.mapSplits Split.printed) ∧
        ∀ i ∈ (t.mapSplits Split.printed).leaves, i < samples.rows) := by
  have hvalid := rootItem_valid (rows_pos_of_loadSamples hsamples) hcols selector splittingMethod
  obtain ⟨numNodes, hnumNodes, hwrite⟩ := (buildKDTree_iff hsamples hcols ht).mp hbuild
  obtain ⟨modelFile', hwrite', hload⟩ := ht.exists_modelFile gzip hvalid numNodes
  obtain rfl := Except.ok.inj (hwrite.symm.trans hwrite')
  refine ⟨numNodes, hnumNodes, hload, fun hfits => ht.stored_printed ?_⟩
  obtain ⟨capacity, hcapacity, hids⟩ := ht.fitsNodeArray_iff_layout.mp hfits
  obtain rfl : capacity = numNodes := Except.ok.inj (hcapacity.symm.trans hnumNodes)
  exact hids

/-- A model file is written exactly when the number of slots is computed without overflow,
whether or not the tree fits into them. -/
theorem exists_buildKDTree_iff (std : StdAlgorithms K) (gzip : Gzip)
    {inputSampleDataset : List Text} {samples : Samples K}
    (hsamples : loadSamples inputSampleDataset = .ok samples) (hcols : 0 < samples.cols)
    (selector : DimensionSelectorType) (splittingMethod : SplittingMethod)
    (parallelExecution : Bool) :
    (∃ modelFile, BuildKDTree std gzip inputSampleDataset selector splittingMethod
      parallelExecution modelFile) ↔ samples.rows < 2 ^ 29 := by
  have hrows := rows_pos_of_loadSamples hsamples
  have hvalid := rootItem_valid hrows hcols selector splittingMethod
  obtain ⟨t, ht, -⟩ := hvalid.exists_builtFrom std
  constructor
  · rintro ⟨modelFile, hbuild⟩
    obtain ⟨numNodes, hnumNodes, -⟩ := (buildKDTree_iff hsamples hcols ht).mp hbuild
    by_contra hge
    rw [getNumNodes_overflow (not_lt.mp hge)] at hnumNodes
    cases hnumNodes
  · intro hsmall
    obtain ⟨modelFile, hwrite, -⟩ := ht.exists_modelFile gzip hvalid _
    exact ⟨modelFile, (buildKDTree_iff hsamples hcols ht).mpr
      ⟨_, getNumNodes_eq hrows.ne' hsmall, hwrite⟩⟩

end Kdtree
