import Kdtree.Accuracy
import Kdtree.FileSystem
import Kdtree.LoadSamples
import Kdtree.SearchStack

/-!
# The two programs, on files

`main` of `BuildKDTree.cpp` and of `QueryKDTree.cpp`. Both report every exception and
then return zero, as they do after a successful run. A run writes to one file at most,
and only when nothing was thrown. A session is any sequence of runs.
-/

namespace Kdtree

/-- What the option parser makes of a command line. -/
inductive CommandLine (Options : Type)
  /-- There are no arguments, or help is asked for. -/
  | help
  /-- Parsing throws, or an option that is required is missing. -/
  | invalid
  /-- Every option has a value. -/
  | options (values : Options)

/-- The options of the program that builds. -/
structure BuildOptions where
  /-- `--input`. -/
  inputSampleDataset : Text
  /-- `--model`. -/
  modelFilename : Text
  /-- `--split_axis_algorithm`. -/
  splitAxisAlgorithm : Text
  /-- `--split_position_algorithm`. -/
  splitPositionAlgorithm : Text
  /-- `--parallel`. -/
  parallelExecution : Bool

/-- The options of the program that queries. -/
structure QueryOptions where
  /-- `--input`. -/
  inputSampleDataset : Text
  /-- `--model`. -/
  modelFilename : Text
  /-- `--queries`. -/
  queriesFileName : Text
  /-- `--nn_output`. -/
  nnOuputDataset : Text

/-- `getDimensionSelectorType`, which throws a `validation_error` for any other text. -/
def getDimensionSelectorType (axisSelector : Text) : Option DimensionSelectorType :=
  if axisSelector = "CYCLE_THROUGH_AXES".toList then some .cycleThroughAxes
  else if axisSelector = "HIGHEST_RANGE_AXIS".toList then some .highestRangeAxis
  else none

/-- `getSplittingMethod`, which throws a `validation_error` for any other text. -/
def getSplittingMethod (splitPositionAlgorithm : Text) : Option SplittingMethod :=
  if splitPositionAlgorithm = "MEDIAN".toList then some .median
  else if splitPositionAlgorithm = "MEDIAN_OF_MEDIAN".toList then some .medianOfMedian
  else none

variable {K : Type} [Field K] [LinearOrder K] [FloorRing K]

/-- `main` of `BuildKDTree.cpp`: the files it may leave, and what it returns. -/
inductive BuildMain (std : StdAlgorithms K) (gzip : Gzip) (files : FileSystem) :
    CommandLine BuildOptions → FileSystem × ℕ → Prop
  | help : BuildMain std gzip files .help (files, 1)
  | invalid : BuildMain std gzip files .invalid (files, 0)
  | validationError {o : BuildOptions}
      (hoptions : getDimensionSelectorType o.splitAxisAlgorithm = none ∨
        getSplittingMethod o.splitPositionAlgorithm = none) :
      BuildMain std gzip files (.options o) (files, 0)
  | throws {o : BuildOptions} {fault : Fault}
      (hload : loadSamples (K := K) (loadStringVector files o.inputSampleDataset) = .error fault)
      (hexception : fault.isException) : BuildMain std gzip files (.options o) (files, 0)
  | returns {o : BuildOptions} {dimensionSelectorType : DimensionSelectorType}
      {splittingMethod : SplittingMethod} {modelFile : Text}
      (hselector : getDimensionSelectorType o.splitAxisAlgorithm = some dimensionSelectorType)
      (hmethod : getSplittingMethod o.splitPositionAlgorithm = some splittingMethod)
      (hbuild : BuildKDTree std gzip (loadStringVector files o.inputSampleDataset)
        dimensionSelectorType splittingMethod o.parallelExecution modelFile) :
      BuildMain std gzip files (.options o)
        (Util.writeBinaryFile files o.modelFilename modelFile, 0)

/-- How the search for all queries of the program ends, when it may take enough rounds. -/
def QueryEnds (sqrt : K → K) (gzip : Gzip) (files : FileSystem) (o : QueryOptions)
    (outcome : Except Fault (List Text)) : Prop :=
  ∃ rounds, ∀ fuel ≥ rounds,
    queryKDTree sqrt gzip fuel (loadStringVector files o.inputSampleDataset)
      (Util.readBinaryFile files o.modelFilename) (loadStringVector files o.queriesFileName) =
        outcome

/-- `main` of `QueryKDTree.cpp`: the files it leaves, and what it returns. -/
inductive QueryMain (sqrt : K → K) (gzip : Gzip) (files : FileSystem) :
    CommandLine QueryOptions → FileSystem × ℕ → Prop
  | help : QueryMain sqrt gzip files .help (files, 1)
  | invalid : QueryMain sqrt gzip files .invalid (files, 0)
  | throws {o : QueryOptions} {fault : Fault} (hends : QueryEnds sqrt gzip files o (.error fault))
      (hexception : fault.isException) : QueryMain sqrt gzip files (.options o) (files, 0)
  | returns {o : QueryOptions} {nearestNeighborsWithDistance : List Text}
      (hends : QueryEnds sqrt gzip files o (.ok nearestNeighborsWithDistance)) :
      QueryMain sqrt gzip files (.options o)
        (Util.writeStringVector files o.nnOuputDataset nearestNeighborsWithDistance, 0)

/-- One run of either program that does not write to a path to be kept. A run that reads
outside an array, or whose integers overflow, is none: the language gives it no outcome. -/
inductive ProgramRun (sqrt : K → K) (gzip : Gzip) (kept : Set Text) :
    FileSystem → FileSystem → Prop
  | build {std : StdAlgorithms K} {files : FileSystem} {arguments : CommandLine BuildOptions}
      {out : FileSystem × ℕ} (hmain : BuildMain std gzip files arguments out)
      (hkept : ∀ o, arguments = .options o → o.modelFilename ∉ kept) :
      ProgramRun sqrt gzip kept files out.1
  | query {files : FileSystem} {arguments : CommandLine QueryOptions} {out : FileSystem × ℕ}
      (hmain : QueryMain sqrt gzip files arguments out)
      (hkept : ∀ o, arguments = .options o → o.nnOuputDataset ∉ kept) :
      ProgramRun sqrt gzip kept files out.1

/-- A run leaves every path that is to be kept as it was. -/
theorem ProgramRun.content_eq {sqrt : K → K} {gzip : Gzip} {kept : Set Text}
    {files files' : FileSystem} (h : ProgramRun sqrt gzip kept files files') {path : Text}
    (hpath : path ∈ kept) : files'.content path = files.content path := by
  cases h with
  | build hmain hkept =>
    cases hmain with
    | help | invalid | validationError _ | throws _ _ => rfl
    | @returns o _ _ modelFile _ _ _ =>
      apply files.content_store_of_ne
      rintro rfl
      exact hkept o rfl hpath
  | query hmain hkept =>
    cases hmain with
    | help | invalid | throws _ _ => rfl
    | @returns o _ _ =>
      apply files.content_store_of_ne
      rintro rfl
      exact hkept o rfl hpath

/-- So does a session. -/
theorem content_eq_of_session {sqrt : K → K} {gzip : Gzip} {kept : Set Text}
    {files files' : FileSystem}
    (h : Relation.ReflTransGen (ProgramRun sqrt gzip kept) files files') {path : Text}
    (hpath : path ∈ kept) : files'.content path = files.content path := by
  induction h with
  | refl => rfl
  | tail _ hrun ih => exact (hrun.content_eq hpath).trans ih

/-- The lines of a file depend on its content only. -/
theorem loadStringVector_congr {files files' : FileSystem} {path : Text}
    (h : files.content path = files'.content path) :
    loadStringVector files path = loadStringVector files' path := by
  rw [loadStringVector, loadStringVector, h]

/-- A search ends in one way only. -/
theorem QueryEnds.unique {sqrt : K → K} {gzip : Gzip} {files : FileSystem} {o : QueryOptions}
    {outcome outcome' : Except Fault (List Text)} (h : QueryEnds sqrt gzip files o outcome)
    (h' : QueryEnds sqrt gzip files o outcome') : outcome = outcome' := by
  obtain ⟨rounds, hrounds⟩ := h
  obtain ⟨rounds', hrounds'⟩ := h'
  exact (hrounds _ (le_max_left _ rounds')).symm.trans (hrounds' _ (le_max_right _ _))

/-- With options that are valid and samples that can be loaded, a run that ends has written
a model file. -/
theorem BuildMain.exists_modelFile {std : StdAlgorithms K} {gzip : Gzip} {files : FileSystem}
    {o : BuildOptions} {out : FileSystem × ℕ} (h : BuildMain std gzip files (.options o) out)
    {dimensionSelectorType : DimensionSelectorType} {splittingMethod : SplittingMethod}
    (hselector : getDimensionSelectorType o.splitAxisAlgorithm = some dimensionSelectorType)
    (hmethod : getSplittingMethod o.splitPositionAlgorithm = some splittingMethod)
    {samples : Samples K}
    (hsamples : loadSamples (loadStringVector files o.inputSampleDataset) = .ok samples) :
    ∃ modelFile, BuildKDTree std gzip (loadStringVector files o.inputSampleDataset)
        dimensionSelectorType splittingMethod o.parallelExecution modelFile ∧
      out = (Util.writeBinaryFile files o.modelFilename modelFile, 0) := by
  cases h with
  | validationError hoptions =>
    rcases hoptions with hnone | hnone
    · rw [hselector] at hnone
      cases hnone
    · rw [hmethod] at hnone
      cases hnone
  | throws hload _ =>
    rw [hsamples] at hload
    cases hload
  | returns hselector' hmethod' hbuild =>
    obtain rfl := Option.some.inj (hselector.symm.trans hselector')
    obtain rfl := Option.some.inj (hmethod.symm.trans hmethod')
    exact ⟨_, hbuild, rfl⟩

/-- A search that ends with lines makes the program write them, and nothing else. -/
theorem QueryEnds.queryMain_iff {sqrt : K → K} {gzip : Gzip} {files : FileSystem}
    {o : QueryOptions} {lines : List Text} (h : QueryEnds sqrt gzip files o (.ok lines))
    (out : FileSystem × ℕ) : QueryMain sqrt gzip files (.options o) out ↔
      out = (Util.writeStringVector files o.nnOuputDataset lines, 0) := by
  constructor
  · intro hmain
    cases hmain with
    | throws hends _ => cases h.unique hends
    | returns hends =>
      obtain rfl := Except.ok.inj (h.unique hends)
      rfl
  · rintro rfl
    exact .returns h

/-- A search that ends with an exception leaves all files as they are. -/
theorem QueryEnds.queryMain_error_iff {sqrt : K → K} {gzip : Gzip} {files : FileSystem}
    {o : QueryOptions} {fault : Fault} (h : QueryEnds sqrt gzip files o (.error fault))
    (hexception : fault.isException) (out : FileSystem × ℕ) :
    QueryMain sqrt gzip files (.options o) out ↔ out = (files, 0) := by
  constructor
  · intro hmain
    cases hmain with
    | throws _ _ => rfl
    | returns hends => cases h.unique hends
  · rintro rfl
    exact .throws h hexception

/-- The numbers in a line of the output file. -/
theorem parseLine_answer (n : ℤ) (x : K) :
    parseLine (toStringInt n ++ (",".toList ++ toStringDouble x)) = .ok [(n : K), printed x] := by
  obtain ⟨hid, hidChars⟩ := Decimal.ofInt_chars n
  obtain ⟨hdistance, hdistanceChars⟩ := Decimal.fixed_chars 6 x
  have hidComma : ',' ∉ toStringInt n := fun hmem => absurd (hidChars ',' hmem) (by decide)
  have hdistanceComma : ',' ∉ toStringDouble x := fun hmem =>
    absurd (hdistanceChars ',' hmem) (by decide)
  have hnumbers : [toStringInt n, toStringDouble x].mapM stod = .ok [(n : K), printed x] := by
    simp only [List.mapM_cons, List.mapM_nil, stod_toStringInt, stod_toStringDouble]
    rfl
  have hparse := parseLine_intercalate (by simp)
    (by simpa using ⟨⟨hid, hidComma⟩, hdistance, hdistanceComma⟩) hnumbers
  simpa [List.intercalate] using hparse

/-- A line of the output file has no newline in it. -/
theorem newline_notMem_answer (n : ℤ) (x : K) :
    '\n' ∉ toStringInt n ++ (",".toList ++ toStringDouble x) := by
  simp only [List.mem_append, not_or]
  refine ⟨fun hmem => ?_, by decide, fun hmem => ?_⟩
  · exact absurd ((Decimal.ofInt_chars n).2 '\n' hmem) (by decide)
  · exact absurd ((Decimal.fixed_chars 6 x).2 '\n' hmem) (by decide)

/-- The output file is a file of samples: a row for each query, with the id of the
sample and the printed distance. -/
theorem loadSamples_answers {files : FileSystem} {path : Text} (hwritable : files.writable path)
    {rows : ℕ} (hrows : 0 < rows) (hcount : rows < 2 ^ 31) (found : ℕ → ℕ) (distance : ℕ → K) :
    ∃ table : Samples K, loadSamples (loadStringVector (Util.writeStringVector files path
        ((List.range rows).map fun i =>
          toStringInt (found i) ++ (",".toList ++ toStringDouble (distance i)))) path) =
            .ok table ∧
      table.rows = rows ∧ table.cols = 2 ∧
      ∀ i < rows, table.coeff i 0 = found i ∧ table.coeff i 1 = printed (distance i) := by
  have hread : loadStringVector (Util.writeStringVector files path ((List.range rows).map fun i =>
      toStringInt (found i) ++ (",".toList ++ toStringDouble (distance i)))) path =
        (List.range rows).map fun i =>
          toStringInt (found i) ++ (",".toList ++ toStringDouble (distance i)) := by
    rw [loadStringVector, Util.writeStringVector, files.content_store_self _ hwritable]
    apply getlines_flatMap
    intro line hline
    obtain ⟨i, -, rfl⟩ := List.mem_map.mp hline
    exact newline_notMem_answer _ _
  rw [hread]
  obtain ⟨table, htable, htableRows, htableCols, hcoeff⟩ := exists_loadSamples_range hrows
    hcount (by decide) (fun i _ => parseLine_answer (found i) (distance i))
    fun i _ => (rfl : _ = 2)
  refine ⟨table, htable, htableRows, htableCols, fun i hi => ?_⟩
  rw [hcoeff i hi, hcoeff i hi]
  exact ⟨Int.cast_natCast _, rfl⟩

/-- A search that ends with an answer for each query changes the output file only, and leaves
a file of samples there. -/
theorem QueryEnds.exists_answered {sqrt : K → K} {gzip : Gzip} {files : FileSystem}
    {q : QueryOptions} {rows : ℕ} {found : ℕ → ℕ} {distance : ℕ → K}
    (h : QueryEnds sqrt gzip files q (.ok ((List.range rows).map fun i =>
      toStringInt (found i) ++ (",".toList ++ toStringDouble (distance i)))))
    (hrows : 0 < rows) (hcount : rows < 2 ^ 31) (houtput : files.writable q.nnOuputDataset) :
    ∃ answered,
      (∀ out, QueryMain sqrt gzip files (.options q) out ↔ out = (answered, 0)) ∧
      (∀ path ≠ q.nnOuputDataset, answered.content path = files.content path) ∧
      ∃ table : Samples K,
        loadSamples (loadStringVector answered q.nnOuputDataset) = .ok table ∧
        table.rows = rows ∧ table.cols = 2 ∧
        ∀ i < rows, table.coeff i 0 = found i ∧ table.coeff i 1 = printed (distance i) :=
  ⟨_, h.queryMain_iff, fun _ hpath => files.content_store_of_ne _ hpath,
    loadSamples_answers houtput hrows hcount found distance⟩

/-- A model file that was built answers for the rest of a session. The program builds it
from a file of samples whose tree fits into the node array; then either program runs any
number of times, with any arguments, successfully or not, but without writing to these two
files; then a file of queries is looked up. That run succeeds, changes the output file only,
and leaves a file of samples there: a row for each query, with the id of a sample that is
nearest up to half of the last digit in each dimension, and its distance up to half of the
last digit. -/
theorem session_within {gzip : Gzip} {std : StdAlgorithms ℝ} {files built later : FileSystem}
    {o : BuildOptions} {q : QueryOptions} {samples queries : Samples ℝ} {code : ℕ}
    {dimensionSelectorType : DimensionSelectorType} {splittingMethod : SplittingMethod}
    (hselector : getDimensionSelectorType o.splitAxisAlgorithm = some dimensionSelectorType)
    (hmethod : getSplittingMethod o.splitPositionAlgorithm = some splittingMethod)
    (hsamples : loadSamples (loadStringVector files o.inputSampleDataset) = .ok samples)
    (hcols : 0 < samples.cols)
    (hfits : FitsNodeArray std samples dimensionSelectorType splittingMethod)
    (hmodel : files.writable o.modelFilename)
    (hother : o.modelFilename ≠ o.inputSampleDataset)
    (hbuilt : BuildMain std gzip files (.options o) (built, code))
    (hsession : Relation.ReflTransGen
      (ProgramRun Real.sqrt gzip {o.inputSampleDataset, o.modelFilename}) built later)
    (hinput : q.inputSampleDataset = o.inputSampleDataset)
    (hfile : q.modelFilename = o.modelFilename)
    (hqueries : loadSamples (loadStringVector later q.queriesFileName) = .ok queries)
    (hquery : queries.cols = samples.cols) (houtput : later.writable q.nnOuputDataset) :
    ∃ answered,
      (∀ out, QueryMain Real.sqrt gzip later (.options q) out ↔ out = (answered, 0)) ∧
      (∀ path ≠ q.nnOuputDataset, answered.content path = later.content path) ∧
      ∃ table : Samples ℝ,
        loadSamples (loadStringVector answered q.nnOuputDataset) = .ok table ∧
        table.rows = queries.rows ∧ table.cols = 2 ∧
        ∀ i < queries.rows, ∃ s < samples.rows, table.coeff i 0 = s ∧
          |table.coeff i 1 - √(sampleDistance samples ((Segment.ofSamples queries).getPoint i) s)| ≤
            printError ∧
          ∀ k < samples.rows,
            √(sampleDistance samples ((Segment.ofSamples queries).getPoint i) s) ≤
              √(sampleDistance samples ((Segment.ofSamples queries).getPoint i) k) +
                printError * √samples.cols := by
  obtain ⟨modelFile, hbuild, hout⟩ := hbuilt.exists_modelFile hselector hmethod hsamples
  obtain ⟨rfl, -⟩ := Prod.mk.inj hout
  have hmodelContent : later.content o.modelFilename = some modelFile :=
    (content_eq_of_session hsession (by simp)).trans (files.content_store_self _ hmodel)
  have hinputContent : later.content o.inputSampleDataset = files.content o.inputSampleDataset :=
    (content_eq_of_session hsession (by simp)).trans
      (files.content_store_of_ne _ hother.symm)
  obtain ⟨found, hlines, hfound⟩ := hbuild.exists_found hfits hsamples hqueries hcols hquery
  have hends : QueryEnds Real.sqrt gzip later q (.ok ((List.range queries.rows).map fun i =>
      toStringInt (found i) ++ (",".toList ++ toStringDouble
        √(sampleDistance samples ((Segment.ofSamples queries).getPoint i) (found i))))) := by
    refine ⟨2 * samples.rows, fun fuel hfuel => ?_⟩
    rw [hinput, hfile, loadStringVector_congr hinputContent, Util.readBinaryFile, hmodelContent]
    exact hlines fuel hfuel
  obtain ⟨answered, hmain, hframe, table, htable, htableRows, htableCols, hentries⟩ :=
    hends.exists_answered (rows_pos_of_loadSamples hqueries) (rows_lt_of_loadSamples hqueries)
        houtput
  refine ⟨answered, hmain, hframe, table, htable, htableRows, htableCols, fun i hi => ?_⟩
  obtain ⟨hid, hdistance⟩ := hentries i hi
  refine ⟨found i, (hfound i).1, hid, ?_, (hfound i).2⟩
  rw [hdistance]
  exact abs_printed_sub_le _

/-- Queries with other dimensions than the samples are refused. -/
theorem queryKDTree_dimensions {sqrt : K → K} {gzip : Gzip}
    {inputSampleDataset queriesFile : List Text} {modelFile : Text} {samples queries : Samples K}
    {kdTree : KDTree K} (hsamples : loadSamples inputSampleDataset = .ok samples)
    (hload : load gzip modelFile = .ok kdTree) (hqueries : loadSamples queriesFile = .ok queries)
    (hcols : queries.cols ≠ samples.cols) (fuel : ℕ) :
    queryKDTree sqrt gzip fuel inputSampleDataset modelFile queriesFile =
      .error .queryAndKdTreeDimensionsDontMatch := by
  have hthrows (i : ℕ) : findNearestNeighbor fuel samples kdTree
      ((Segment.ofSamples queries).getPoint i) = .error .queryAndKdTreeDimensionsDontMatch := by
    have hdims : (Segment.ofSamples samples).getNumDimensions ≠
        ((Segment.ofSamples queries).getPoint i).coefficients.length := by
      rw [Segment.getPoint_length]
      exact hcols.symm
    rw [findNearestNeighbor, if_pos hdims]
    rfl
  simp only [queryKDTree, hsamples, hload, hqueries, hthrows, bind, Except.bind]
  apply Fallible.mapM_eq_error
  · intro i _ fault hfault
    exact (Except.error.inj hfault).symm
  · exact ⟨0, List.mem_range.mpr (rows_pos_of_loadSamples hqueries), rfl⟩

/-- Looking up queries in a model file that was built from other samples than the ones it is
used with, which have as many columns and no fewer rows. The tree over the samples it was
built from fits into the node array. What is loaded is well shaped for
them too. Queries of other dimensions are refused, and no file changes. All other queries
are answered: no row is reported beyond those that the model file was built from, and the
distance is that to the row of the samples it is used with. -/
theorem queryMain_otherSamples [IsStrictOrderedRing K] {std : StdAlgorithms K} {gzip : Gzip}
    (sqrt : K → K)
    {inputSampleDataset : List Text} {samples current queries : Samples K}
    (hsamples : loadSamples inputSampleDataset = .ok samples) (hcols : 0 < samples.cols)
    {dimensionSelectorType : DimensionSelectorType} {splittingMethod : SplittingMethod}
    (hfits : FitsNodeArray std samples dimensionSelectorType splittingMethod)
    {parallelExecution : Bool} {modelFile : Text}
    (hbuild : BuildKDTree std gzip inputSampleDataset dimensionSelectorType splittingMethod
      parallelExecution modelFile)
    {files : FileSystem} {q : QueryOptions} (hfile : files.content q.modelFilename = some modelFile)
    (hcurrent : loadSamples (loadStringVector files q.inputSampleDataset) = .ok current)
    (hsame : current.cols = samples.cols) (hrows : samples.rows ≤ current.rows)
    (hqueries : loadSamples (loadStringVector files q.queriesFileName) = .ok queries)
    (houtput : files.writable q.nnOuputDataset) :
    (∃ kdTree : KDTree K, load gzip modelFile = .ok kdTree ∧ kdTree.WellShaped current) ∧
    (queries.cols ≠ current.cols →
      ∀ out, QueryMain sqrt gzip files (.options q) out ↔ out = (files, 0)) ∧
    (queries.cols = current.cols → ∃ answered,
      (∀ out, QueryMain sqrt gzip files (.options q) out ↔ out = (answered, 0)) ∧
      (∀ path ≠ q.nnOuputDataset, answered.content path = files.content path) ∧
      ∃ table : Samples K,
        loadSamples (loadStringVector answered q.nnOuputDataset) = .ok table ∧
        table.rows = queries.rows ∧ table.cols = 2 ∧
        ∀ i < queries.rows, ∃ s < samples.rows, table.coeff i 0 = s ∧
          table.coeff i 1 = printed
            (sqrt (sampleDistance current ((Segment.ofSamples queries).getPoint i) s))) := by
  obtain ⟨kdTree, hload, hshape, -⟩ := BuildKDTree.exists_load hsamples hcols hfits hbuild
  have hread : Util.readBinaryFile files q.modelFilename = modelFile := by
    rw [Util.readBinaryFile, hfile]
    rfl
  refine ⟨⟨kdTree, hload, hshape.mono hsame hrows⟩, fun hother => ?_, fun hquery => ?_⟩
  · have hends : QueryEnds sqrt gzip files q (.error .queryAndKdTreeDimensionsDontMatch) := by
      refine ⟨0, fun fuel _ => ?_⟩
      rw [hread]
      exact queryKDTree_dimensions hcurrent hload hqueries hother fuel
    exact hends.queryMain_error_iff rfl
  · obtain ⟨t, hstored, hleaves, -⟩ := hshape.exists_stored
    obtain ⟨found, hvisit, hlines⟩ := queryKDTree_stored sqrt hcurrent hqueries hquery hload
      hstored fun i hi => (hleaves i hi).trans_le hrows
    have hends : QueryEnds sqrt gzip files q (.ok ((List.range queries.rows).map fun i =>
        toStringInt (found i) ++ (",".toList ++ toStringDouble
          (sqrt (sampleDistance current ((Segment.ofSamples queries).getPoint i)
            (found i)))))) := by
      refine ⟨2 * t.leaves.length, fun fuel hfuel => ?_⟩
      rw [hread]
      exact hlines fuel hfuel
    obtain ⟨answered, hmain, hframe, table, htable, htableRows, htableCols, hentries⟩ :=
      hends.exists_answered (rows_pos_of_loadSamples hqueries) (rows_lt_of_loadSamples hqueries)
        houtput
    refine ⟨answered, hmain, hframe, table, htable, htableRows, htableCols, fun i hi => ?_⟩
    have hfound := hleaves _ ((SplitTree.mem_or_eq_of_visit (hvisit i)).resolve_right (by simp))
    exact ⟨found i, hfound, hentries i hi⟩

/-- Lines that replaced the two lines after a model file was built from them. -/
def changedLines : List Text := ["5".toList, "-1".toList, "2".toList]

/-- The changed lines are loaded. -/
theorem loadSamples_changedLines : ∃ current : Samples ℝ,
    loadSamples changedLines = .ok current ∧ current.rows = 3 ∧ current.cols = 1 := by
  have hparse : ∃ x y z : ℝ, changedLines.mapM parseLine = .ok [[x], [y], [z]] := ⟨_, _, _, rfl⟩
  obtain ⟨x, y, z, hparse⟩ := hparse
  exact ⟨_, loadSamples_eq_ok hparse (by simp) (by simp) (by simp) (by simp), rfl, rfl⟩

/-- A machine with the changed lines and with the model file. -/
def changedFiles (modelFile : Text) : FileSystem where
  content := fun path =>
    if path = "samples".toList then some (changedLines.flatMap fun l => l ++ "\n".toList)
    else if path = "model".toList then some modelFile
    else none
  writable := fun _ => true

/-- The changed lines are looked up in the old model file. -/
theorem queryMain_otherSamples_changedLines : ∃ (modelFile : Text) (current : Samples ℝ),
    BuildKDTree (K := ℝ) .sorting .stored twoLines .highestRangeAxis .median true modelFile ∧
    loadSamples changedLines = .ok current ∧
    (∃ kdTree : KDTree ℝ, load .stored modelFile = .ok kdTree ∧ kdTree.WellShaped current) ∧
    ∃ answered,
      (∀ out, QueryMain Real.sqrt .stored (changedFiles modelFile) (.options ⟨"samples".toList,
        "model".toList, "samples".toList, "output".toList⟩) out ↔ out = (answered, 0)) ∧
      (∀ path ≠ "output".toList,
        answered.content path = (changedFiles modelFile).content path) ∧
      ∃ table : Samples ℝ,
        loadSamples (loadStringVector answered "output".toList) = .ok table ∧
        table.rows = current.rows ∧ table.cols = 2 ∧
        ∀ i < current.rows, ∃ s < (2 : ℕ), table.coeff i 0 = s ∧
          table.coeff i 1 =
            printed √(sampleDistance current ((Segment.ofSamples current).getPoint i) s) := by
  obtain ⟨samples, hsamples, hrows, hcols⟩ := loadSamples_twoLines
  obtain ⟨current, hcurrent, hcurrentRows, hcurrentCols⟩ := loadSamples_changedLines
  obtain ⟨hfits, modelFile, hbuild⟩ := exists_buildKDTree .sorting .stored hsamples
    (by omega) (by omega) .highestRangeAxis .median true
  have hlines : loadStringVector (changedFiles modelFile) "samples".toList = changedLines :=
    getlines_flatMap (by decide)
  have hread : loadSamples (loadStringVector (changedFiles modelFile) "samples".toList) =
      .ok current := by rwa [hlines]
  obtain ⟨hshape, -, hanswered⟩ := @queryMain_otherSamples ℝ _ _ _ _ .sorting .stored Real.sqrt
    twoLines samples current current hsamples (by omega) _ _ hfits _ _ hbuild
    (changedFiles modelFile)
    ⟨"samples".toList, "model".toList, "samples".toList, "output".toList⟩
    rfl hread (by omega) (by omega) hread rfl
  rw [hrows] at hanswered
  exact ⟨modelFile, current, hbuild, hcurrent, hshape, hanswered rfl⟩

/-- A machine with one file, of the two lines, on which every path can be written. -/
def twoLinesFiles : FileSystem where
  content := fun path =>
    if path = "samples".toList then some (twoLines.flatMap fun l => l ++ "\n".toList) else none
  writable := fun _ => true

/-- The two lines are read from the file. -/
theorem loadStringVector_twoLinesFiles :
    loadStringVector twoLinesFiles "samples".toList = twoLines :=
  getlines_flatMap (by decide)

/-- The model file is built from the two lines; somebody asks for help; then the lines are
looked up, and the answers replace them. -/
theorem session_within_twoLines : ∃ (samples : Samples ℝ) (built answered : FileSystem),
    loadSamples twoLines = .ok samples ∧
    BuildMain (K := ℝ) .sorting .stored twoLinesFiles (.options ⟨"samples".toList,
      "model".toList, "HIGHEST_RANGE_AXIS".toList, "MEDIAN".toList, true⟩) (built, 0) ∧
    (∀ out, QueryMain Real.sqrt .stored built (.options ⟨"samples".toList, "model".toList,
      "samples".toList, "samples".toList⟩) out ↔ out = (answered, 0)) ∧
    (∀ path ≠ "samples".toList, answered.content path = built.content path) ∧
    ∃ table : Samples ℝ,
      loadSamples (loadStringVector answered "samples".toList) = .ok table ∧
      table.rows = samples.rows ∧ table.cols = 2 ∧
      ∀ i < samples.rows, ∃ s < samples.rows, table.coeff i 0 = s ∧
        |table.coeff i 1 - √(sampleDistance samples ((Segment.ofSamples samples).getPoint i) s)| ≤
          printError ∧
        ∀ k < samples.rows,
          √(sampleDistance samples ((Segment.ofSamples samples).getPoint i) s) ≤
            √(sampleDistance samples ((Segment.ofSamples samples).getPoint i) k) +
              printError * √samples.cols := by
  obtain ⟨samples, hsamples, hrows, hcols⟩ := loadSamples_twoLines
  have hcols' : 0 < samples.cols := by omega
  obtain ⟨hfits, modelFile, hbuild⟩ := exists_buildKDTree .sorting .stored hsamples hcols'
    (by omega) .highestRangeAxis .median true
  have hread : loadSamples (loadStringVector twoLinesFiles "samples".toList) = .ok samples := by
    rwa [loadStringVector_twoLinesFiles]
  have hmain : BuildMain (K := ℝ) .sorting .stored twoLinesFiles (.options ⟨"samples".toList,
      "model".toList, "HIGHEST_RANGE_AXIS".toList, "MEDIAN".toList, true⟩)
      (Util.writeBinaryFile twoLinesFiles "model".toList modelFile, 0) :=
    .returns rfl rfl (by rwa [loadStringVector_twoLinesFiles])
  have hsession : Relation.ReflTransGen
      (ProgramRun Real.sqrt .stored {"samples".toList, "model".toList})
      (Util.writeBinaryFile twoLinesFiles "model".toList modelFile)
      (Util.writeBinaryFile twoLinesFiles "model".toList modelFile) :=
    .single (.query (.help) (by simp))
  have hqueries : loadSamples (loadStringVector (Util.writeBinaryFile twoLinesFiles
      "model".toList modelFile) "samples".toList) = .ok samples := by
    have hcontent : (Util.writeBinaryFile twoLinesFiles "model".toList modelFile).content
        "samples".toList = twoLinesFiles.content "samples".toList :=
      twoLinesFiles.content_store_of_ne modelFile (by decide)
    rwa [loadStringVector_congr hcontent]
  obtain ⟨answered, hanswered⟩ := @session_within .stored .sorting twoLinesFiles _ _ _
    ⟨"samples".toList, "model".toList, "samples".toList, "samples".toList⟩ samples samples _ _ _
    rfl rfl hread hcols' hfits rfl (by decide) hmain hsession rfl rfl hqueries rfl rfl
  exact ⟨samples, _, answered, hsamples, hmain, hanswered⟩

end Kdtree
