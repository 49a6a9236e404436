import Kdtree.PrintedBoxes

/-!
# How accurate a model file is

A model file holds every number with six digits after the point. The boxes that are
read back then miss their samples by half of the last digit at most, and so does the
search, up to the root of the number of dimensions.
-/

namespace Kdtree

open SplitTree

/-- Half of the last digit that is printed. -/
noncomputable def printError : ℝ := ((2 * 10 ^ 6 : ℕ) : ℝ)⁻¹

/-- A printed number is off by half of the last digit at most. -/
theorem abs_printed_sub_le (x : ℝ) : |printed x - x| ≤ printError := by
  have herror : printError = 1 / 2 / 10 ^ 6 := by norm_num [printError]
  rw [herror]
  exact Decimal.abs_rounded_sub_le 6 x

/-- The printed box of a box holds what the box holds, up to half of the last digit. -/
theorem Bounds.ContainsWithin.printedWithin {bounds : Bounds ℝ} {point : Point ℝ}
    (h : bounds.ContainsWithin 0 point) : bounds.printed.ContainsWithin printError point := by
  intro j hj
  obtain ⟨hmin, hmax⟩ := h j hj
  have herrorMin := abs_le.mp (abs_printed_sub_le (bounds.minPoint.getValueAt j))
  have herrorMax := abs_le.mp (abs_printed_sub_le (bounds.maxPoint.getValueAt j))
  simp only [Bounds.printed, Point.getValueAt_printed]
  constructor <;> linarith

/-- Branch and bound on boxes that hold their samples up to an error ends with a sample
that is nearest up to that error in each dimension. -/
theorem visit_within {samples : Samples ℝ} {t : SplitTree (Split ℝ) ℕ} {query : Point ℝ} {δ : ℝ}
    (hδ : 0 ≤ δ) (hquery : query.coefficients.length = samples.cols)
    (hboxes : t.ForallNodes fun split less greater =>
      (∀ i ∈ less, split.leftBox.ContainsWithin δ ((Segment.ofSamples samples).getPoint i)) ∧
      ∀ i ∈ greater, split.rightBox.ContainsWithin δ ((Segment.ofSamples samples).getPoint i))
    {a b : ℕ} (ha : a ∈ t.leaves)
    (hb : t.visit (sampleDistance samples query)
      (fun split => split.getDistancesFromSplits query) none = some b) :
    √(sampleDistance samples query b) ≤
      √(sampleDistance samples query a) + δ * √samples.cols := by
  have hlength : query.coefficients.length =
      ((Segment.ofSamples samples).getPoint a).coefficients.length := by
    rw [hquery, Segment.getPoint_length]
    rfl
  -- a cost that is not good is larger than the distance to any box that holds the sample
  have hbound : ∀ {bounds : Bounds ℝ},
      bounds.ContainsWithin δ ((Segment.ofSamples samples).getPoint a) → ∀ c,
      ¬√c ≤ √(sampleDistance samples query a) + δ * √samples.cols →
      bounds.distanceFromPoint query ≤ c := by
    intro bounds hin c hc
    have hbox := Bounds.sqrt_distanceFromPoint_le hδ hin hlength
    rw [hquery] at hbox
    by_contra hlt
    exact hc ((Real.sqrt_le_sqrt (not_le.mp hlt).le).trans hbox)
  have hbounds : t.ForallNodes fun split left right =>
      (a ∈ left → ∀ c, ¬√c ≤ √(sampleDistance samples query a) + δ * √samples.cols →
        (split.getDistancesFromSplits query).1 ≤ c) ∧
      (a ∈ right → ∀ c, ¬√c ≤ √(sampleDistance samples query a) + δ * √samples.cols →
        (split.getDistancesFromSplits query).2 ≤ c) := by
    apply hboxes.imp
    intro split l r h
    exact ⟨fun hal => hbound (h.1 a hal), fun har => hbound (h.2 a har)⟩
  obtain ⟨b', hvisit, hgood⟩ := visit_finds_good
    (fun c => √c ≤ √(sampleDistance samples query a) + δ * √samples.cols)
    (fun hle hc => (Real.sqrt_le_sqrt hle).trans hc) ha
    (le_add_of_nonneg_right (by positivity)) hbounds none
  obtain rfl := Option.some.inj (hb.symm.trans hvisit)
  exact hgood

/-- The printed boxes of a built tree hold their samples up to half of the last digit. -/
theorem forallNodes_printed {samples : Samples ℝ} {t : SplitTree (Split ℝ) ℕ}
    (hfits : t.ForallNodes (SplitFits samples)) :
    (t.mapSplits Split.printed).ForallNodes fun split less greater =>
      (∀ i ∈ less,
        split.leftBox.ContainsWithin printError ((Segment.ofSamples samples).getPoint i)) ∧
      ∀ i ∈ greater,
        split.rightBox.ContainsWithin printError ((Segment.ofSamples samples).getPoint i) := by
  apply forallNodes_mapSplits.mpr
  apply hfits.imp
  intro split l r h
  constructor
  · intro i hi
    rw [split.leftBox_printed]
    exact (h.leftBox_contains hi).printedWithin
  · intro i hi
    rw [split.rightBox_printed]
    exact (h.rightBox_contains hi).printedWithin

/-- What querying a model file reports, if the tree fits into the array: for each query a
sample whose distance exceeds that of any other by at most half of the last digit in each
dimension. -/
theorem BuildKDTree.exists_found {std : StdAlgorithms ℝ} {gzip : Gzip}
    {inputSampleDataset queriesFile : List Text} {samples queries : Samples ℝ}
    {selector : DimensionSelectorType} {splittingMethod : SplittingMethod}
    {parallelExecution : Bool} {modelFile : Text}
    (hbuild : BuildKDTree std gzip inputSampleDataset selector splittingMethod parallelExecution
      modelFile)
    (hfits : FitsNodeArray std samples selector splittingMethod)
    (hsamples : loadSamples inputSampleDataset = .ok samples)
    (hqueries : loadSamples queriesFile = .ok queries) (hcols : 0 < samples.cols)
    (hquery : queries.cols = samples.cols) :
    ∃ found : ℕ → ℕ,
      (∀ fuel ≥ 2 * samples.rows,
        queryKDTree Real.sqrt gzip fuel inputSampleDataset modelFile queriesFile =
          .ok ((List.range queries.rows).map fun i => toStringInt (found i) ++ (",".toList ++
            toStringDouble
              √(sampleDistance samples ((Segment.ofSamples queries).getPoint i) (found i))))) ∧
      ∀ i, found i < samples.rows ∧ ∀ k < samples.rows,
        √(sampleDistance samples ((Segment.ofSamples queries).getPoint i) (found i)) ≤
          √(sampleDistance samples ((Segment.ofSamples queries).getPoint i) k) +
            printError * √samples.cols := by
  have hrows := rows_pos_of_loadSamples hsamples
  have hvalid := rootItem_valid hrows hcols selector splittingMethod
  obtain ⟨t, ht, -⟩ := hvalid.exists_builtFrom std
  obtain ⟨numNodes, -, hload, hstored⟩ := hbuild.exists_stored hsamples hcols ht
  obtain ⟨hstored, hleaves⟩ := hstored hfits
  obtain ⟨found, hvisit, hlines⟩ :=
    queryKDTree_stored Real.sqrt hsamples hqueries hquery hload hstored hleaves
  have hcount : (t.mapSplits Split.printed).leaves.length = samples.rows := by
    rw [leaves_mapSplits, ht.leaves_perm.length_eq]
    exact List.length_range
  refine ⟨found, hcount ▸ hlines, fun i => ⟨?_, fun k hk => ?_⟩⟩
  · exact hleaves _ ((mem_or_eq_of_visit (hvisit i)).resolve_right (by simp))
  · have hlength : ((Segment.ofSamples queries).getPoint i).coefficients.length =
        samples.cols := by
      rw [Segment.getPoint_length, ← hquery]
      rfl
    have hk' : k ∈ (t.mapSplits Split.printed).leaves := by
      rw [leaves_mapSplits]
      exact ht.mem_leaves_iff.mpr hk
    have hboxes := forallNodes_printed (ht.forallNodes hvalid)
    exact visit_within (by norm_num [printError]) hlength hboxes hk' (hvisit i)

/-- Building a model file from samples whose tree fits into the array, with either builder
and any schedule, and querying it. There is one line for each query, and it can be read back
as the id of a sample and a number. The number is the distance to that sample up to half of
the last digit, and the distance to that sample exceeds the distance to any other by at most
half of the last digit times the root of the number of dimensions. -/
theorem queryKDTree_within {std : StdAlgorithms ℝ} {gzip : Gzip}
    {inputSampleDataset queriesFile : List Text} {samples queries : Samples ℝ}
    (hsamples : loadSamples inputSampleDataset = .ok samples)
    (hqueries : loadSamples queriesFile = .ok queries) (hcols : 0 < samples.cols)
    (hquery : queries.cols = samples.cols) {selector : DimensionSelectorType}
    {splittingMethod : SplittingMethod} (hfits : FitsNodeArray std samples selector splittingMethod)
    {parallelExecution : Bool} {modelFile : Text}
    (hbuild : BuildKDTree std gzip inputSampleDataset selector splittingMethod parallelExecution
      modelFile) :
    ∃ lines : List Text,
      (∃ rounds, ∀ fuel ≥ rounds,
        queryKDTree Real.sqrt gzip fuel inputSampleDataset modelFile queriesFile = .ok lines) ∧
      lines.length = queries.rows ∧
      ∀ i line, lines[i]? = some line → ∃ (s : ℕ) (text : Text) (x : ℝ),
        line = toStringInt s ++ (",".toList ++ text) ∧ stod text = .ok x ∧ s < samples.rows ∧
        |x - √(sampleDistance samples ((Segment.ofSamples queries).getPoint i) s)| ≤ printError ∧
        ∀ k < samples.rows,
          √(sampleDistance samples ((Segment.ofSamples queries).getPoint i) s) ≤
            √(sampleDistance samples ((Segment.ofSamples queries).getPoint i) k) +
              printError * √samples.cols := by
  obtain ⟨found, hlines, hfound⟩ := hbuild.exists_found hfits hsamples hqueries hcols hquery
  refine ⟨_, ⟨_, hlines⟩, by simp, ?_⟩
  intro i line hline
  obtain ⟨hi, rfl⟩ := List.getElem?_eq_some_iff.mp hline
  rw [List.getElem_map, List.getElem_range]
  exact ⟨found i, _, _, rfl, stod_toStringDouble _, (hfound i).1, abs_printed_sub_le _,
    (hfound i).2⟩

/-- The two lines of a file. -/
def twoLines : List Text := ["0".toList, "1".toList]

/-- The two lines are loaded. -/
theorem loadSamples_twoLines : ∃ samples : Samples ℝ,
    loadSamples twoLines = .ok samples ∧ samples.rows = 2 ∧ samples.cols = 1 := by
  have hparse : ∃ x y : ℝ, twoLines.mapM parseLine = .ok [[x], [y]] := ⟨_, _, rfl⟩
  obtain ⟨x, y, hparse⟩ := hparse
  exact ⟨_, loadSamples_eq_ok hparse (by simp) (by simp) (by simp) (by simp), rfl, rfl⟩

/-- Both lines as samples and as queries: a model file is written, and querying it
reports for each line a sample that is as close as the line itself, up to the error of
one dimension. -/
theorem queryKDTree_within_twoLines : ∃ (samples : Samples ℝ) (modelFile : Text),
    loadSamples twoLines = .ok samples ∧
    BuildKDTree (K := ℝ) .sorting .stored twoLines .highestRangeAxis .median true modelFile ∧
    ∃ lines : List Text,
      (∃ rounds, ∀ fuel ≥ rounds,
        queryKDTree Real.sqrt .stored fuel twoLines modelFile twoLines = .ok lines) ∧
      lines.length = samples.rows ∧
      ∀ i line, lines[i]? = some line → ∃ (s : ℕ) (text : Text) (x : ℝ),
        line = toStringInt s ++ (",".toList ++ text) ∧ stod text = .ok x ∧ s < samples.rows ∧
        |x - √(sampleDistance samples ((Segment.ofSamples samples).getPoint i) s)| ≤ printError ∧
        ∀ k < samples.rows,
          √(sampleDistance samples ((Segment.ofSamples samples).getPoint i) s) ≤
            √(sampleDistance samples ((Segment.ofSamples samples).getPoint i) k) +
              printError * √samples.cols := by
  obtain ⟨samples, hsamples, hrows, hcols⟩ := loadSamples_twoLines
  have hcols' : 0 < samples.cols := by omega
  obtain ⟨hfits, modelFile, hbuild⟩ := exists_buildKDTree .sorting .stored hsamples hcols'
    (by omega) .highestRangeAxis .median true
  exact ⟨samples, modelFile, hsamples, hbuild,
    queryKDTree_within hsamples hsamples hcols' rfl hfits hbuild⟩

end Kdtree
