import Kdtree.Heights
import Kdtree.ReloadedSearch

/-!
# Samples that the printed boxes keep

Printing keeps the order of numbers, so the printed box of some samples holds the
printed samples. A nearest sample is therefore hidden at most by samples that are
closer to the query than its printed form, and samples that are printed exactly
are not lost. Whether that is so can be told from the samples and the query alone.
-/

namespace Kdtree

open SplitTree

variable {K : Type} [Field K] [LinearOrder K] [FloorRing K] [IsStrictOrderedRing K]

/-- Zero is printed as zero. -/
theorem printed_zero : printed (0 : K) = 0 := by
  simp [printed, Decimal.rounded, Decimal.units, Decimal.roundHalfEven]

/-- Printing a point prints its coefficients. -/
theorem Point.getValueAt_printed (point : Point K) (j : ℕ) :
    point.printed.getValueAt j = Kdtree.printed (point.getValueAt j) := by
  simp only [getValueAt, printed, List.getD_eq_getElem?_getD, List.getElem?_map]
  cases point.coefficients[j]? with
  | none => exact printed_zero.symm
  | some c => rfl

/-- The left box of a printed split is the printed left box. -/
theorem Split.leftBox_printed (split : Split K) :
    split.printed.leftBox = split.leftBox.printed := by
  simp only [leftBox, printed, Bounds.printed, Point.getValueAt_printed]
  simp only [Point.printed, List.map_set]

/-- The right box of a printed split is the printed right box. -/
theorem Split.rightBox_printed (split : Split K) :
    split.printed.rightBox = split.rightBox.printed := by
  simp only [rightBox, printed, Bounds.printed, Point.getValueAt_printed]
  simp only [Point.printed, List.map_set]

/-- A printed box holds the printed points of the box. -/
theorem Bounds.ContainsWithin.printed {bounds : Bounds K} {point : Point K}
    (h : bounds.ContainsWithin 0 point) : bounds.printed.ContainsWithin 0 point.printed := by
  intro j hj
  have hlength : point.printed.coefficients.length = point.coefficients.length :=
    List.length_map _
  have hbox := h j (hlength ▸ hj)
  simp only [sub_zero, add_zero] at hbox ⊢
  simp only [Bounds.printed, Point.getValueAt_printed]
  exact hbox.imp (fun hmin => Decimal.rounded_mono 6 hmin) fun hmax => Decimal.rounded_mono 6 hmax

/-- Some nearest sample is so close to a query, also after printing, that only samples
which are nearest too are closer. -/
def SurvivesPrinting (samples : Samples K) (query : Point K) : Prop :=
  ∃ s, IsNearest samples query s ∧ ∀ i < samples.rows, sampleDistance samples query i <
    ((Segment.ofSamples samples).getPoint s).printed.squaredDistance query →
      IsNearest samples query i

/-- A nearest sample that survives printing, or another one, is not hidden. -/
theorem SurvivesPrinting.exists_visible {samples : Samples K} {query : Point K}
    (h : SurvivesPrinting samples query) {t : SplitTree (Split K) ℕ}
    (hleaves : t.leaves.Perm (List.range samples.rows)) (hfits : t.ForallNodes (SplitFits samples))
    (hquery : query.coefficients.length = samples.cols) :
    ∃ s, IsNearest samples query s ∧ Visible samples t query s := by
  obtain ⟨s, hs, hcloser⟩ := h
  rw [← visit_isNearest_iff hleaves]
  have hmem {i : ℕ} : i ∈ t.leaves ↔ i < samples.rows := hleaves.mem_iff.trans List.mem_range
  have hlength : query.coefficients.length =
      ((Segment.ofSamples samples).getPoint s).printed.coefficients.length := by
    rw [hquery, Point.printed, List.length_map, Segment.getPoint_length]
    rfl
  have hbounds : (t.mapSplits Split.printed).ForallNodes fun split left right =>
      (s ∈ left → (split.getDistancesFromSplits query).1 ≤
        ((Segment.ofSamples samples).getPoint s).printed.squaredDistance query) ∧
      (s ∈ right → (split.getDistancesFromSplits query).2 ≤
        ((Segment.ofSamples samples).getPoint s).printed.squaredDistance query) := by
    refine forallNodes_mapSplits.mpr (hfits.imp fun split l r h => ⟨fun hl => ?_, fun hr => ?_⟩)
    · rw [Split.getDistancesFromSplits, split.leftBox_printed]
      exact Bounds.distanceFromPoint_le (h.leftBox_contains hl).printed hlength
    · rw [Split.getDistancesFromSplits, split.rightBox_printed]
      exact Bounds.distanceFromPoint_le (h.rightBox_contains hr).printed hlength
  obtain ⟨b, hvisit, hb⟩ := visit_finds_good (fun c => c <
      ((Segment.ofSamples samples).getPoint s).printed.squaredDistance query ∨
        c ≤ sampleDistance samples query s)
    (fun hle hc => hc.imp hle.trans_lt hle.trans) (a := s)
    (by rw [leaves_mapSplits, hmem]; exact hs.1) (.inr le_rfl)
    (hbounds.imp fun split l r h =>
      ⟨fun hl c hc => (h.1 hl).trans (not_lt.mp fun hlt => hc (.inl hlt)),
        fun hr c hc => (h.2 hr).trans (not_lt.mp fun hlt => hc (.inl hlt))⟩) none
  have hrow : b < samples.rows := by
    have hleaf := (mem_or_eq_of_visit hvisit).resolve_right (by simp)
    rwa [leaves_mapSplits, hmem] at hleaf
  refine ⟨b, hvisit, ?_⟩
  rcases hb with hlt | hle
  · exact hcloser b hrow hlt
  · exact ⟨hrow, fun i hi => hle.trans (hs.2 i hi)⟩

omit [FloorRing K] [IsStrictOrderedRing K] in
/-- Every query has a nearest sample. -/
theorem exists_isNearest {samples : Samples K} (hrows : 0 < samples.rows) (query : Point K) :
    ∃ s, IsNearest samples query s := by
  obtain ⟨s, hs, hle⟩ := Finset.exists_min_image (Finset.range samples.rows)
    (sampleDistance samples query) ⟨0, Finset.mem_range.mpr hrows⟩
  exact ⟨s, Finset.mem_range.mp hs, fun i hi => hle i (Finset.mem_range.mpr hi)⟩

omit [IsStrictOrderedRing K] in
/-- If every sample is printed exactly, a nearest sample survives printing. -/
theorem survivesPrinting_of_printed {samples : Samples K} (hrows : 0 < samples.rows)
    (hprinted : ∀ i < samples.rows, ∀ j < samples.cols,
      printed (samples.coeff i j) = samples.coeff i j) (query : Point K) :
    SurvivesPrinting samples query := by
  obtain ⟨s, hs⟩ := exists_isNearest hrows query
  have hpoint : ((Segment.ofSamples samples).getPoint s).printed =
      (Segment.ofSamples samples).getPoint s := by
    simp only [Point.printed, Segment.getPoint, List.map_map, Point.mk.injEq]
    exact List.map_congr_left fun j hj => hprinted s hs.1 j (List.mem_range.mp hj)
  refine ⟨s, hs, fun i hi hlt => ?_⟩
  rw [hpoint] at hlt
  exact absurd hlt (not_lt.mpr (hs.2 i hi))

/-- If the tree fits into the array, a model file answers exactly every file of queries
for which a nearest sample survives printing. -/
theorem answersExactly_of_survivesPrinting {std : StdAlgorithms K} {gzip : Gzip} (sqrt : K → K)
    {inputSampleDataset queriesFile : List Text} {samples queries : Samples K}
    (hsamples : loadSamples inputSampleDataset = .ok samples)
    (hqueries : loadSamples queriesFile = .ok queries) (hcols : 0 < samples.cols)
    (hquery : queries.cols = samples.cols)
    (hsurvives : ∀ i < queries.rows,
      SurvivesPrinting samples ((Segment.ofSamples queries).getPoint i))
    {selector : DimensionSelectorType} {splittingMethod : SplittingMethod}
    (hfits : FitsNodeArray std samples selector splittingMethod) {parallelExecution : Bool}
    {modelFile : Text}
    (hbuild : BuildKDTree std gzip inputSampleDataset selector splittingMethod parallelExecution
      modelFile) :
    AnswersExactly sqrt gzip inputSampleDataset modelFile queriesFile samples queries := by
  have hvalid := rootItem_valid (rows_pos_of_loadSamples hsamples) hcols selector splittingMethod
  obtain ⟨t, ht, -⟩ := hvalid.exists_builtFrom std
  refine (answersExactly_iff sqrt hsamples hqueries hcols hquery ht hfits hbuild).mpr
    fun i hi => ?_
  exact (hsurvives i hi).exists_visible ht.leaves_perm (ht.forallNodes hvalid)
    (by rw [Segment.getPoint_length, ← hquery]; rfl)

/-- If the tree fits into the array, a model file of one or two samples answers exactly. -/
theorem answersExactly_of_rows_le_two {std : StdAlgorithms K} {gzip : Gzip} (sqrt : K → K)
    {inputSampleDataset queriesFile : List Text} {samples queries : Samples K}
    (hsamples : loadSamples inputSampleDataset = .ok samples)
    (hqueries : loadSamples queriesFile = .ok queries) (hcols : 0 < samples.cols)
    (hquery : queries.cols = samples.cols) (hfew : samples.rows ≤ 2)
    {selector : DimensionSelectorType} {splittingMethod : SplittingMethod}
    (hfits : FitsNodeArray std samples selector splittingMethod) {parallelExecution : Bool}
    {modelFile : Text}
    (hbuild : BuildKDTree std gzip inputSampleDataset selector splittingMethod parallelExecution
      modelFile) :
    AnswersExactly sqrt gzip inputSampleDataset modelFile queriesFile samples queries := by
  have hvalid := rootItem_valid (rows_pos_of_loadSamples hsamples) hcols selector splittingMethod
  obtain ⟨t, ht, -⟩ := hvalid.exists_builtFrom std
  obtain ⟨numNodes, -, hload, hstored⟩ := hbuild.exists_stored hsamples hcols ht
  obtain ⟨hstored, hrows⟩ := hstored hfits
  rw [answersExactly_stored_iff sqrt hsamples hqueries hquery hload hstored hrows]
  intro i _
  obtain ⟨s, hs, hvisit⟩ := exists_visit
    (sampleDistance samples ((Segment.ofSamples queries).getPoint i))
    (fun split => split.getDistancesFromSplits ((Segment.ofSamples queries).getPoint i))
    (t.mapSplits Split.printed)
  refine ⟨s, hvisit, hrows s hs, fun k hk => ?_⟩
  apply visit_cost_le_of_length_le_two _ _ hvisit
  · rwa [leaves_mapSplits, ht.leaves_length]
  · rw [leaves_mapSplits]
    exact ht.mem_leaves_iff.mpr hk

/-- The tree over at most four samples always fits, and a model file is written. -/
theorem exists_buildKDTree (std : StdAlgorithms K) (gzip : Gzip) {inputSampleDataset : List Text}
    {samples : Samples K} (hsamples : loadSamples inputSampleDataset = .ok samples)
    (hcols : 0 < samples.cols) (hfew : samples.rows ≤ 4) (selector : DimensionSelectorType)
    (splittingMethod : SplittingMethod) (parallelExecution : Bool) :
    FitsNodeArray std samples selector splittingMethod ∧
      ∃ modelFile, BuildKDTree (K := K) std gzip inputSampleDataset selector splittingMethod
        parallelExecution modelFile := by
  have hsmall : samples.rows < 2 ^ 29 := by omega
  exact ⟨fitsNodeArray_of_repeatsAtMost std (rows_pos_of_loadSamples hsamples) hcols hsmall
    selector (.inl hfew), (exists_buildKDTree_iff std gzip hsamples hcols selector splittingMethod
      parallelExecution).mpr hsmall⟩

/-- Samples that are printed exactly, as lines of a file. -/
def shortLines : List Text := ["0.5,1".toList, "-0.25,2".toList, "3,4".toList]

/-- The matrix of these samples. -/
def shortSamples : Samples ℚ := .ofRows [[1 / 2, 1], [-1 / 4, 2], [3, 4]]

/-- The lines are loaded as the matrix. -/
theorem loadSamples_shortLines : loadSamples shortLines = .ok shortSamples :=
  loadSamples_eq_ok (by decide +kernel) (by decide) (by decide) (by decide) (by decide)

end Kdtree
