import Kdtree.BuiltModel
import Kdtree.ExactSearch
import Kdtree.General.SeenLeaves

/-!
# Querying a model file

The tree that is searched has gone through the text form, and its boxes may have
lost samples on the way. The nearest sample is then found or missed depending on
which other samples the search has seen before it comes to those boxes.
-/

namespace Kdtree

open SplitTree

/-- The id can be read off a line. -/
theorem toStringInt_append_inj {m n : ℤ} {s t : Text}
    (h : toStringInt m ++ (",".toList ++ s) = toStringInt n ++ (",".toList ++ t)) : m = n := by
  have hends (k : ℤ) : Delimited.EndsAt ",".toList (toStringInt k) :=
    .of_notMem fun hmem => absurd ((Decimal.ofInt_chars k).2 ',' hmem) (by decide)
  have htext := (hends m).append_inj (by decide) (hends n) h
  have hread : stol (toStringInt m) = .ok n := htext ▸ stol_toStringInt n
  exact Except.ok.inj ((stol_toStringInt m).symm.trans hread)

variable {K : Type} [Field K] [LinearOrder K] [FloorRing K]

/-- No sample is strictly closer to a query than sample `s`. -/
def IsNearest (samples : Samples K) (query : Point K) (s : ℕ) : Prop :=
  s < samples.rows ∧
    ∀ i < samples.rows, sampleDistance samples query s ≤ sampleDistance samples query i

/-- Sample `s` is not hidden from a query by the printed boxes of a tree: every sample
that comes before one of the nodes on the way to `s`, and is closer to the query than
the printed box on the side of `s`, is itself hidden. -/
def Visible (samples : Samples K) (t : SplitTree (Split K) ℕ) (query : Point K) (s : ℕ) : Prop :=
  Seen (sampleDistance samples query)
    ((t.mapSplits Split.printed).gates (fun split => split.getDistancesFromSplits query) · [])
    s true

/-- Querying a model file ends with one line for each query, and each line begins with
the id of a nearest sample. -/
def AnswersExactly (sqrt : K → K) (gzip : Gzip) (inputSampleDataset : List Text)
    (modelFile : Text) (queriesFile : List Text) (samples queries : Samples K) : Prop :=
  ∃ lines : List Text,
    (∃ rounds, ∀ fuel ≥ rounds,
      queryKDTree sqrt gzip fuel inputSampleDataset modelFile queriesFile = .ok lines) ∧
    lines.length = queries.rows ∧
    ∀ i line, lines[i]? = some line → ∃ (s : ℕ) (text : Text),
      line = toStringInt s ++ (",".toList ++ text) ∧
        IsNearest samples ((Segment.ofSamples queries).getPoint i) s

/-- Querying a model file whose tree is stored: each line is about the leaf that branch
and bound ends with. -/
theorem queryKDTree_stored (sqrt : K → K) {gzip : Gzip} {inputSampleDataset queriesFile : List Text}
    {modelFile : Text} {samples queries : Samples K} {kdTree : KDTree K}
    {t : SplitTree (Split K) ℕ} (hsamples : loadSamples inputSampleDataset = .ok samples)
    (hqueries : loadSamples queriesFile = .ok queries) (hcols : queries.cols = samples.cols)
    (hload : load gzip modelFile = .ok kdTree) (hstored : kdTree.Stored 0 t)
    (hrows : ∀ i ∈ t.leaves, i < samples.rows) :
    ∃ found : ℕ → ℕ,
      (∀ i, t.visit (sampleDistance samples ((Segment.ofSamples queries).getPoint i))
        (fun split => split.getDistancesFromSplits ((Segment.ofSamples queries).getPoint i)) none =
          some (found i)) ∧
      ∀ fuel ≥ 2 * t.leaves.length,
        queryKDTree sqrt gzip fuel inputSampleDataset modelFile queriesFile =
          .ok ((List.range queries.rows).map fun i => NearestNeighbor.toLine sqrt
            ⟨found i, (Segment.ofSamples samples).getPoint (found i),
              (sampleDistance samples ((Segment.ofSamples queries).getPoint i)
                (found i) : K)⟩) := by
  have hquery (i : ℕ) :
      ((Segment.ofSamples queries).getPoint i).coefficients.length = samples.cols := by
    rw [Segment.getPoint_length, ← hcols]
    rfl
  choose found _ hvisit hsearch using fun i =>
    findNearestNeighbor_stored hstored hrows (hquery i)
  refine ⟨found, hvisit, fun fuel hfuel => ?_⟩
  simp only [queryKDTree, hsamples, hload, hqueries, bind, Except.bind]
  refine Fallible.mapM_eq_ok fun i _ => ?_
  simp only [hsearch i fuel hfuel]
  rfl

/-- Querying a model file whose tree is stored is exact if and only if branch and bound
ends with a nearest sample for every query. -/
theorem answersExactly_stored_iff (sqrt : K → K) {gzip : Gzip}
    {inputSampleDataset queriesFile : List Text} {modelFile : Text} {samples queries : Samples K}
    {kdTree : KDTree K} {t : SplitTree (Split K) ℕ}
    (hsamples : loadSamples inputSampleDataset = .ok samples)
    (hqueries : loadSamples queriesFile = .ok queries) (hcols : queries.cols = samples.cols)
    (hload : load gzip modelFile = .ok kdTree) (hstored : kdTree.Stored 0 t)
    (hrows : ∀ i ∈ t.leaves, i < samples.rows) :
    AnswersExactly sqrt gzip inputSampleDataset modelFile queriesFile samples queries ↔
      ∀ i < queries.rows, ∃ s, t.visit (sampleDistance samples
        ((Segment.ofSamples queries).getPoint i)) (fun split => split.getDistancesFromSplits
          ((Segment.ofSamples queries).getPoint i)) none = some s ∧
        IsNearest samples ((Segment.ofSamples queries).getPoint i) s := by
  obtain ⟨found, hvisit, hlines⟩ :=
    queryKDTree_stored sqrt hsamples hqueries hcols hload hstored hrows
  constructor
  · rintro ⟨lines, ⟨rounds, hrounds⟩, -, hnearest⟩ i hi
    obtain rfl := Except.ok.inj ((hlines _ (le_max_left _ rounds)).symm.trans
      (hrounds _ (le_max_right _ _)))
    obtain ⟨s, text, hline, hs⟩ := hnearest i _
      (by rw [List.getElem?_map, List.getElem?_range hi]; rfl)
    obtain rfl : found i = s := Int.natCast_inj.mp (toStringInt_append_inj hline)
    exact ⟨_, hvisit i, hs⟩
  · intro hnearest
    refine ⟨_, ⟨_, hlines⟩, by simp, fun i line hline => ?_⟩
    obtain ⟨hi, rfl⟩ := List.getElem?_eq_some_iff.mp hline
    obtain ⟨s, hs, hsnearest⟩ := hnearest i (by simpa using hi)
    obtain rfl : found i = s := Option.some.inj ((hvisit i).symm.trans hs)
    rw [List.getElem_map, List.getElem_range]
    exact ⟨found i, _, rfl, hsnearest⟩

/-- In a tree over all samples, branch and bound on the printed boxes ends with a
nearest sample if and only if a nearest sample is not hidden. -/
theorem visit_isNearest_iff {samples : Samples K} {t : SplitTree (Split K) ℕ}
    (hleaves : t.leaves.Perm (List.range samples.rows)) (query : Point K) :
    (∃ s, (t.mapSplits Split.printed).visit (sampleDistance samples query)
        (fun split => split.getDistancesFromSplits query) none = some s ∧
      IsNearest samples query s) ↔
      ∃ s, IsNearest samples query s ∧ Visible samples t query s := by
  have hmem {i : ℕ} : i ∈ t.leaves ↔ i < samples.rows := hleaves.mem_iff.trans List.mem_range
  have hnodup : (t.mapSplits Split.printed).leaves.Nodup := by
    rw [leaves_mapSplits]
    exact hleaves.nodup_iff.mpr List.nodup_range
  obtain ⟨s, -, hs⟩ := exists_visit (sampleDistance samples query)
    (fun split => split.getDistancesFromSplits query) (t.mapSplits Split.printed)
  have hleast := visit_least_iff hnodup hs
  have hrow := (visit_seen hnodup hs).1
  simp only [leaves_mapSplits, hmem] at hleast hrow
  constructor
  · rintro ⟨s', hs', -, hle⟩
    obtain rfl : s = s' := Option.some.inj (hs.symm.trans hs')
    obtain ⟨a, ha, hseen, hle'⟩ := hleast.mp hle
    exact ⟨a, ⟨ha, hle'⟩, hseen⟩
  · rintro ⟨a, ⟨ha, hle⟩, hseen⟩
    exact ⟨s, hs, hrow, hleast.mpr ⟨a, ha, hseen, hle⟩⟩

variable [IsStrictOrderedRing K]

/-- If the tree fits into the array, a model file answers every query exactly if and only
if every query has a nearest sample that is not hidden from it. -/
theorem answersExactly_iff {std : StdAlgorithms K} {gzip : Gzip} (sqrt : K → K)
    {inputSampleDataset queriesFile : List Text} {samples queries : Samples K}
    (hsamples : loadSamples inputSampleDataset = .ok samples)
    (hqueries : loadSamples queriesFile = .ok queries) (hcols : 0 < samples.cols)
    (hquery : queries.cols = samples.cols) {selector : DimensionSelectorType}
    {splittingMethod : SplittingMethod} {t : SplitTree (Split K) ℕ}
    (ht : BuiltFrom std (rootItem samples selector splittingMethod) t)
    (hfits : FitsNodeArray std samples selector splittingMethod) {parallelExecution : Bool}
    {modelFile : Text}
    (hbuild : BuildKDTree std gzip inputSampleDataset selector splittingMethod parallelExecution
      modelFile) :
    AnswersExactly sqrt gzip inputSampleDataset modelFile queriesFile samples queries ↔
      ∀ i < queries.rows, ∃ s, IsNearest samples ((Segment.ofSamples queries).getPoint i) s ∧
        Visible samples t ((Segment.ofSamples queries).getPoint i) s := by
  obtain ⟨numNodes, -, hload, hstored⟩ := hbuild.exists_stored hsamples hcols ht
  obtain ⟨hstored, hrows⟩ := hstored hfits
  rw [answersExactly_stored_iff sqrt hsamples hqueries hquery hload hstored hrows]
  exact forall₂_congr fun i _ => visit_isNearest_iff ht.leaves_perm _

end Kdtree
