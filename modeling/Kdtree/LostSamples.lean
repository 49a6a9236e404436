import Kdtree.LoadSamples
import Kdtree.PrintedBoxes

/-!
# Which model files lose samples

Samples that are printed exactly are never lost, whatever the queries. Without exact
printing, that holds for at most two samples only: for any larger number there are samples
that are all printed as one number, which lies beyond them. All printed boxes are then
equally far from the origin, and farther than any sample, so that the less side of the root
is skipped.
-/

namespace Kdtree

open SplitTree OrderStatistics

variable {K : Type} [Field K] [LinearOrder K]

/-- In one dimension, how far a point is from a box above it. -/
theorem Bounds.distanceFromPoint_of_lt {bounds : Bounds K} {x y : K}
    (hmin : bounds.minPoint.getValueAt 0 = y) (h : x < y) :
    bounds.distanceFromPoint ⟨[x]⟩ = (y - x) * (y - x) := by
  have hpoint : (⟨[x]⟩ : Point K).getValueAt 0 = x := rfl
  simp [distanceFromPoint, hpoint, hmin, h]

/-- Samples in one dimension, in ascending order, from above half a millionth to below one. -/
structure Samples.Merges (samples : Samples K) : Prop where
  /-- There is one dimension. -/
  cols : samples.cols = 1
  /-- Later samples have larger coefficients. -/
  ascending : ∀ i < samples.rows, ∀ j < samples.rows, i < j →
    samples.coeff i 0 < samples.coeff j 0
  /-- The coefficients are rounded up to a millionth. -/
  between : ∀ i < samples.rows, 1 - samples.coeff i 0 * 10 ^ 6 < samples.coeff i 0 * 10 ^ 6 ∧
    samples.coeff i 0 * 10 ^ 6 < 1

namespace Samples.Merges

variable {samples : Samples K}

/-- No two of them agree. -/
theorem repeatsAtMost (h : samples.Merges) : samples.RepeatsAtMost 1 := by
  apply Samples.repeatsAtMost_of_subset fun _ i => [i]
  · exact fun _ _ => le_rfl
  · intro d hd i hi k hk heq
    obtain rfl : d = 0 := by have := h.cols; omega
    rw [List.mem_singleton]
    rcases lt_trichotomy k i with hlt | rfl | hgt
    · exact absurd heq (h.ascending k hk i hi hlt).ne
    · rfl
    · exact absurd heq (h.ascending i hi k hk hgt).ne'

variable [IsStrictOrderedRing K]

/-- The distance of a sample from the origin. -/
theorem sampleDistance_eq (h : samples.Merges) (i : ℕ) :
    sampleDistance samples ⟨[0]⟩ i = samples.coeff i 0 * samples.coeff i 0 := by
  have hcols : (Segment.ofSamples samples).samples.cols = 1 := h.cols
  have horigin : (⟨[0]⟩ : Point K).getValueAt 0 = 0 := rfl
  rw [sampleDistance, Point.squaredDistance_eq, Segment.getPoint_length, hcols,
    Finset.sum_range_one, Segment.getPoint_getValueAt _ _ (by omega), horigin, sub_zero, sq]
  rfl

/-- Its coefficient lies between zero and a millionth. -/
theorem coeff_between (h : samples.Merges) {i : ℕ} (hi : i < samples.rows) :
    0 < samples.coeff i 0 ∧ samples.coeff i 0 < 1 / 10 ^ 6 := by
  obtain ⟨hlow, hhigh⟩ := h.between i hi
  have hscale : (0 : K) < 10 ^ 6 := by positivity
  refine ⟨?_, by rwa [lt_div_iff₀ hscale]⟩
  by_contra hneg
  have hproduct := mul_nonpos_of_nonpos_of_nonneg (not_lt.mp hneg) hscale.le
  linarith

/-- Every sample is closer to the origin than a millionth. -/
theorem sampleDistance_lt (h : samples.Merges) {i : ℕ} (hi : i < samples.rows) :
    sampleDistance samples ⟨[0]⟩ i < 1 / 10 ^ 6 * (1 / 10 ^ 6) := by
  obtain ⟨hpos, hlt⟩ := h.coeff_between hi
  rw [h.sampleDistance_eq]
  exact mul_self_lt_mul_self hpos.le hlt

/-- The first sample is the only one that is nearest to the origin. -/
theorem eq_zero_of_isNearest [FloorRing K] (h : samples.Merges) {s : ℕ}
    (hs : IsNearest samples ⟨[0]⟩ s) : s = 0 := by
  by_contra hne
  have hzero : 0 < samples.rows := (Nat.zero_le s).trans_lt hs.1
  have hcloser := mul_self_lt_mul_self (h.coeff_between hzero).1.le
    (h.ascending 0 hzero s hs.1 (Nat.pos_of_ne_zero hne))
  have hle := hs.2 0 hzero
  rw [h.sampleDistance_eq, h.sampleDistance_eq] at hle
  exact absurd hle hcloser.not_ge

/-- Of three or more such samples, the root has at least two on its less side, and the first
one not on its greater side. -/
theorem sides_of_root (h : samples.Merges) (hmany : 3 ≤ samples.rows) {std : StdAlgorithms K}
    {selector : DimensionSelectorType} {splittingMethod : SplittingMethod} {d : ℕ}
    {sws : SplitWithSegments K}
    (hsplit : SplitsAt std (rootItem samples selector splittingMethod) d sws) :
    2 ≤ sws.lessIds.length ∧ 0 ∉ sws.greaterIds := by
  have hcol : 0 < samples.cols := by rw [h.cols]; exact one_pos
  have hvalid := rootItem_valid (show 0 < samples.rows by omega) hcol selector splittingMethod
  have hd : d < samples.cols := hvalid.dimension_lt hsplit
  have hone := h.repeatsAtMost.rootItem selector splittingMethod d hd
    (sws.split.splitPoint.getValueAt d)
  obtain ⟨hless, hgreater⟩ := hsplit.isSplit.sides_eq_filter hone
  -- the samples up to the threshold are more than half of them
  have hlength : 2 ≤ sws.lessIds.length := by
    have hkeys : 0 < ((rootItem samples selector splittingMethod).segment.keys d).length := by
      rw [Segment.keys_length]
      exact List.length_pos_iff.mpr hvalid.ids_ne_nil
    have hhalf := (hsplit.isSplit.isThreshold hvalid.ids_ne_nil hd).half_lt_countP hkeys
    rw [Segment.keys_length, Segment.keys, List.countP_map, List.countP_eq_length_filter] at hhalf
    have hrows : (rootItem samples selector splittingMethod).segment.sampleIdsInSegment.length =
        samples.rows := List.length_range
    rw [hless]
    exact (show 2 ≤ (samples.rows - 1) / 2 + 1 by omega).trans (hrows ▸ hhalf)
  refine ⟨hlength, fun hmem => ?_⟩
  obtain ⟨i, hi⟩ := List.exists_mem_of_length_pos (two_pos.trans_le hlength)
  rw [hgreater, List.mem_filter, decide_eq_true_eq] at hmem
  rw [hless, List.mem_filter, decide_eq_true_eq] at hi
  have hlt : samples.coeff i d < samples.coeff 0 d := hi.2.trans_lt hmem.2
  obtain rfl : d = 0 := by have := h.cols; omega
  rcases Nat.eq_zero_or_pos i with rfl | hpos
  · exact hlt.false
  · exact hlt.not_gt
      (h.ascending 0 (List.mem_range.mp hmem.1) i (List.mem_range.mp hi.1) hpos)

variable [FloorRing K]

/-- What lies between two of the samples is printed as a millionth. -/
theorem printed_eq (h : samples.Merges) {i j : ℕ} (hi : i < samples.rows) (hj : j < samples.rows)
    {x : K} (hlow : samples.coeff i 0 ≤ x) (hhigh : x ≤ samples.coeff j 0) :
    printed x = 1 / 10 ^ 6 := by
  have hscale : (0 : K) < 10 ^ 6 := by positivity
  have hlow' := mul_le_mul_of_nonneg_right hlow hscale.le
  have hhigh' := mul_le_mul_of_nonneg_right hhigh hscale.le
  apply Decimal.rounded_eq_unit
  · linarith [(h.between i hi).1]
  · linarith [(h.between j hj).2]

/-- All printed boxes are equally far from the origin. -/
theorem getDistancesFromSplits_eq (h : samples.Merges) {split : Split K} {less greater : List ℕ}
    (hfits : SplitFits samples split less greater) (hless : ∀ i ∈ less, i < samples.rows)
    (hgreater : ∀ i ∈ greater, i < samples.rows) :
    split.printed.getDistancesFromSplits ⟨[0]⟩ =
      (1 / 10 ^ 6 * (1 / 10 ^ 6), 1 / 10 ^ 6 * (1 / 10 ^ 6)) := by
  have hcol : 0 < samples.cols := by rw [h.cols]; exact one_pos
  have hpos : (0 : K) < 1 / 10 ^ 6 := by positivity
  have hd : split.splitDimension = 0 := by
    have hlt := hfits.dimension_lt
    rw [h.cols] at hlt
    omega
  obtain ⟨i, hi, hmin⟩ := (hfits.left.isLeast 0 hcol).1
  obtain ⟨i', hi', hmax⟩ := (hfits.left.isGreatest 0 hcol).1
  obtain ⟨j, hj, hmin'⟩ := (hfits.right.isLeast 0 hcol).1
  have hleft : split.printed.leftBox.minPoint.getValueAt 0 = 1 / 10 ^ 6 := by
    have hbox : split.leftBox.minPoint.getValueAt 0 = samples.coeff i 0 := hmin.symm
    rw [split.leftBox_printed, Bounds.printed, Point.getValueAt_printed, hbox]
    exact h.printed_eq (hless i hi) (hless i hi) le_rfl le_rfl
  have hright : split.printed.rightBox.minPoint.getValueAt 0 = 1 / 10 ^ 6 := by
    have hlength := hfits.right.minPoint_length
    have hbox : split.rightBox.minPoint.getValueAt 0 = split.splitPoint.getValueAt 0 := by
      simp [Split.rightBox, Point.getValueAt, List.getD_eq_getElem?_getD, hd, hlength, hcol]
    have hbelow := hfits.le_splitPoint
    have habove := hfits.splitPoint_le
    rw [hd] at hbelow habove
    rw [split.rightBox_printed, Bounds.printed, Point.getValueAt_printed, hbox]
    exact h.printed_eq (hless i' hi') (hgreater j hj) (hmax.trans_le hbelow)
      (habove.trans_eq hmin'.symm)
  rw [Split.getDistancesFromSplits, Bounds.distanceFromPoint_of_lt hleft hpos,
    Bounds.distanceFromPoint_of_lt hright hpos, sub_zero]

/-- Of three or more such samples, branch and bound does not find the first one. -/
theorem not_isNearest_of_visit (h : samples.Merges) (hmany : 3 ≤ samples.rows)
    {std : StdAlgorithms K} {selector : DimensionSelectorType} {splittingMethod : SplittingMethod}
    {t : SplitTree (Split K) ℕ} (ht : BuiltFrom std (rootItem samples selector splittingMethod) t)
    {s : ℕ} (hvisit : (t.mapSplits Split.printed).visit (sampleDistance samples ⟨[0]⟩)
      (fun split => split.getDistancesFromSplits ⟨[0]⟩) none = some s) :
    ¬ IsNearest samples ⟨[0]⟩ s := by
  have hcol : 0 < samples.cols := by rw [h.cols]; exact one_pos
  have hvalid := rootItem_valid (show 0 < samples.rows by omega) hcol selector splittingMethod
  have hfits := ht.forallNodes hvalid
  have hleaf : ∀ i ∈ t.leaves, i < samples.rows := fun i hi => ht.mem_leaves_iff.mp hi
  intro hs
  obtain rfl := h.eq_zero_of_isNearest hs
  cases ht with
  | leaf hid =>
    have hlength := congrArg List.length hid
    rw [rootItem, List.length_range, List.length_singleton] at hlength
    omega
  | @node _ d sws l r hsplit hl hr =>
    obtain ⟨hlength, hzero⟩ := h.sides_of_root hmany hsplit
    have hlessLength : l.leaves.length = sws.lessIds.length := hl.leaves_perm.length_eq
    cases l with
    | leaf _ =>
      rw [leaves, List.length_singleton] at hlessLength
      omega
    | node split' l' r' =>
      obtain ⟨hroot, ⟨hside, -, -⟩, -⟩ := hfits
      have hends := h.getDistancesFromSplits_eq hroot
        (fun i hi => hleaf i (List.mem_append_left _ hi))
        fun i hi => hleaf i (List.mem_append_right _ hi)
      have hends' := h.getDistancesFromSplits_eq hside
        (fun i hi => hleaf i (List.mem_append_left _ (List.mem_append_left _ hi)))
        fun i hi => hleaf i (List.mem_append_left _ (List.mem_append_right _ hi))
      obtain ⟨b, hb, hright⟩ := exists_visit (sampleDistance samples ⟨[0]⟩)
        (fun split => split.getDistancesFromSplits ⟨[0]⟩) (r.mapSplits Split.printed)
      rw [leaves_mapSplits] at hb
      have hcost := h.sampleDistance_lt (hleaf b (List.mem_append_right _ hb))
      -- the right side comes first, and the left side is then too far
      rw [mapSplits, visit_none_of_not_lt (by rw [hends]; exact lt_irrefl _), hright, mapSplits,
        visit_eq_of_lt_bounds (by rw [hends']; exact hcost) (by rw [hends']; exact hcost)] at hvisit
      obtain rfl := Option.some.inj hvisit
      exact hzero (hr.leaves_perm.mem_iff.mp hb)

end Samples.Merges

/-- Coefficients with as many decimals as needed to tell `n` of them apart. -/
def mergedValue (K : Type) [Field K] (n i : ℕ) : K :=
  ((6 * 10 ^ n + i : ℕ) : K) / ((10 ^ (n + 7) : ℕ) : K)

omit [LinearOrder K] in
/-- They are decimal fractions. -/
theorem mergedValue_eq (n i : ℕ) :
    mergedValue K n i = (6 * 10 ^ n + i : ℕ) / 10 ^ (n + 7) := by
  rw [mergedValue, Nat.cast_pow 10, Nat.cast_ofNat]

variable [IsStrictOrderedRing K]

/-- They are in ascending order, between half a millionth and one. -/
theorem merges_of_coeff {samples : Samples K} (hcols : samples.cols = 1)
    (hcoeff : ∀ i < samples.rows, samples.coeff i 0 = mergedValue K samples.rows i) :
    samples.Merges := by
  refine ⟨hcols, fun i hi j hj hij => ?_, fun i hi => ?_⟩
  · rw [hcoeff i hi, hcoeff j hj]
    exact div_lt_div_of_pos_right (Nat.cast_lt.mpr (by omega)) (by positivity)
  · have hpow : (0 : K) < 10 ^ (samples.rows + 1) := by positivity
    have hscaled : mergedValue K samples.rows i * 10 ^ 6 =
        (6 * 10 ^ samples.rows + i : ℕ) / 10 ^ (samples.rows + 1) := by
      have hexponent : samples.rows + 7 = samples.rows + 1 + 6 := rfl
      rw [mergedValue_eq, hexponent, pow_add _ _ 6]
      field_simp
    have hrows : i < 10 ^ samples.rows := hi.trans (Nat.lt_pow_self (by decide))
    rw [hcoeff i hi, hscaled]
    constructor
    · rw [sub_lt_iff_lt_add, ← add_div, lt_div_iff₀ hpow]
      norm_cast
      rw [pow_succ]
      omega
    · rw [div_lt_one hpow]
      norm_cast
      rw [pow_succ]
      omega

variable [FloorRing K]

/-- For any number of samples there is a file with such coefficients. -/
theorem exists_merges {n : ℕ} (hn : 0 < n) (hlt : n < 2 ^ 31) :
    ∃ (inputSampleDataset : List Text) (samples : Samples K),
      loadSamples inputSampleDataset = .ok samples ∧ samples.rows = n ∧ samples.Merges := by
  have hline : ∀ i < n, parseLine (Decimal.fixed (n + 7) (mergedValue K n i)) =
      .ok [mergedValue K n i] := by
    intro i _
    obtain ⟨hne, hchars⟩ := Decimal.fixed_chars (n + 7) (mergedValue K n i)
    apply parseLine_single hne fun hmem => absurd (hchars ',' hmem) (by decide)
    rw [stod, Decimal.parse_fixed (by omega), mergedValue_eq, Decimal.rounded_natCast_div]
    rfl
  obtain ⟨samples, hsamples, hrows, hcols, hcoeff⟩ := exists_loadSamples_range hn hlt
    (show 1 < 2 ^ 31 by decide) hline fun _ _ => List.length_singleton
  refine ⟨_, samples, hsamples, hrows, merges_of_coeff hcols fun i hi => ?_⟩
  rw [hcoeff i (hrows ▸ hi), hrows]
  rfl

omit [LinearOrder K] [IsStrictOrderedRing K] [FloorRing K] in
/-- There is a file of one query, at the origin. -/
theorem exists_origin : ∃ (queriesFile : List Text) (queries : Samples K),
    loadSamples queriesFile = .ok queries ∧ queries.rows = 1 ∧ queries.cols = 1 ∧
      (Segment.ofSamples queries).getPoint 0 = ⟨[0]⟩ := by
  have hline : ∀ i < 1, parseLine (toStringInt 0) = .ok [(0 : K)] := fun _ _ =>
    parseLine_single (by decide) (by decide) (by rw [stod_toStringInt, Int.cast_zero])
  obtain ⟨queries, hqueries, hrows, hcols, hcoeff⟩ := exists_loadSamples_range one_pos
    (by decide) (show 1 < 2 ^ 31 by decide) hline fun _ _ => List.length_singleton
  refine ⟨_, queries, hqueries, hrows, hcols, ?_⟩
  have hdims : (Segment.ofSamples queries).getNumDimensions = 1 := hcols
  have hzero : (Segment.ofSamples queries).samples.coeff 0 0 = 0 := hcoeff 0 one_pos 0
  rw [Segment.getPoint, hdims, List.range_one, List.map_singleton, hzero]

/-- Every model file that is built from samples of a kind answers every file of queries
exactly, if the tree fits into the node array: with either selector, method and builder, in
any schedule, and whatever the standard leaves open. -/
def AlwaysExact (kind : Samples K → Prop) : Prop :=
  ∀ (std : StdAlgorithms K) (gzip : Gzip) (sqrt : K → K)
    (inputSampleDataset queriesFile : List Text) (samples queries : Samples K)
    (dimensionSelectorType : DimensionSelectorType) (splittingMethod : SplittingMethod)
    (parallelExecution : Bool) (modelFile : Text),
    loadSamples inputSampleDataset = .ok samples → loadSamples queriesFile = .ok queries →
    0 < samples.cols → queries.cols = samples.cols → kind samples →
    FitsNodeArray std samples dimensionSelectorType splittingMethod →
    BuildKDTree std gzip inputSampleDataset dimensionSelectorType splittingMethod
      parallelExecution modelFile →
    AnswersExactly sqrt gzip inputSampleDataset modelFile queriesFile samples queries

/-- All coefficients of the samples are printed exactly. -/
def Samples.PrintedExactly (samples : Samples K) : Prop :=
  ∀ i < samples.rows, ∀ j < samples.cols, printed (samples.coeff i j) = samples.coeff i j

/-- Samples that are printed exactly are not lost. -/
theorem alwaysExact_of_printedExactly {kind : Samples K → Prop}
    (hkind : ∀ samples, kind samples → samples.PrintedExactly) : AlwaysExact kind := by
  intro std gzip sqrt _ _ samples queries _ _ _ _ hsamples hqueries hcols hquery hof hfits hbuild
  have hsurvives : ∀ i < queries.rows, SurvivesPrinting samples
      ((Segment.ofSamples queries).getPoint i) := fun i _ =>
    survivesPrinting_of_printed (rows_pos_of_loadSamples hsamples) (hkind samples hof) _
  exact answersExactly_of_survivesPrinting sqrt hsamples hqueries hcols hquery hsurvives hfits
    hbuild

/-- Three or more samples that are merged when they are printed may be lost. -/
theorem Samples.Merges.not_alwaysExact {samples : Samples K} (h : samples.Merges)
    (hmany : 3 ≤ samples.rows) (hsmall : samples.rows < 2 ^ 29) {inputSampleDataset : List Text}
    (hsamples : loadSamples inputSampleDataset = .ok samples) {kind : Samples K → Prop}
    (hkind : kind samples) : ¬ AlwaysExact kind := by
  intro hexact
  have hcols : 0 < samples.cols := by rw [h.cols]; exact one_pos
  have hrows := rows_pos_of_loadSamples hsamples
  have hfits : FitsNodeArray .sorting samples .highestRangeAxis .median :=
    fitsNodeArray_of_repeatsAtMost .sorting hrows hcols hsmall .highestRangeAxis
      (.inr ⟨h.repeatsAtMost.mono one_le_two, .inl rfl⟩)
  obtain ⟨modelFile, hbuild⟩ := (exists_buildKDTree_iff .sorting .stored hsamples hcols
    .highestRangeAxis .median false).mpr hsmall
  obtain ⟨queriesFile, queries, hqueries, hone, hquery, horigin⟩ := exists_origin (K := K)
  have hanswers := hexact .sorting .stored id inputSampleDataset queriesFile samples queries
    .highestRangeAxis .median false modelFile hsamples hqueries hcols (hquery.trans h.cols.symm)
    hkind hfits hbuild
  obtain ⟨t, ht, -⟩ :=
    (rootItem_valid hrows hcols .highestRangeAxis .median).exists_builtFrom .sorting
  obtain ⟨numNodes, -, hload, hstored⟩ := hbuild.exists_stored hsamples hcols ht
  obtain ⟨hstored, hleaves⟩ := hstored hfits
  obtain ⟨s, hvisit, hs⟩ := (answersExactly_stored_iff id hsamples hqueries
    (hquery.trans h.cols.symm) hload hstored hleaves).mp hanswers 0 (hone ▸ one_pos)
  rw [horigin] at hvisit hs
  exact h.not_isNearest_of_visit hmany ht hvisit hs

/-- Exact printing is what makes model files exact. Over samples that are printed exactly they
always are; over all samples of a given number, if and only if there are at most two. -/
theorem alwaysExact_iff {n : ℕ} (hn : 0 < n) (hsmall : n < 2 ^ 29) :
    AlwaysExact (K := K) (fun samples => samples.rows = n ∧ samples.PrintedExactly) ∧
      (AlwaysExact (K := K) (fun samples => samples.rows = n) ↔ n ≤ 2) := by
  refine ⟨alwaysExact_of_printedExactly fun _ h => h.2, fun hexact => ?_, fun hfew => ?_⟩
  · by_contra hmany
    obtain ⟨_, samples, hsamples, rfl, hmerges⟩ := exists_merges (K := K) hn (by omega)
    exact hmerges.not_alwaysExact (by omega) hsmall hsamples (by rfl) hexact
  · intro _ _ sqrt _ _ _ _ _ _ _ _ hsamples hqueries hcols hquery hrows hfits hbuild
    exact answersExactly_of_rows_le_two sqrt hsamples hqueries hcols hquery (hrows.trans_le hfew)
      hfits hbuild

/-- For three samples. -/
theorem alwaysExact_three :
    AlwaysExact (K := ℚ) (fun samples => samples.rows = 3 ∧ samples.PrintedExactly) ∧
      ¬ AlwaysExact (K := ℚ) (fun samples => samples.rows = 3) := by
  obtain ⟨hprinted, hiff⟩ := alwaysExact_iff (K := ℚ) (n := 3) (by decide) (by decide)
  exact ⟨hprinted, fun h => absurd (hiff.mp h) (by decide)⟩

end Kdtree
