import Kdtree.Heights
import Kdtree.TieOrder

/-!
# The order of the rows

A file of samples lists them in some order, and the program numbers them in that order.
If no two samples agree in a coefficient, a tree that is built by sorting does not depend
on it: in another order the same samples give the same planes and boxes, with the numbers
of the samples exchanged in the leaves. Every query is then answered with the same sample,
at the same distance.
-/

namespace Kdtree

open SplitTree OrderStatistics SplitSegments

variable {K : Type} [Field K] [LinearOrder K]

/-- The other item is about the same samples under new numbers, in any order. -/
structure DataToBuildNodes.Renumbered (σ : ℕ → ℕ) (item item' : DataToBuildNodes K) : Prop where
  /-- The samples have the same dimensions. -/
  cols : item'.samples.cols = item.samples.cols
  /-- A sample has the same coefficients under its new number. -/
  coeff : ∀ i ∈ item.sampleIdsInSegment, ∀ j < item.samples.cols,
    item'.samples.coeff (σ i) j = item.samples.coeff i j
  /-- The samples of the segment are those under the new numbers. -/
  ids : item'.sampleIdsInSegment.Perm (item.sampleIdsInSegment.map σ)
  /-- The dimension is selected alike. -/
  selector : item'.dimensionSelectorType = item.dimensionSelectorType
  /-- So is the split point. -/
  method : item'.splittingMethod = item.splittingMethod
  /-- The parent was split in the same dimension. -/
  last : item'.lastDimensionUsedForSplitting = item.lastDimensionUsedForSplitting

/-- A median of values is one of the same values in another order. -/
theorem IsMedian.perm {values values' : List K} {x : K} (h : IsMedian values x)
    (hperm : values'.Perm values) : IsMedian values' x := by
  have hrank {n : ℕ} {y : K} (hy : HasRank values n y) : HasRank values' n y := by
    constructor
    · rw [hperm.countP_eq]
      exact hy.below
    · rw [hperm.countP_eq]
      exact hy.upTo
  constructor
  · intro hodd
    rw [hperm.length_eq] at hodd ⊢
    exact hrank (h.odd hodd)
  · intro heven
    rw [hperm.length_eq] at heven ⊢
    obtain ⟨a, b, ha, hb, hx⟩ := h.even heven
    exact ⟨a, b, hrank ha, hrank hb, hx⟩

/-- There is only one median. -/
theorem IsMedian.unique {values : List K} {x y : K} (hne : values ≠ []) (hx : IsMedian values x)
    (hy : IsMedian values y) : x = y :=
  (hx.eq_medianValue hne).trans (hy.eq_medianValue hne).symm

/-- Samples with the same entries in every column have the same bounding box. -/
theorem IsBox.unique {samples samples' : Samples K} {ids ids' : List ℕ} {bounds bounds' : Bounds K}
    (h : IsBox samples ids bounds) (h' : IsBox samples' ids' bounds')
    (hcols : samples'.cols = samples.cols)
    (hentries : ∀ j < samples.cols, samples'.entriesAt ids' j = samples.entriesAt ids j) :
    bounds = bounds' := by
  have hpoint {p q : Point K} (hp : p.coefficients.length = samples.cols)
      (hq : q.coefficients.length = samples.cols)
      (hvalues : ∀ j < samples.cols, p.getValueAt j = q.getValueAt j) : p = q := by
    rw [Point.mk.injEq]
    apply List.ext_getElem (hp.trans hq.symm)
    intro j hj hj'
    have hvalue := hvalues j (hp ▸ hj)
    simpa [Point.getValueAt, List.getD_eq_getElem?_getD, hj, hj'] using hvalue
  rw [Bounds.mk.injEq]
  constructor
  · apply hpoint h.maxPoint_length (h'.maxPoint_length.trans hcols)
    intro j hj
    have hgreatest := h'.isGreatest j (hcols ▸ hj)
    rw [hentries j hj] at hgreatest
    exact (h.isGreatest j hj).unique hgreatest
  · apply hpoint h.minPoint_length (h'.minPoint_length.trans hcols)
    intro j hj
    have hleast := h'.isLeast j (hcols ▸ hj)
    rw [hentries j hj] at hleast
    exact (h.isLeast j hj).unique hleast

namespace DataToBuildNodes.Renumbered

variable {σ : ℕ → ℕ} {item item' : DataToBuildNodes K}

omit [Field K] [LinearOrder K] in
/-- The coefficients in a dimension are the same, in another order. -/
theorem keys_perm (h : item.Renumbered σ item') {d : ℕ} (hd : d < item.samples.cols) :
    (item'.segment.keys d).Perm (item.segment.keys d) := by
  have hkeys : (item.sampleIdsInSegment.map σ).map (fun i => item'.samples.coeff i d) =
      item.segment.keys d := by
    rw [List.map_map]
    exact List.map_congr_left fun i hi => h.coeff i hi d hd
  rw [← hkeys]
  exact h.ids.map _

omit [Field K] [LinearOrder K] in
/-- They are the same for corresponding parts of the two segments. -/
theorem entriesAt_eq (h : item.Renumbered σ item') {ids ids' : List ℕ}
    (hsub : ids ⊆ item.sampleIdsInSegment) (hids : ids'.Perm (ids.map σ)) {j : ℕ}
    (hj : j < item.samples.cols) :
    item'.samples.entriesAt ids' j = item.samples.entriesAt ids j := by
  rw [item'.samples.entriesAt_perm hids]
  ext x
  simp only [Samples.entriesAt, List.mem_map, Set.mem_ofPred_eq, exists_exists_and_eq_and]
  constructor
  · rintro ⟨i, hi, rfl⟩
    exact ⟨i, hi, (h.coeff i (hsub hi) j hj).symm⟩
  · rintro ⟨i, hi, rfl⟩
    exact ⟨i, hi, h.coeff i (hsub hi) j hj⟩

/-- Corresponding parts of the two segments have the same bounding box. -/
theorem bounds_eq (h : item.Renumbered σ item') {ids ids' : List ℕ}
    (hsub : ids ⊆ item.sampleIdsInSegment) (hids : ids'.Perm (ids.map σ))
    {bounds bounds' : Bounds K}
    (hbounds : Bounds.generate ⟨item.samples, ids⟩ = .ok bounds)
    (hbounds' : Bounds.generate ⟨item'.samples, ids'⟩ = .ok bounds') : bounds = bounds' :=
  (isBox_of_generate hbounds).unique (isBox_of_generate hbounds') h.cols
    fun _ hj => h.entriesAt_eq hsub hids hj

/-- The same dimension is selected. -/
theorem selected_eq (h : item.Renumbered σ item') (hne : item.sampleIdsInSegment ≠ []) :
    DimensionSelectorByType.get item'.segment item'.dimensionSelectorType
        item'.lastDimensionUsedForSplitting =
      DimensionSelectorByType.get item.segment item.dimensionSelectorType
        item.lastDimensionUsedForSplitting := by
  have hdims : item'.segment.getNumDimensions = item.segment.getNumDimensions := h.cols
  rw [h.selector, h.last]
  cases item.dimensionSelectorType with
  | cycleThroughAxes =>
    simp only [DimensionSelectorByType.get, cycleThroughAxis, hdims]
  | highestRangeAxis =>
    have hne' : item'.sampleIdsInSegment ≠ [] := by
      rw [← List.length_pos_iff, h.ids.length_eq, List.length_map]
      exact List.length_pos_iff.mpr hne
    obtain ⟨bounds, hbounds⟩ : ∃ bounds, Bounds.generate item.segment = .ok bounds :=
      exists_bounds hne
    obtain ⟨bounds', hbounds'⟩ : ∃ bounds, Bounds.generate item'.segment = .ok bounds :=
      exists_bounds hne'
    obtain rfl := h.bounds_eq (List.Subset.refl _) h.ids hbounds hbounds'
    obtain ⟨values, hvalues, hboundsOf⟩ := Fallible.bind_eq_ok_iff.mp hbounds
    obtain ⟨values', hvalues', hboundsOf'⟩ := Fallible.bind_eq_ok_iff.mp hbounds'
    obtain rfl : values = values' := by
      have hsame := Except.ok.inj (hboundsOf.trans hboundsOf'.symm)
      simp only [Bounds.mk.injEq, Point.mk.injEq] at hsame
      exact Prod.ext hsame.1 hsame.2
    simp only [DimensionSelectorByType.get, highestRangeAxis, hvalues, hvalues', hdims]

variable {std std' : StdAlgorithms K} {d : ℕ} {sws sws' : SplitWithSegments K}

/-- Sorting splits the two items in the same plane, with the same boxes, and corresponding
samples go to the same side. -/
theorem isSplit (h : item.Renumbered σ item') (hsplit : IsSplit std item.segment .median d sws)
    (hsplit' : IsSplit std' item'.segment .median d sws') (hne : item.sampleIdsInSegment ≠ [])
    (hd : d < item.samples.cols) (hdistinct : item.segment.Distinct) :
    sws.split.plane = sws'.split.plane ∧ sws'.lessIds.Perm (sws.lessIds.map σ) ∧
      sws'.greaterIds.Perm (sws.greaterIds.map σ) := by
  have hd' : d < item'.samples.cols := h.cols ▸ hd
  have hne' : item'.sampleIdsInSegment ≠ [] := by
    rw [← List.length_pos_iff, h.ids.length_eq, List.length_map]
    exact List.length_pos_iff.mpr hne
  have hdistinct' : item'.segment.Distinct := by
    intro e he
    have hcols : e < item.samples.cols := h.cols ▸ he
    exact (h.keys_perm hcols).nodup_iff.mpr (hdistinct e hcols)
  have hthreshold : sws.split.splitPoint.getValueAt d = sws'.split.splitPoint.getValueAt d := by
    have hmedian := hsplit.isMedian hne hd
    have hkeys : item'.segment.keys d ≠ [] := by
      rw [← List.length_pos_iff, Segment.keys_length]
      exact List.length_pos_iff.mpr hne'
    exact (hmedian.perm (h.keys_perm hd)).unique hkeys (hsplit'.isMedian hne' hd')
  obtain ⟨hless, hgreater⟩ :=
    hsplit.sides_eq_filter (Segment.distinct_iff.mp hdistinct d hd _)
  obtain ⟨hless', hgreater'⟩ :=
    hsplit'.sides_eq_filter (Segment.distinct_iff.mp hdistinct' d hd' _)
  -- a sample is on the same side under its old and its new number
  have hside (p : K → Bool) : (item'.sampleIdsInSegment.filter
      fun i => p (item'.samples.coeff i d)).Perm
        ((item.sampleIdsInSegment.filter fun i => p (item.samples.coeff i d)).map σ) := by
    apply (h.ids.filter _).trans
    rw [List.filter_map]
    apply List.Perm.of_eq
    congr 1
    apply List.filter_congr
    intro i hi
    rw [Function.comp_apply, h.coeff i hi d hd]
  have hlessPerm : sws'.lessIds.Perm (sws.lessIds.map σ) := by
    rw [hless, hless', ← hthreshold]
    exact hside fun x => decide (x ≤ sws.split.splitPoint.getValueAt d)
  have hgreaterPerm : sws'.greaterIds.Perm (sws.greaterIds.map σ) := by
    rw [hgreater, hgreater', ← hthreshold]
    exact hside fun x => decide (sws.split.splitPoint.getValueAt d < x)
  have hlessSub : sws.lessIds ⊆ item.sampleIdsInSegment := fun i hi =>
    hsplit.perm.subset (List.mem_append_left _ hi)
  have hgreaterSub : sws.greaterIds ⊆ item.sampleIdsInSegment := fun i hi =>
    hsplit.perm.subset (List.mem_append_right _ hi)
  refine ⟨?_, hlessPerm, hgreaterPerm⟩
  rw [Split.plane, Split.plane, Split.getSplitThreshold, Split.getSplitThreshold, hsplit.dimension,
    hsplit'.dimension, hthreshold, h.bounds_eq hlessSub hlessPerm hsplit.left hsplit'.left,
    h.bounds_eq hgreaterSub hgreaterPerm hsplit.right hsplit'.right]

omit [Field K] [LinearOrder K] in
/-- A part of the samples, under the new numbers. -/
theorem part (h : item.Renumbered σ item') {ids ids' : List ℕ}
    (hsub : ids ⊆ item.sampleIdsInSegment) (hids : ids'.Perm (ids.map σ)) (nodeId nodeId' d : ℕ) :
    Renumbered σ
      { item with sampleIdsInSegment := ids, nodeId := nodeId, lastDimensionUsedForSplitting := d }
      { item' with
        sampleIdsInSegment := ids', nodeId := nodeId', lastDimensionUsedForSplitting := d } where
  cols := h.cols
  coeff i hi := h.coeff i (hsub hi)
  ids := hids
  selector := h.selector
  method := h.method
  last := rfl

/-- A sample is as far from a query under its new number. -/
theorem sampleDistance_eq (h : item.Renumbered σ item') {k : ℕ}
    (hk : k ∈ item.sampleIdsInSegment) (query : Point K) :
    sampleDistance item'.samples query (σ k) = sampleDistance item.samples query k := by
  have hpoint : (Segment.ofSamples item'.samples).getPoint (σ k) =
      (Segment.ofSamples item.samples).getPoint k := by
    have hcoeff := h.coeff k hk
    simp only [Segment.getPoint, Segment.ofSamples, Segment.getNumDimensions, h.cols,
      Point.mk.injEq]
    exact List.map_congr_left fun j hj => hcoeff j (List.mem_range.mp hj)
  rw [sampleDistance, hpoint, sampleDistance]

end DataToBuildNodes.Renumbered

variable [IsStrictOrderedRing K]

/-- Trees over distinct samples that are built by sorting correspond under new numbers: they
have the same planes and boxes. -/
theorem BuiltFrom.corresponds {std std' : StdAlgorithms K} {σ : ℕ → ℕ}
    {item item' : DataToBuildNodes K} {t t' : SplitTree (Split K) ℕ} (h : BuiltFrom std item t)
    (h' : BuiltFrom std' item' t') (hnumbers : item.Renumbered σ item') (hvalid : item.Valid)
    (hmethod : item.splittingMethod = .median) (hdistinct : item.segment.Distinct) :
    t.Corresponds (fun split split' => split.plane = split'.plane) σ t' := by
  induction h generalizing item' t' with
  | @leaf item sampleId hid =>
    have hids := hnumbers.ids
    rw [hid, List.map_singleton, List.perm_singleton] at hids
    cases h' with
    | leaf hid' =>
      obtain rfl := List.singleton_inj.mp (hid'.symm.trans hids)
      exact .leaf sampleId
    | node hsplit' _ _ => exact absurd (congrArg List.length hids) hsplit'.length_ne_one
  | @node item d sws l r hsplit hl hr ihl ihr =>
    have hlength := hnumbers.ids.length_eq
    rw [List.length_map] at hlength
    cases h' with
    | leaf hid' =>
      exact absurd (hlength.symm.trans (congrArg List.length hid')) hsplit.length_ne_one
    | @node _ d' sws' l' r' hsplit' hl' hr' =>
      have hselected := hnumbers.selected_eq hvalid.ids_ne_nil
      obtain rfl : d = d' :=
        Except.ok.inj (hsplit.selected.symm.trans (hselected.symm.trans hsplit'.selected))
      have hisSplit := hsplit.isSplit
      have hisSplit' := hsplit'.isSplit
      have hperm := hisSplit.perm
      obtain ⟨hlessDistinct, hgreaterDistinct⟩ := hisSplit.distinct_sides hdistinct
      rw [hmethod] at hisSplit
      rw [hnumbers.method, hmethod] at hisSplit'
      obtain ⟨hplane, hless, hgreater⟩ := hnumbers.isSplit hisSplit hisSplit' hvalid.ids_ne_nil
        (hvalid.dimension_lt hsplit) hdistinct
      have hlessSub : sws.lessIds ⊆ item.sampleIdsInSegment := fun i hi =>
        hperm.subset (List.mem_append_left _ hi)
      have hgreaterSub : sws.greaterIds ⊆ item.sampleIdsInSegment := fun i hi =>
        hperm.subset (List.mem_append_right _ hi)
      refine .node hplane ?_ ?_
      · exact ihl hl' (hnumbers.part hlessSub hless _ _ d) (hvalid.lessChild hsplit) hmethod
          hlessDistinct
      · exact ihr hr' (hnumbers.part hgreaterSub hgreater _ _ d) (hvalid.greaterChild hsplit)
          hmethod hgreaterDistinct

section Lines

omit [LinearOrder K] [IsStrictOrderedRing K]

/-- What is known of samples that were loaded: each line was read as a row, and no row is
shorter than the number of columns. -/
theorem row_of_loadSamples {lines : List Text} {samples : Samples K}
    (h : loadSamples lines = .ok samples) :
    samples.rows = lines.length ∧
      (∃ line ∈ lines, ∃ row : List K, parseLine line = .ok row ∧ row.length = samples.cols) ∧
      ∀ i line, lines[i]? = some line → ∃ row : List K, parseLine line = .ok row ∧
        samples.cols ≤ row.length ∧ ∀ j, samples.coeff i j = row.getD j 0 := by
  obtain ⟨items, hitems, hne, -, hread, rfl⟩ := exists_rows_of_loadSamples h
  have hlength := Fallible.length_of_mapM hitems
  obtain ⟨first, rest, rfl⟩ := List.exists_cons_of_ne_nil hne
  refine ⟨hlength, ?_, fun i line hline => ?_⟩
  · have hpos : 0 < lines.length := hlength ▸ Nat.succ_pos _
    obtain ⟨row, hparse, hitem⟩ :=
      Fallible.getElem?_of_mapM hitems (List.getElem?_eq_getElem hpos)
    obtain rfl : first = row := Option.some.inj hitem
    exact ⟨lines[0], List.getElem_mem hpos, first, hparse, rfl⟩
  · obtain ⟨row, hparse, hitem⟩ := Fallible.getElem?_of_mapM hitems hline
    refine ⟨row, hparse, hread row (List.mem_of_getElem? hitem), fun j => ?_⟩
    simp only [Samples.ofRows, List.getD_eq_getElem?_getD, hitem, Option.getD_some]

/-- The same lines in another order have as many columns. -/
theorem cols_eq_of_perm {lines lines' : List Text} {samples samples' : Samples K}
    (hperm : lines'.Perm lines) (h : loadSamples lines = .ok samples)
    (h' : loadSamples lines' = .ok samples') : samples'.cols = samples.cols := by
  have hle {lines lines' : List Text} {samples samples' : Samples K} (hperm : lines'.Perm lines)
      (h : loadSamples lines = .ok samples) (h' : loadSamples lines' = .ok samples') :
      samples'.cols ≤ samples.cols := by
    obtain ⟨-, ⟨line, hline, row, hparse, hlength⟩, -⟩ := row_of_loadSamples h
    obtain ⟨-, -, hrows⟩ := row_of_loadSamples h'
    obtain ⟨i, hi⟩ := List.mem_iff_getElem?.mp (hperm.mem_iff.mpr hline)
    obtain ⟨row', hparse', hle, -⟩ := hrows i line hi
    obtain rfl := Except.ok.inj (hparse.symm.trans hparse')
    exact hle.trans_eq hlength
  exact (hle hperm h h').antisymm (hle hperm.symm h' h)

/-- If no two samples agree in a coefficient, no line occurs twice: the same text would be
read as the same row. -/
theorem nodup_of_loadSamples {lines : List Text} {samples : Samples K}
    (h : loadSamples lines = .ok samples) (hcols : 0 < samples.cols)
    (hdistinct : ∀ d < samples.cols, ∀ i < samples.rows, ∀ j < samples.rows,
      samples.coeff i d = samples.coeff j d → i = j) : lines.Nodup := by
  obtain ⟨hrows, -, hcoeff⟩ := row_of_loadSamples h
  rw [List.nodup_iff_getElem?_ne_getElem?]
  intro i j hij hj heq
  obtain ⟨row, hparse, -, hi⟩ := hcoeff i _ (heq.trans (List.getElem?_eq_getElem hj))
  obtain ⟨row', hparse', -, hj'⟩ := hcoeff j _ (List.getElem?_eq_getElem hj)
  obtain rfl := Except.ok.inj (hparse.symm.trans hparse')
  have := hdistinct 0 hcols i (by omega) j (by omega) ((hi 0).trans (hj' 0).symm)
  omega

/-- The places of the entries of a list without repetitions. -/
theorem map_idxOf_eq_range {α : Type*} [BEq α] [LawfulBEq α] {l : List α}
    (h : l.Nodup) : l.map l.idxOf = List.range l.length := by
  apply List.ext_getElem
  · rw [List.length_map, List.length_range]
  · intro i hi hi'
    rw [List.getElem_map, List.getElem_range, h.idxOf_getElem]

/-- If no two samples agree in a coefficient, every line of the file has its own number in
any other order of the lines. -/
theorem exists_renumbered {lines lines' : List Text} {samples samples' : Samples K}
    (hperm : lines'.Perm lines) (h : loadSamples lines = .ok samples)
    (h' : loadSamples lines' = .ok samples') (hcols : 0 < samples.cols)
    (hdistinct : ∀ d < samples.cols, ∀ i < samples.rows, ∀ j < samples.rows,
      samples.coeff i d = samples.coeff j d → i = j)
    (selector : DimensionSelectorType) (splittingMethod : SplittingMethod) :
    ∃ σ : ℕ → ℕ, (∀ i < samples.rows, lines'[σ i]? = lines[i]?) ∧
      (rootItem samples selector splittingMethod).Renumbered σ
        (rootItem samples' selector splittingMethod) := by
  obtain ⟨hrows, -, hcoeff⟩ := row_of_loadSamples h
  obtain ⟨hrows', -, hcoeff'⟩ := row_of_loadSamples h'
  have hnodup := nodup_of_loadSamples h hcols hdistinct
  let σ : ℕ → ℕ := fun i => lines'.idxOf (lines.getD i [])
  have hσ {i : ℕ} (hi : i < lines.length) : lines'[σ i]? = some lines[i] := by
    have hmem : lines[i] ∈ lines' := hperm.mem_iff.mpr (List.getElem_mem hi)
    simp only [σ, List.getD_eq_getElem?_getD, List.getElem?_eq_getElem hi, Option.getD_some]
    exact List.getElem?_idxOf hmem
  refine ⟨σ, fun i hi => ?_, cols_eq_of_perm hperm h h', ?_, ?_, rfl, rfl, rfl⟩
  · rw [hσ (hrows ▸ hi), List.getElem?_eq_getElem (hrows ▸ hi)]
  · intro i hi j _
    have hi' : i < lines.length := hrows ▸ List.mem_range.mp hi
    obtain ⟨row, hparse, -, hrow⟩ := hcoeff i _ (List.getElem?_eq_getElem hi')
    obtain ⟨row', hparse', -, hrow'⟩ := hcoeff' (σ i) _ (hσ hi')
    obtain rfl := Except.ok.inj (hparse.symm.trans hparse')
    exact (hrow' j).trans (hrow j).symm
  · have hplaces : (List.range samples.rows).map σ = lines.map lines'.idxOf := by
      apply List.ext_getElem
      · rw [List.length_map, List.length_map, List.length_range, hrows]
      · intro i _ hi
        have hi' : i < lines.length := by rwa [List.length_map] at hi
        simp only [List.getElem_map, List.getElem_range, σ, List.getD_eq_getElem?_getD,
          List.getElem?_eq_getElem hi', Option.getD_some]
    change (List.range samples'.rows).Perm ((List.range samples.rows).map σ)
    rw [hplaces, hrows', ← map_idxOf_eq_range (hperm.nodup_iff.mpr hnodup)]
    exact hperm.map _

end Lines

variable [FloorRing K]

/-- Branch and bound on the printed boxes of corresponding trees ends with the same sample. -/
theorem eq_of_visit_printed {σ : ℕ → ℕ} {samples samples' : Samples K}
    {t t' : SplitTree (Split K) ℕ} {query : Point K}
    (h : t.Corresponds (fun split split' => split.plane = split'.plane) σ t')
    (hdistance : ∀ k ∈ t.leaves,
      sampleDistance samples' query (σ k) = sampleDistance samples query k)
    {s s' : ℕ}
    (hs : (t.mapSplits Split.printed).visit (sampleDistance samples query)
      (fun split => split.getDistancesFromSplits query) none = some s)
    (hs' : (t'.mapSplits Split.printed).visit (sampleDistance samples' query)
      (fun split => split.getDistancesFromSplits query) none = some s') : s' = σ s := by
  have hprinted : (t.mapSplits Split.printed).Corresponds
      (fun split split' => split.plane = split'.plane) σ (t'.mapSplits Split.printed) :=
    h.mapSplits fun _ _ => Split.plane_printed_congr
  have hvisits : (t'.mapSplits Split.printed).visit (sampleDistance samples' query)
      (fun split => split.getDistancesFromSplits query) (Option.map σ none) =
        Option.map σ ((t.mapSplits Split.printed).visit (sampleDistance samples query)
          (fun split => split.getDistancesFromSplits query) none) := by
    apply hprinted.visit
    · intro split split' hplane
      exact (Split.getDistancesFromSplits_congr hplane query).symm
    · rwa [leaves_mapSplits]
    · simp
  rw [Option.map_none, hs, hs'] at hvisits
  exact Option.some.inj hvisits

/-- The order of the lines of a file of samples does not matter when no two samples agree in a
coefficient and the tree is built by sorting. From the lines in another order that loads, a
model file is written as well, by either builder. Every file of queries is answered with the same
distances, and with the samples of the same lines, whatever numbers they have. -/
theorem queryKDTree_rowOrder {std : StdAlgorithms K} (std' : StdAlgorithms K) (gzip : Gzip)
    (sqrt : K → K) {inputSampleDataset inputSampleDataset' : List Text}
    {samples samples' : Samples K}
    (hlines : inputSampleDataset'.Perm inputSampleDataset)
    (hsamples : loadSamples inputSampleDataset = .ok samples)
    (hsamples' : loadSamples inputSampleDataset' = .ok samples') (hcols : 0 < samples.cols)
    (hdistinct : ∀ d < samples.cols, ∀ i < samples.rows, ∀ j < samples.rows,
      samples.coeff i d = samples.coeff j d → i = j)
    {selector : DimensionSelectorType} {parallelExecution : Bool} (parallelExecution' : Bool)
    {modelFile : Text}
    (hbuild : BuildKDTree std gzip inputSampleDataset selector .median parallelExecution
      modelFile) :
    (∃ modelFile', BuildKDTree (K := K) std' gzip inputSampleDataset' selector .median
      parallelExecution' modelFile') ∧
    ∀ modelFile', BuildKDTree (K := K) std' gzip inputSampleDataset' selector .median
        parallelExecution' modelFile' →
      ∀ queriesFile (queries : Samples K), loadSamples queriesFile = .ok queries →
        queries.cols = samples.cols → ∃ found found' : ℕ → ℕ,
          (∀ i, found i < samples.rows ∧
            inputSampleDataset'[found' i]? = inputSampleDataset[found i]?) ∧
          ∃ rounds, ∀ fuel ≥ rounds,
            queryKDTree sqrt gzip fuel inputSampleDataset modelFile queriesFile =
              .ok ((List.range queries.rows).map fun i =>
                toStringInt (found i) ++ (",".toList ++ toStringDouble (sqrt
                  (sampleDistance samples ((Segment.ofSamples queries).getPoint i)
                    (found i))))) ∧
            queryKDTree sqrt gzip fuel inputSampleDataset' modelFile' queriesFile =
              .ok ((List.range queries.rows).map fun i =>
                toStringInt (found' i) ++ (",".toList ++ toStringDouble (sqrt
                  (sampleDistance samples ((Segment.ofSamples queries).getPoint i)
                    (found i))))) := by
  have hrows := rows_pos_of_loadSamples hsamples
  have hrows' := rows_pos_of_loadSamples hsamples'
  have hsame := cols_eq_of_perm hlines hsamples hsamples'
  obtain ⟨σ, hσ, hnumbers⟩ :=
    exists_renumbered hlines hsamples hsamples' hcols hdistinct selector .median
  have hvalid := rootItem_valid hrows hcols selector .median
  have hvalid' := rootItem_valid hrows' (hsame ▸ hcols) selector .median
  obtain ⟨t, ht, -⟩ := hvalid.exists_builtFrom std
  obtain ⟨t', ht', -⟩ := hvalid'.exists_builtFrom std'
  have hcorresponds := ht.corresponds ht' hnumbers hvalid rfl
    (distinct_rootItem hdistinct selector .median)
  have hcount : samples'.rows = samples.rows := by
    have hlength := hnumbers.ids.length_eq
    rwa [List.length_map, rootItem, rootItem, List.length_range, List.length_range] at hlength
  have hsmall : samples.rows < 2 ^ 29 :=
    (exists_buildKDTree_iff std gzip hsamples hcols selector .median parallelExecution).mp
      ⟨modelFile, hbuild⟩
  -- both trees fit: no coefficient is repeated, and the two are of one height
  have hrepeats : samples.RepeatsAtMost 1 :=
    Samples.repeatsAtMost_of_subset (fun _ i => [i]) (fun _ _ => le_rfl) fun d hd i hi k hk heq =>
      List.mem_singleton.mpr (hdistinct d hd k hk i hi heq)
  have hfits : FitsNodeArray std samples selector .median :=
    fitsNodeArray_of_repeatsAtMost std hrows hcols hsmall selector
      (.inr ⟨hrepeats.mono one_le_two, .inl rfl⟩)
  have hfits' : FitsNodeArray std' samples' selector .median := by
    rw [ht.fitsNodeArray_iff hrows] at hfits
    rw [ht'.fitsNodeArray_iff hrows', hcount, hcorresponds.height_eq]
    exact hfits
  constructor
  · exact (exists_buildKDTree_iff std' gzip hsamples' (hsame ▸ hcols) selector .median
      parallelExecution').mpr (hcount ▸ hsmall)
  · intro modelFile' hbuild' queriesFile queries hqueries hquery
    obtain ⟨numNodes, -, hload, hstored⟩ := hbuild.exists_stored hsamples hcols ht
    obtain ⟨hstored, hleaves⟩ := hstored hfits
    obtain ⟨numNodes', -, hload', hstored'⟩ :=
      hbuild'.exists_stored hsamples' (hsame ▸ hcols) ht'
    obtain ⟨hstored', hleaves'⟩ := hstored' hfits'
    obtain ⟨found, hvisit, hanswers⟩ :=
      queryKDTree_stored sqrt hsamples hqueries hquery hload hstored hleaves
    obtain ⟨found', hvisit', hanswers'⟩ := queryKDTree_stored sqrt hsamples' hqueries
      (hquery.trans hsame.symm) hload' hstored' hleaves'
    have hfound (i : ℕ) : found i < samples.rows :=
      hleaves _ ((mem_or_eq_of_visit (hvisit i)).resolve_right (by simp))
    have hdistance {k : ℕ} (hk : k < samples.rows) (query : Point K) :
        sampleDistance samples' query (σ k) = sampleDistance samples query k :=
      hnumbers.sampleDistance_eq (List.mem_range.mpr hk) query
    have hrenumbered (i : ℕ) : found' i = σ (found i) :=
      eq_of_visit_printed hcorresponds
        (fun k hk => hdistance (ht.mem_leaves_iff.mp hk) _) (hvisit i) (hvisit' i)
    refine ⟨found, found', fun i => ⟨hfound i, ?_⟩,
      max (2 * (t.mapSplits Split.printed).leaves.length)
        (2 * (t'.mapSplits Split.printed).leaves.length), fun fuel hfuel => ⟨?_, ?_⟩⟩
    · rw [hrenumbered i]
      exact hσ _ (hfound i)
    · exact hanswers fuel (by omega)
    · rw [hanswers' fuel (by omega)]
      congr 1
      apply List.map_congr_left
      intro i _
      simp only [hrenumbered i, hdistance (hfound i)]
      rfl

/-- Three lines and the same lines the other way round. -/
theorem queryKDTree_rowOrder_shortLines : ∃ modelFile modelFile',
    BuildKDTree (K := ℚ) .sorting .stored shortLines .highestRangeAxis .median false modelFile ∧
    BuildKDTree (K := ℚ) .turning .stored shortLines.reverse .highestRangeAxis .median true
      modelFile' ∧
    ∃ found found' : ℕ → ℕ,
      (∀ i, found i < 3 ∧ shortLines.reverse[found' i]? = shortLines[found i]?) ∧
      ∃ rounds, ∀ fuel ≥ rounds,
        queryKDTree (K := ℚ) id .stored fuel shortLines modelFile shortLines =
          .ok ((List.range 3).map fun i => toStringInt (found i) ++ (",".toList ++ toStringDouble
            (sampleDistance shortSamples ((Segment.ofSamples shortSamples).getPoint i)
              (found i)))) ∧
        queryKDTree (K := ℚ) id .stored fuel shortLines.reverse modelFile' shortLines =
          .ok ((List.range 3).map fun i => toStringInt (found' i) ++ (",".toList ++ toStringDouble
            (sampleDistance shortSamples ((Segment.ofSamples shortSamples).getPoint i)
              (found i)))) := by
  have hsamples' : loadSamples shortLines.reverse =
      .ok (Samples.ofRows [[3, 4], [-1 / 4, 2], [(1 / 2 : ℚ), 1]]) :=
    loadSamples_eq_ok (by decide +kernel) (by decide) (by decide) (by decide) (by decide)
  obtain ⟨-, modelFile, hbuild⟩ := exists_buildKDTree .sorting .stored loadSamples_shortLines
    (by decide) (by decide) .highestRangeAxis .median false
  obtain ⟨⟨modelFile', hbuild'⟩, hanswers⟩ := queryKDTree_rowOrder .turning .stored id
    shortLines.reverse_perm loadSamples_shortLines hsamples' (by decide) (by decide +kernel) true
    hbuild
  exact ⟨modelFile, modelFile', hbuild, hbuild',
    hanswers modelFile' hbuild' shortLines shortSamples loadSamples_shortLines rfl⟩

end Kdtree
