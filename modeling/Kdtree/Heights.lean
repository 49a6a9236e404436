import Kdtree.Capacity
import Kdtree.General.Balance

/-!
# How deep the builders go

With sorting, every side of a split keeps at most three quarters of the samples, so the
tree is never higher than logarithmic, whatever the ties; if no coefficient occurs more
than twice in a column, the tree is as low as a tree over so many samples can be. With
selection there is no such bound, not even for samples that never agree.
-/

namespace Kdtree

open SplitTree OrderStatistics

variable {K : Type}

/-- No two samples of a segment agree in any coefficient. -/
def Segment.Distinct (segment : Segment K) : Prop :=
  ∀ d < segment.samples.cols, (segment.keys d).Nodup

/-- The samples of the whole matrix are distinct when no two rows agree in a coefficient. -/
theorem distinct_rootItem {samples : Samples K}
    (hdistinct : ∀ d < samples.cols, ∀ i < samples.rows, ∀ j < samples.rows,
      samples.coeff i d = samples.coeff j d → i = j)
    (selector : DimensionSelectorType) (splittingMethod : SplittingMethod) :
    (rootItem samples selector splittingMethod).segment.Distinct := by
  intro d hd
  apply List.Nodup.map_on _ List.nodup_range
  intro i hi j hj
  exact hdistinct d hd i (List.mem_range.mp hi) j (List.mem_range.mp hj)

section Repeats

variable [LinearOrder K]

/-- In no column, a coefficient is that of more than `t` rows. -/
def Samples.RepeatsAtMost (samples : Samples K) (t : ℕ) : Prop :=
  ∀ d < samples.cols, ∀ i < samples.rows,
    (List.range samples.rows).countP (fun k => samples.coeff k d = samples.coeff i d) ≤ t

/-- In no dimension, a value is that of more than `t` samples of a segment. -/
def Segment.RepeatsAtMost (segment : Segment K) (t : ℕ) : Prop :=
  ∀ d < segment.samples.cols, ∀ x, (segment.keys d).countP (· = x) ≤ t

/-- A bound on the repetitions may be raised. -/
theorem Samples.RepeatsAtMost.mono {samples : Samples K} {t t' : ℕ} (h : samples.RepeatsAtMost t)
    (hle : t ≤ t') : samples.RepeatsAtMost t' := fun d hd i hi => (h d hd i hi).trans hle

/-- Values that occur at most once are pairwise different. -/
theorem Segment.distinct_iff {segment : Segment K} :
    segment.Distinct ↔ segment.RepeatsAtMost 1 := by
  refine forall₂_congr fun d _ => ?_
  rw [List.nodup_iff_count_le_one]
  refine forall_congr' fun x => ?_
  rw [List.count_eq_countP]
  exact Iff.rfl

/-- The repetitions in the whole matrix are those in the segment of all samples. -/
theorem Samples.RepeatsAtMost.rootItem {samples : Samples K} {t : ℕ} (h : samples.RepeatsAtMost t)
    (selector : DimensionSelectorType) (splittingMethod : SplittingMethod) :
    (rootItem samples selector splittingMethod).segment.RepeatsAtMost t := by
  intro d hd x
  have hcount : ((Kdtree.rootItem samples selector splittingMethod).segment.keys d).countP
      (· = x) = (List.range samples.rows).countP fun k => samples.coeff k d = x := by
    rw [Segment.keys, List.countP_map]
    rfl
  rw [hcount]
  by_cases hx : ∃ i < samples.rows, samples.coeff i d = x
  · obtain ⟨i, hi, rfl⟩ := hx
    exact h d hd i hi
  · have hzero : (List.range samples.rows).countP (fun k => samples.coeff k d = x) = 0 := by
      rw [List.countP_eq_zero]
      intro k hk heq
      exact hx ⟨k, List.mem_range.mp hk, of_decide_eq_true heq⟩
    rw [hzero]
    exact Nat.zero_le t

/-- If rows that agree with a row are among at most `t` rows, no coefficient is repeated
more often. -/
theorem Samples.repeatsAtMost_of_subset {samples : Samples K} {t : ℕ} (rows : ℕ → ℕ → List ℕ)
    (hlength : ∀ d i, (rows d i).length ≤ t)
    (hsubset : ∀ d < samples.cols, ∀ i < samples.rows, ∀ k < samples.rows,
      samples.coeff k d = samples.coeff i d → k ∈ rows d i) : samples.RepeatsAtMost t := by
  intro d hd i hi
  have hnodup : ((List.range samples.rows).filter fun k =>
      samples.coeff k d = samples.coeff i d).Nodup := List.nodup_range.filter _
  rw [List.countP_eq_length_filter]
  refine (hnodup.subperm fun k hk => ?_).length_le.trans (hlength d i)
  obtain ⟨hrange, heq⟩ := List.mem_filter.mp hk
  exact hsubset d hd i hi k (List.mem_range.mp hrange) (of_decide_eq_true heq)

variable [Field K]

/-- A side of a split repeats a value at most as often as the segment. -/
theorem IsSplit.repeatsAtMost_sides {std : StdAlgorithms K} {segment : Segment K} {d t : ℕ}
    {splittingMethod : SplittingMethod} {sws : SplitWithSegments K}
    (h : IsSplit std segment splittingMethod d sws) (hrepeats : segment.RepeatsAtMost t) :
    (⟨segment.samples, sws.lessIds⟩ : Segment K).RepeatsAtMost t ∧
      (⟨segment.samples, sws.greaterIds⟩ : Segment K).RepeatsAtMost t := by
  -- the keys of the two sides are the keys of the segment
  have hkeys : ∀ e < segment.samples.cols, ∀ x,
      (sws.lessIds.map fun i => segment.samples.coeff i e).countP (· = x) +
        (sws.greaterIds.map fun i => segment.samples.coeff i e).countP (· = x) ≤ t := by
    intro e he x
    rw [← List.countP_append, ← List.map_append, (h.perm.map _).countP_eq]
    exact hrepeats e he x
  constructor
  · intro e he x
    exact (Nat.le_add_right _ _).trans (hkeys e he x)
  · intro e he x
    exact (Nat.le_add_left _ _).trans (hkeys e he x)

/-- The sides of a split of distinct samples hold distinct samples. -/
theorem IsSplit.distinct_sides {std : StdAlgorithms K} {segment : Segment K} {d : ℕ}
    {splittingMethod : SplittingMethod} {sws : SplitWithSegments K}
    (h : IsSplit std segment splittingMethod d sws) (hdistinct : segment.Distinct) :
    (⟨segment.samples, sws.lessIds⟩ : Segment K).Distinct ∧
      (⟨segment.samples, sws.greaterIds⟩ : Segment K).Distinct :=
  (h.repeatsAtMost_sides (Segment.distinct_iff.mp hdistinct)).imp Segment.distinct_iff.mpr
    Segment.distinct_iff.mpr

end Repeats

variable [Field K] [LinearOrder K] [IsStrictOrderedRing K]

/-- Each side of a split by sorting keeps at most three quarters of the samples, one of
them not counted. -/
theorem BuiltFrom.shrinks {std : StdAlgorithms K} {item : DataToBuildNodes K}
    {t : SplitTree (Split K) ℕ} (h : BuiltFrom std item t) (hvalid : item.Valid)
    (hmethod : item.splittingMethod = .median) : t.ForallNodes (Shrinks 3 4) := by
  induction h with
  | leaf hid => trivial
  | @node item d sws l r hsplit hl hr ihl ihr =>
    refine ⟨?_, ihl (hvalid.lessChild hsplit) hmethod, ihr (hvalid.greaterChild hsplit) hmethod⟩
    have hlen := hvalid.two_le_length hsplit.length_ne_one
    have hisSplit := hsplit.isSplit
    have hperm := hisSplit.perm.length_eq
    have hless := hisSplit.less_length
    have hgreater := hisSplit.greater_length
    rw [hmethod] at hisSplit
    have hmedian := hisSplit.isMedian hvalid.ids_ne_nil (hvalid.dimension_lt hsplit)
    obtain ⟨hlessSize, hgreaterSize⟩ := hmedian.sizes (by rwa [Segment.keys_length])
    rw [Segment.keys_length] at hlessSize hgreaterSize
    rw [List.length_append] at hperm
    have hl' := hl.leaves_perm.length_eq
    have hr' := hr.leaves_perm.length_eq
    simp only [DataToBuildNodes.lessChild, DataToBuildNodes.greaterChild,
      DataToBuildNodes.segment] at *
    unfold Shrinks
    omega

/-- If no value occurs more than twice, sorting halves the samples of an item, and so does
selection if their number is odd. -/
theorem SplitsAt.halves {std : StdAlgorithms K} {item : DataToBuildNodes K} {d : ℕ}
    {sws : SplitWithSegments K} (hsplit : SplitsAt std item d sws) (hvalid : item.Valid)
    (hrepeats : item.segment.RepeatsAtMost 2)
    (hmethod : item.splittingMethod = .median ∨ item.sampleIdsInSegment.length % 2 = 1) :
    sws.lessIds.length ≤ sws.greaterIds.length + 1 ∧
      sws.greaterIds.length ≤ sws.lessIds.length + 1 := by
  have hisSplit := hsplit.isSplit
  have hd := hvalid.dimension_lt hsplit
  have htie := hrepeats d hd (sws.split.splitPoint.getValueAt d)
  rw [hisSplit.less_length, hisSplit.greater_length]
  rcases hmethod with hmedian | hodd
  · rw [hmedian] at hisSplit
    refine (hisSplit.isMedian hvalid.ids_ne_nil hd).sizes_of_tie htie ?_
    rw [Segment.keys_length]
    exact List.length_pos_iff.mpr hvalid.ids_ne_nil
  · have hkeys : (item.segment.keys d).length % 2 = 1 := by
      rw [Segment.keys_length]
      exact hodd
    exact sizes_of_hasRank_of_tie ((hisSplit.isThreshold hvalid.ids_ne_nil hd).odd hkeys) hkeys htie

/-- If no value occurs more than twice, sorting halves the samples everywhere. -/
theorem BuiltFrom.halves {std : StdAlgorithms K} {item : DataToBuildNodes K}
    {t : SplitTree (Split K) ℕ} (h : BuiltFrom std item t) (hvalid : item.Valid)
    (hmethod : item.splittingMethod = .median) (hrepeats : item.segment.RepeatsAtMost 2) :
    t.ForallNodes Halves := by
  induction h with
  | leaf hid => trivial
  | @node item d sws l r hsplit hl hr ihl ihr =>
    obtain ⟨hless, hgreater⟩ := hsplit.isSplit.repeatsAtMost_sides hrepeats
    refine ⟨?_, ihl (hvalid.lessChild hsplit) hmethod hless,
      ihr (hvalid.greaterChild hsplit) hmethod hgreater⟩
    rw [Halves, hl.leaves_perm.length_eq, hr.leaves_perm.length_eq]
    exact hsplit.halves hvalid hrepeats (.inl hmethod)

/-- If no value occurs more than twice, the tree that sorting builds is as low as a tree over
so many samples can be. -/
theorem BuiltFrom.height_eq_clog {std : StdAlgorithms K} {item : DataToBuildNodes K}
    {t : SplitTree (Split K) ℕ} (h : BuiltFrom std item t) (hvalid : item.Valid)
    (hmethod : item.splittingMethod = .median) (hrepeats : item.segment.RepeatsAtMost 2) :
    t.height = Nat.clog 2 item.sampleIdsInSegment.length := by
  rw [height_eq_clog_of_halves (h.halves hvalid hmethod hrepeats), h.leaves_perm.length_eq]

/-- With sorting, the recursion is at most logarithmically deep, whatever the ties: when `k`
times three quarters leave less than one of `m - 1` samples, `k + 1` nested calls are
enough, and no node lies more than `k` levels below the root. -/
theorem buildUsingRecursion_depth (std : StdAlgorithms K) {item : DataToBuildNodes K}
    (hvalid : item.Valid) (hmethod : item.splittingMethod = .median) {k : ℕ}
    (hk : 3 ^ k * (item.sampleIdsInSegment.length - 1) < 4 ^ k) (kdtree : KDTree K) :
    ∃ out : Build K,
      (∀ fuel > k, buildUsingRecursion std fuel item (.start kdtree) = .ok out) ∧
      out.written.length = 2 * item.sampleIdsInSegment.length - 1 ∧
      ∀ node ∈ out.written, node.getId + 2 ≤ (item.nodeId + 2) * 2 ^ k := by
  obtain ⟨t, ht, -⟩ := hvalid.exists_builtFrom std
  have hleaves := ht.leaves_perm.length_eq
  have hheight : t.height ≤ k := by
    apply height_le_of_shrinks (ht.shrinks hvalid hmethod)
    rwa [hleaves]
  refine ⟨(Build.start kdtree).write (layout item.nodeId t), ?_, ?_, ?_⟩
  · intro fuel hfuel
    exact ht.buildUsingRecursion_eq (by omega) (.start kdtree)
  · change (layout item.nodeId t).length = _
    rw [layout, List.length_map, entries_length, hleaves]
  · intro node hnode
    obtain ⟨e, he, rfl⟩ := List.mem_map.mp hnode
    rw [Node.getId_ofEntry]
    exact slot_le_of_height_le hheight he

/-- For the three samples on a diagonal, four nested calls are enough. -/
theorem buildUsingRecursion_depth_diagonal :
    ∃ out : Build ℚ,
      (∀ fuel > 3, buildUsingRecursion .sorting fuel
        (rootItem diagonalSamples .highestRangeAxis .median) (.start (.create 7)) = .ok out) ∧
      out.written.length = 5 ∧ ∀ node ∈ out.written, node.getId + 2 ≤ (0 + 2) * 2 ^ 3 :=
  buildUsingRecursion_depth .sorting
    (rootItem_valid diagonalSamples_pos.1 diagonalSamples_pos.2 .highestRangeAxis .median) rfl
    (by decide) (.create 7)

omit [IsStrictOrderedRing K] in
/-- The recursive builder does not return within as many nested calls as its tree is high. -/
theorem BuiltFrom.buildUsingRecursion_outOfFuel {std : StdAlgorithms K}
    {item : DataToBuildNodes K} {t : SplitTree (Split K) ℕ} (h : BuiltFrom std item t) {fuel : ℕ}
    (hfuel : fuel ≤ t.height) (build : Build K) :
    buildUsingRecursion std fuel item build = .error .outOfFuel := by
  induction h generalizing fuel build with
  | leaf hid =>
    obtain rfl : fuel = 0 := Nat.le_zero.mp hfuel
    rfl
  | @node item d sws l r hsplit hl hr ihl ihr =>
    cases fuel with
    | zero => rfl
    | succ fuel =>
      rw [buildUsingRecursion_node std fuel hsplit]
      rw [height] at hfuel
      by_cases hleft : fuel ≤ l.height
      · rw [ihl hleft]
        rfl
      · rw [hl.buildUsingRecursion_eq (by omega), Except.bind]
        exact ihr (by omega) _

/-- If no value occurs more than twice in a dimension, sorting nests exactly as many calls
as halving takes to come down to single samples, and one for the leaf. -/
theorem buildUsingRecursion_minimal_depth (std : StdAlgorithms K) {item : DataToBuildNodes K}
    (hvalid : item.Valid) (hmethod : item.splittingMethod = .median)
    (hrepeats : item.segment.RepeatsAtMost 2) (kdtree : KDTree K) :
    (∃ out : Build K, ∀ fuel > Nat.clog 2 item.sampleIdsInSegment.length,
      buildUsingRecursion std fuel item (.start kdtree) = .ok out) ∧
    ∀ fuel ≤ Nat.clog 2 item.sampleIdsInSegment.length,
      buildUsingRecursion std fuel item (.start kdtree) = .error .outOfFuel := by
  obtain ⟨t, ht, -⟩ := hvalid.exists_builtFrom std
  have hheight := ht.height_eq_clog hvalid hmethod hrepeats
  refine ⟨⟨_, fun fuel hfuel => ht.buildUsingRecursion_eq (by omega) (.start kdtree)⟩, ?_⟩
  intro fuel hfuel
  exact ht.buildUsingRecursion_outOfFuel (by omega) (.start kdtree)

/-- For the three samples on a diagonal, three nested calls are needed and enough. -/
theorem buildUsingRecursion_minimal_depth_diagonal :
    (∃ out : Build ℚ, ∀ fuel > Nat.clog 2 3, buildUsingRecursion .sorting fuel
      (rootItem diagonalSamples .highestRangeAxis .median) (.start (.create 7)) = .ok out) ∧
    ∀ fuel ≤ Nat.clog 2 3, buildUsingRecursion .sorting fuel
      (rootItem diagonalSamples .highestRangeAxis .median) (.start (.create 7)) =
        .error .outOfFuel := by
  have hrepeats : diagonalSamples.RepeatsAtMost 2 := by
    unfold Samples.RepeatsAtMost
    decide +kernel
  exact buildUsingRecursion_minimal_depth .sorting
    (rootItem_valid diagonalSamples_pos.1 diagonalSamples_pos.2 .highestRangeAxis .median) rfl
    (hrepeats.rootItem .highestRangeAxis .median) (.create 7)

/-- Five samples of which no value occurs more than twice are three levels deep at most. -/
theorem BuiltFrom.height_le_three {std : StdAlgorithms K} {item : DataToBuildNodes K}
    {t : SplitTree (Split K) ℕ} (h : BuiltFrom std item t) (hvalid : item.Valid)
    (hrepeats : item.segment.RepeatsAtMost 2) (hlength : item.sampleIdsInSegment.length ≤ 5) :
    t.height ≤ 3 := by
  have hheight := t.height_lt_leaves_length
  rw [h.leaves_perm.length_eq] at hheight
  rcases hlength.lt_or_eq with hfew | hfive
  · omega
  · cases h with
    | leaf hid =>
      rw [height]
      omega
    | @node _ d sws l r hsplit hl hr =>
      have hsides := hsplit.halves hvalid hrepeats (.inr (by rw [hfive]))
      have hlengths := hsplit.sides_length
      have hlheight := l.height_lt_leaves_length
      have hrheight := r.height_lt_leaves_length
      rw [hl.leaves_perm.length_eq] at hlheight
      rw [hr.leaves_perm.length_eq] at hrheight
      simp only [DataToBuildNodes.lessChild, DataToBuildNodes.greaterChild] at hlheight hrheight
      rw [height]
      omega

/-- What is enough to know of the samples, so that the tree is not deeper than the array:
that there are at most four of them, or that no value occurs more than twice and either the
method is sorting or their number is five or nine. -/
theorem BuiltFrom.height_le_log {std : StdAlgorithms K} {item : DataToBuildNodes K}
    {t : SplitTree (Split K) ℕ} (h : BuiltFrom std item t) (hvalid : item.Valid) {n : ℕ}
    (hn : item.sampleIdsInSegment.length = n)
    (hcond : n ≤ 4 ∨ item.segment.RepeatsAtMost 2 ∧
      (item.splittingMethod = .median ∨ n = 5 ∨ n = 9)) : t.height ≤ Nat.log2 n + 1 := by
  have hpos : 0 < n := hn ▸ List.length_pos_iff.mpr hvalid.ids_ne_nil
  rcases hcond with hfew | ⟨hrepeats, hmedian | rfl | rfl⟩
  · have hheight := t.height_lt_leaves_length
    rw [h.leaves_perm.length_eq, hn] at hheight
    have hlog : ∀ n ≤ 4, 0 < n → n ≤ Nat.log2 n + 2 := by decide
    have := hlog n hfew hpos
    omega
  · rw [h.height_eq_clog hvalid hmedian hrepeats, hn, Nat.log2_eq_log_two]
    exact Nat.clog_le_of_le_pow (Nat.lt_pow_succ_log_self (by decide) _).le
  · exact h.height_le_three hvalid hrepeats hn.le
  · cases h with
    | leaf hid =>
      rw [hid] at hn
      cases hn
    | @node _ d sws l r hsplit hl hr =>
      obtain ⟨hlessRepeats, hgreaterRepeats⟩ := hsplit.isSplit.repeatsAtMost_sides hrepeats
      have hsides := hsplit.halves hvalid hrepeats (.inr (by rw [hn]))
      have hlengths := hsplit.sides_length
      rw [hn] at hlengths
      have hl' := hl.height_le_three (hvalid.lessChild hsplit) hlessRepeats
        (by rw [DataToBuildNodes.lessChild]; dsimp only; omega)
      have hr' := hr.height_le_three (hvalid.greaterChild hsplit) hgreaterRepeats
        (by rw [DataToBuildNodes.greaterChild]; dsimp only; omega)
      have hlog : Nat.log2 9 = 3 := by decide
      rw [height, hlog]
      omega

/-- What is enough to know of the samples, so that their tree fits into the array. -/
theorem fitsNodeArray_of_repeatsAtMost (std : StdAlgorithms K) {samples : Samples K}
    (hrows : 0 < samples.rows) (hcols : 0 < samples.cols) (hsmall : samples.rows < 2 ^ 29)
    (selector : DimensionSelectorType) {splittingMethod : SplittingMethod}
    (hcond : samples.rows ≤ 4 ∨ samples.RepeatsAtMost 2 ∧
      (splittingMethod = .median ∨ samples.rows = 5 ∨ samples.rows = 9)) :
    FitsNodeArray std samples selector splittingMethod := by
  have hvalid := rootItem_valid hrows hcols selector splittingMethod
  obtain ⟨t, ht, -⟩ := hvalid.exists_builtFrom std
  refine (ht.fitsNodeArray_iff hrows).mpr ⟨hsmall, ht.height_le_log hvalid List.length_range ?_⟩
  exact hcond.imp id (And.imp_left fun h => h.rootItem selector splittingMethod)

end Kdtree
