import Kdtree.RisingSamples
import Kdtree.TiedSamples

/-!
# Which samples outgrow the node array

A bound on the number of rows, and one on how often a coefficient is repeated in a column,
decide whether every tree over such samples fits into the array. Beyond these bounds there
are samples, and algorithms within the postconditions of the standard, whose tree is too
deep.
-/

namespace Kdtree

open SplitTree

variable {K : Type} [Field K] [LinearOrder K]

/-- Too many samples do not fit, since the number of slots overflows. -/
theorem FitsNodeArray.rows_lt {std : StdAlgorithms K} {samples : Samples K}
    {selector : DimensionSelectorType} {splittingMethod : SplittingMethod}
    (h : FitsNodeArray std samples selector splittingMethod) : samples.rows < 2 ^ 29 := by
  obtain ⟨capacity, hcapacity, -⟩ := h
  by_contra hge
  rw [getNumNodes_overflow (not_lt.mp hge)] at hcapacity
  cases hcapacity

variable [IsStrictOrderedRing K]

/-- Selection is not bounded as sorting is, not even where no two samples agree. For any
number of pairs from five on, there are that many pairs of different samples, and a
`std::nth_element` that meets its postcondition, such that selection nests more calls than
there are pairs and comes to a slot beyond those that are allocated, with either selector.
By sorting, the tree over the same samples fits, unless the number of slots overflows. -/
theorem medianOfMedian_overruns (K : Type) [Field K] [LinearOrder K] [IsStrictOrderedRing K]
    (k : ℕ) : ∃ (std : StdAlgorithms K) (samples : Samples K),
      samples.rows = 2 * (k + 5) ∧ samples.cols = 1 ∧
      (∀ i < samples.rows, ∀ j < samples.rows, samples.coeff i 0 = samples.coeff j 0 → i = j) ∧
      ∀ selector,
        (∀ kdtree, ∀ fuel ≤ k + 5, buildUsingRecursion std fuel
          (rootItem samples selector .medianOfMedian) (.start kdtree) = .error .outOfFuel) ∧
        (∀ kdtree, ∃ out : Build K,
          (∀ fuel ≥ samples.rows, buildUsingRecursion std fuel
            (rootItem samples selector .medianOfMedian) (.start kdtree) = .ok out) ∧
          ∃ node ∈ out.written, ∀ capacity, KDTree.getNumNodes samples.rows = .ok capacity →
            capacity ≤ node.getId) ∧
        (FitsNodeArray std samples selector .median ↔ samples.rows < 2 ^ 29) := by
  have hpos : 0 < 2 * (k + 5) := by omega
  refine ⟨.reversing, risingSamples K pairValue (2 * (k + 5)), rfl, rfl, ?_, fun selector => ?_⟩
  · intro i _ j _ heq
    exact pairValue_strictMono.injective (Nat.cast_injective heq)
  · obtain ⟨t, hrising, ht⟩ := exists_risingTree (K := K) pairValue hpos selector
    have hdeep := hrising.le_height_of_pairs (by omega)
    refine ⟨fun kdtree fuel hfuel => ?_, fun kdtree => ?_, ?_⟩
    · exact ht.buildUsingRecursion_outOfFuel (hfuel.trans hdeep) _
    · refine ⟨_, fun fuel hfuel => ht.buildUsingRecursion_start kdtree hfuel, ?_⟩
      obtain ⟨e, he, hslot⟩ := exists_slot_of_le_height 0 hdeep
      refine ⟨.ofEntry e, List.mem_map_of_mem he, fun capacity hcapacity => ?_⟩
      have hnumNodes : KDTree.getNumNodes (2 * (k + 5)) = .ok capacity := hcapacity
      have hsmall : 2 * (k + 5) < 2 ^ 29 := by
        by_contra hge
        cases hnumNodes.symm.trans (getNumNodes_overflow (not_lt.mp hge))
      obtain rfl := Except.ok.inj (hnumNodes.symm.trans (getNumNodes_eq hpos.ne' hsmall))
      have hlog : Nat.log2 (2 * (k + 5)) < k + 4 := by
        rw [Nat.log2_lt hpos.ne']
        have hpow : 2 ^ (k + 4) = 16 * 2 ^ k := by ring
        have hlt := Nat.lt_two_pow_self (n := k)
        omega
      have hslots : 2 ^ (Nat.log2 (2 * (k + 5)) + 2) ≤ 2 ^ (k + 5) :=
        Nat.pow_le_pow_right two_pos (by omega)
      rw [Node.getId_ofEntry]
      omega
    · refine ⟨FitsNodeArray.rows_lt, fun hsmall => ?_⟩
      have hrepeats := (repeatsAtMost_risingSamples (K := K) pairValue_strictMono
        (2 * (k + 5))).mono one_le_two
      exact fitsNodeArray_of_repeatsAtMost .reversing hpos Nat.one_pos hsmall selector
        (.inr ⟨hrepeats, .inl rfl⟩)

/-- On ten such samples, selection comes to a slot beyond the 31 that are allocated, and
sorting does not. -/
theorem medianOfMedian_overruns_tenSamples :
    ∃ (std : StdAlgorithms ℚ) (samples : Samples ℚ), samples.rows = 10 ∧ samples.cols = 1 ∧
      (∀ i < samples.rows, ∀ j < samples.rows, samples.coeff i 0 = samples.coeff j 0 → i = j) ∧
      ∀ selector,
        (∀ kdtree, ∃ out : Build ℚ,
          (∀ fuel ≥ 10, buildUsingRecursion std fuel (rootItem samples selector .medianOfMedian)
            (.start kdtree) = .ok out) ∧ ∃ node ∈ out.written, 31 ≤ node.getId) ∧
        FitsNodeArray std samples selector .median := by
  obtain ⟨std, samples, hrows, hcols, hdistinct, hselector⟩ := medianOfMedian_overruns ℚ 0
  refine ⟨std, samples, hrows, hcols, hdistinct, fun selector => ?_⟩
  obtain ⟨-, hbuilds, hfits⟩ := hselector selector
  refine ⟨fun kdtree => ?_, hfits.mpr (by omega)⟩
  obtain ⟨out, hout, node, hnode, hslot⟩ := hbuilds kdtree
  exact ⟨out, fun fuel hfuel => hout fuel (by omega), node, hnode, hslot 31 (by rw [hrows]; rfl)⟩

end Kdtree
