import Kdtree.SplitPoint
import Mathlib.Algebra.Order.Ring.Rat

/-!
# When selecting agrees with sorting

For an odd number of samples both splitting methods find the median. For an even
number the second selection runs over the whole vector, and may leave any value
of the upper half at the upper middle position. The two methods agree whatever
it does exactly when the upper half holds a single value.
-/

namespace Kdtree

open OrderStatistics

variable {K : Type} [Field K] [LinearOrder K]

/-- Sorting by insertion, and selection by sorting. -/
def StdAlgorithms.sorting : StdAlgorithms K where
  sort := List.insertionSort fun a b => a.value ≤ b.value
  nthElement := fun _ => List.insertionSort fun a b => a.value ≤ b.value
  sort_spec := isSorting_insertionSort ValueInSegment.value
  nthElement_spec := fun n l _ => (isSorting_insertionSort ValueInSegment.value l).isSelection n

/-- Sorting by insertion, and selections that put the largest value right after
the selected one, which the postcondition allows. -/
def StdAlgorithms.reversing : StdAlgorithms K where
  sort := List.insertionSort fun a b => a.value ≤ b.value
  nthElement := reverseAbove ValueInSegment.value
  sort_spec := isSorting_insertionSort ValueInSegment.value
  nthElement_spec := isSelection_reverseAbove ValueInSegment.value

/-- With an upper half of a single value, every threshold is the median. -/
theorem IsThreshold.isMedian {values : List K} {x : K} (h : IsThreshold values x)
    (hupper : (inOrder values)[values.length / 2]? = (inOrder values)[values.length - 1]?) :
    IsMedian values x := by
  refine ⟨h.odd, fun heven => ?_⟩
  obtain ⟨a, b, ha, hb, hup, hx⟩ := h.even heven
  refine ⟨a, b, ha, ⟨?_, hup⟩, hx⟩
  have hpos : 0 < values.length := List.length_pos_of_mem hb
  obtain ⟨y, hy⟩ : ∃ y, (inOrder values)[values.length / 2]? = some y :=
    ⟨_, List.getElem?_eq_getElem (by rw [inOrder_length]; omega)⟩
  have hrank := hasRank_inOrder hy
  -- the upper middle value is also the largest, so that `b` cannot exceed it
  have hby : b ≤ y := by
    obtain ⟨i, hi⟩ := List.mem_iff_getElem?.mp
      ((List.perm_insertionSort (· ≤ ·) values).mem_iff.mpr hb)
    have hlt : i < (inOrder values).length := (List.getElem?_eq_some_iff.mp hi).1
    rw [inOrder_length] at hlt
    exact inOrder_le (show i ≤ values.length - 1 by omega) hi (hupper ▸ hy)
  refine le_trans (List.countP_mono_left ?_) hrank.below
  intro z _ hz
  simp only [decide_eq_true_eq] at hz ⊢
  exact lt_of_lt_of_le hz hby

/-- When selection sorts as well, both methods find the median. -/
theorem sorting_isMedian {segment : Segment K} {d : ℕ} (splittingMethod : SplittingMethod)
    (hne : segment.sampleIdsInSegment ≠ []) (hd : d < segment.samples.cols) :
    ∃ p, getSplitPoint .sorting segment splittingMethod d = .ok p ∧
      IsMedian (segment.keys d) (p.getValueAt d) := by
  cases splittingMethod with
  | median => exact median_spec .sorting hne hd
  | medianOfMedian =>
    rcases Nat.mod_two_eq_zero_or_one segment.sampleIdsInSegment.length with heven | hodd
    · obtain ⟨p, lower, upper, out, hp, hout, hsel, hlower, hupper, hx⟩ :=
        medianOfMedian_even .sorting heven hne hd
      refine ⟨p, hp, fun h => ?_, fun _ => ?_⟩
      · rw [segment.keys_length] at h
        omega
      · have hsorted := isSorting_insertionSort ValueInSegment.value
          (StdAlgorithms.sorting.nthElement (segment.sampleIdsInSegment.length / 2)
            (segment.values d))
        have hsegment : IsSorting ValueInSegment.value (segment.values d) out :=
          ⟨hsel.perm, hout ▸ hsorted.sorted⟩
        rw [segment.keys_length]
        exact ⟨lower.value, upper.value, hasRank_of_isSelection hsel hlower,
          hasRank_of_isSelection (hsegment.isSelection _) hupper, hx⟩
    · exact medianOfMedian_odd .sorting hodd hd

omit [Field K] in
/-- What a reversing selection puts right after its position has the last rank. -/
theorem reversing_next_hasRank {segment : Segment K} {d n : ℕ} {l : List (ValueInSegment K)}
    (hperm : l.Perm (segment.values d)) (hn : n + 1 < l.length) {v : ValueInSegment K}
    (hv : (StdAlgorithms.reversing.nthElement n l)[n + 1]? = some v) :
    HasRank (segment.keys d) (l.length - 1) v.value := by
  have hsort := isSorting_insertionSort ValueInSegment.value l
  have hsegment : IsSorting ValueInSegment.value (segment.values d) _ :=
    ⟨hsort.perm.trans hperm, hsort.sorted⟩
  apply hasRank_of_isSelection (hsegment.isSelection _)
  rw [← getElem?_reverseAbove_next ValueInSegment.value hn]
  exact hv

/-- The reversing selections average the lower middle value with the largest value. -/
theorem reversing_threshold {segment : Segment K} {d : ℕ}
    (heven : segment.sampleIdsInSegment.length % 2 = 0) (hne : segment.sampleIdsInSegment ≠ [])
    (hd : d < segment.samples.cols) :
    ∃ p a b, getSplitPoint .reversing segment .medianOfMedian d = .ok p ∧
      HasRank (segment.keys d) (segment.sampleIdsInSegment.length / 2 - 1) a ∧
      HasRank (segment.keys d) (segment.sampleIdsInSegment.length - 1) b ∧
      p.getValueAt d = (a + b) / 2 := by
  obtain ⟨p, lower, upper, out, hp, hout, hsel, hlower, hupper, hx⟩ :=
    medianOfMedian_even .reversing heven hne hd
  have hpos := List.length_pos_iff.mpr hne
  refine ⟨p, lower.value, upper.value, hp, hasRank_of_isSelection hsel hlower, ?_, hx⟩
  have hperm := (StdAlgorithms.reversing.nthElement_spec (segment.sampleIdsInSegment.length / 2)
    (segment.values d) (by rw [segment.values_length]; omega)).perm
  have hlen := hperm.length_eq
  rw [segment.values_length] at hlen
  have hnext : segment.sampleIdsInSegment.length / 2 - 1 + 1 =
      segment.sampleIdsInSegment.length / 2 := by omega
  rw [← hlen]
  apply reversing_next_hasRank hperm (n := segment.sampleIdsInSegment.length / 2 - 1) (by omega)
  rw [hnext, ← hout]
  exact hupper

variable [IsStrictOrderedRing K]

/-- Whatever the selections do within their postcondition, the split point found
by selection has the same coefficient as the one found by sorting, namely the
median, if and only if the number of samples is odd or all values of the upper
half are equal. -/
theorem medianOfMedian_agrees_iff {segment : Segment K} {d : ℕ}
    (hne : segment.sampleIdsInSegment ≠ []) (hd : d < segment.samples.cols) :
    (∀ std : StdAlgorithms K, ∃ p q, getSplitPoint std segment .medianOfMedian d = .ok p ∧
      getSplitPoint std segment .median d = .ok q ∧ p.getValueAt d = q.getValueAt d ∧
      q.getValueAt d = medianValue (segment.keys d)) ↔
    segment.sampleIdsInSegment.length % 2 = 1 ∨
      (inOrder (segment.keys d))[segment.sampleIdsInSegment.length / 2]? =
        (inOrder (segment.keys d))[segment.sampleIdsInSegment.length - 1]? := by
  have hkeys : segment.keys d ≠ [] := by
    rw [← List.length_pos_iff, segment.keys_length]
    exact List.length_pos_iff.mpr hne
  constructor
  · intro hagree
    rcases Nat.mod_two_eq_zero_or_one segment.sampleIdsInSegment.length with heven | hodd
    · right
      obtain ⟨p, q, hp, hq, hpq, -⟩ := hagree .reversing
      obtain ⟨p', a, b, hp', ha, hb, hx⟩ := reversing_threshold heven hne hd
      obtain ⟨q', hq', hmedian⟩ := median_spec .reversing hne hd
      obtain rfl : p = p' := Except.ok.inj (hp.symm.trans hp')
      obtain rfl : q = q' := Except.ok.inj (hq.symm.trans hq')
      obtain ⟨a', c, ha', hc, hy⟩ := hmedian.even (by rwa [segment.keys_length])
      rw [segment.keys_length] at ha' hc
      rw [hx, hy, ha.unique ha'] at hpq
      have hbc : b = c := add_left_cancel ((div_left_inj' two_ne_zero).mp hpq)
      have hpos := List.length_pos_iff.mpr hne
      have hget {n : ℕ} {z : K} (hn : n < segment.sampleIdsInSegment.length)
          (hz : HasRank (segment.keys d) n z) : (inOrder (segment.keys d))[n]? = some z := by
        obtain ⟨y, hy⟩ : ∃ y, (inOrder (segment.keys d))[n]? = some y :=
          ⟨_, List.getElem?_eq_getElem (by rwa [inOrder_length, segment.keys_length])⟩
        rw [hy, (hasRank_inOrder hy).unique hz]
      rw [hget (by omega) hc, hget (by omega) hb, hbc]
    · exact .inl hodd
  · intro hcond std
    obtain ⟨q, hq, hmedian⟩ := median_spec std hne hd
    have hp : ∃ p, getSplitPoint std segment .medianOfMedian d = .ok p ∧
        IsMedian (segment.keys d) (p.getValueAt d) := by
      rcases hcond with hodd | hupper
      · exact medianOfMedian_odd std hodd hd
      · obtain ⟨p, hp, hthreshold⟩ := getSplitPoint_spec std .medianOfMedian hne hd
        refine ⟨p, hp, hthreshold.isMedian ?_⟩
        rwa [segment.keys_length]
    obtain ⟨p, hp, hmedian'⟩ := hp
    refine ⟨p, q, hp, hq, ?_, hmedian.eq_medianValue hkeys⟩
    rw [hmedian.eq_medianValue hkeys, hmedian'.eq_medianValue hkeys]

/-- Ten samples in one dimension, with the median value one repeated five times. -/
def tiedSamples : Samples ℚ where
  rows := 10
  cols := 1
  coeff := fun i _ => [1, 5, 5, 3, 2, 1, 0, 1, 1, 1].getD i 0

/-- On the ten samples the two methods may disagree: sorting finds the median
one, and selection a larger value. -/
theorem medianOfMedian_disagrees :
    ∃ p q, getSplitPoint .reversing (Segment.ofSamples tiedSamples) .medianOfMedian 0 = .ok p ∧
      getSplitPoint .reversing (Segment.ofSamples tiedSamples) .median 0 = .ok q ∧
      p.getValueAt 0 = 3 ∧ q.getValueAt 0 = 1 :=
  ⟨⟨[3]⟩, ⟨[1]⟩, by decide +kernel, by decide +kernel, by decide +kernel, by decide +kernel⟩

/-- On four samples with the values zero, one, five and five they agree, since the upper half
holds a single value. -/
theorem medianOfMedian_agrees_on_four :
    medianValue ((⟨tiedSamples, [6, 7, 1, 2]⟩ : Segment ℚ).keys 0) = 3 ∧
    ∀ std : StdAlgorithms ℚ, ∃ p q,
      getSplitPoint std ⟨tiedSamples, [6, 7, 1, 2]⟩ .medianOfMedian 0 = .ok p ∧
      getSplitPoint std ⟨tiedSamples, [6, 7, 1, 2]⟩ .median 0 = .ok q ∧
      p.getValueAt 0 = q.getValueAt 0 ∧
      q.getValueAt 0 = medianValue ((⟨tiedSamples, [6, 7, 1, 2]⟩ : Segment ℚ).keys 0) :=
  ⟨by decide +kernel,
    (medianOfMedian_agrees_iff (by decide) (by decide)).mpr (.inr (by decide +kernel))⟩

end Kdtree
