import Kdtree.Dealing
import Mathlib.Algebra.Order.Field.Basic

/-!
# How evenly a segment is split

The sizes of the two sides follow from the number of samples, from where the
threshold falls among the values, and from the alternation on ties. A median
leaves about a quarter of the samples on each side in the worst case and half of
them when the values are pairwise different; any threshold leaves at least one.
-/

namespace Kdtree

open OrderStatistics SplitSegments

variable {K : Type} [LinearOrder K]

/-- The number of samples on the less side of a threshold. -/
def lessSize (values : List K) (x : K) : ℕ :=
  values.countP (· < x) + (values.countP (· = x) + 1) / 2

/-- The number of samples on the greater side of a threshold. -/
def greaterSize (values : List K) (x : K) : ℕ :=
  values.countP (x < ·) + values.countP (· = x) / 2

/-- A threshold of rank `k` leaves at least half of the `k + 1` lowest values on
the less side, and half of the values from position `k` on the greater side. -/
theorem sizes_of_hasRank {values : List K} {k : ℕ} {x : K} (h : HasRank values k x) :
    (k + 2) / 2 ≤ lessSize values x ∧ (values.length - k) / 2 ≤ greaterSize values x := by
  have := countP_lt_add_eq_add_gt values x
  have := h.middle_counts
  unfold lessSize greaterSize
  omega

/-- The middle value of an odd number of values halves the samples, up to an odd
one, if it occurs at most twice. -/
theorem sizes_of_hasRank_of_tie {values : List K} {x : K} (h : HasRank values (values.length / 2) x)
    (hodd : values.length % 2 = 1) (htie : values.countP (· = x) ≤ 2) :
    lessSize values x ≤ greaterSize values x + 1 ∧
      greaterSize values x ≤ lessSize values x + 1 := by
  have hsum := countP_lt_add_eq_add_gt values x
  have hcounts := h.middle_counts
  unfold lessSize greaterSize
  omega

variable [Field K] [IsStrictOrderedRing K]

/-- The mean of two different values lies strictly between them, so that no
sample of lower rank is on it or above it. -/
theorem mean_countP {values : List K} {k : ℕ} {a b : K} (ha : HasRank values k a) (hab : a < b) :
    k < values.countP (· < (a + b) / 2) :=
  ha.lt_countP_of_lt (left_lt_add_div_two.mpr hab)

/-- A median of an even number of values either separates the two halves without
a tie, or is itself both of the middle values. -/
theorem IsMedian.even_cases {values : List K} {x : K} (h : IsMedian values x)
    (heven : values.length % 2 = 0) (hpos : 0 < values.length) :
    (values.countP (· < x) = values.length / 2 ∧ values.countP (· = x) = 0) ∨
      (HasRank values (values.length / 2 - 1) x ∧ HasRank values (values.length / 2) x) := by
  obtain ⟨a, b, ha, hb, rfl⟩ := h.even heven
  rcases (ha.le hb (Nat.sub_le _ _)).lt_or_eq with hab | rfl
  · left
    have hlow := mean_countP ha hab
    have hhigh := hb.countP_le_of_lt (add_div_two_lt_right.mpr hab)
    omega
  · right
    rw [add_self_div_two]
    exact ⟨ha, hb⟩

/-- A median leaves at least `⌊(⌊n / 2⌋ + 1) / 2⌋` samples on each side, whatever the ties. -/
theorem IsMedian.sizes {values : List K} {x : K} (h : IsMedian values x)
    (hlen : 2 ≤ values.length) :
    (values.length / 2 + 1) / 2 ≤ lessSize values x ∧
      (values.length / 2 + 1) / 2 ≤ greaterSize values x := by
  rcases Nat.mod_two_eq_zero_or_one values.length with heven | hodd
  · rcases h.even_cases heven (by omega) with ⟨hbelow, htie⟩ | ⟨hlow, hhigh⟩
    · have := countP_lt_add_eq_add_gt values x
      unfold lessSize greaterSize
      omega
    · have := sizes_of_hasRank hlow
      have := sizes_of_hasRank hhigh
      omega
  · have := sizes_of_hasRank (h.odd hodd)
    omega

/-- With pairwise different values, a median puts the odd sample on the less side
and halves the others. -/
theorem IsMedian.sizes_of_nodup {values : List K} {x : K} (h : IsMedian values x)
    (hnodup : values.Nodup) (hlen : 2 ≤ values.length) :
    lessSize values x = (values.length + 1) / 2 ∧ greaterSize values x = values.length / 2 := by
  have hsum := countP_lt_add_eq_add_gt values x
  have htie : values.countP (· = x) ≤ 1 := by
    have hcount : values.countP (· = x) = values.count x := by
      rw [List.count_eq_countP]
      congr 1
    rw [hcount]
    exact List.nodup_iff_count_le_one.mp hnodup x
  unfold lessSize greaterSize
  rcases Nat.mod_two_eq_zero_or_one values.length with heven | hodd
  · rcases h.even_cases heven (by omega) with ⟨hbelow, htie⟩ | ⟨hlow, hhigh⟩
    · omega
    · have := hlow.middle_counts
      have := hhigh.middle_counts
      omega
  · have := (h.odd hodd).middle_counts
    omega

/-- A median halves the samples, up to an odd one, if it occurs at most twice. -/
theorem IsMedian.sizes_of_tie {values : List K} {x : K} (h : IsMedian values x)
    (htie : values.countP (· = x) ≤ 2) (hpos : 0 < values.length) :
    lessSize values x ≤ greaterSize values x + 1 ∧
      greaterSize values x ≤ lessSize values x + 1 := by
  rcases Nat.mod_two_eq_zero_or_one values.length with heven | hodd
  · have hsum := countP_lt_add_eq_add_gt values x
    rcases h.even_cases heven hpos with ⟨hbelow, hnone⟩ | ⟨hlow, hhigh⟩
    · unfold lessSize greaterSize
      omega
    · have hlowCounts := hlow.middle_counts
      have hhighCounts := hhigh.middle_counts
      unfold lessSize greaterSize
      omega
  · exact sizes_of_hasRank_of_tie (h.odd hodd) hodd htie

/-- At least half of the values do not lie above a threshold. -/
theorem IsThreshold.half_lt_countP {values : List K} {x : K} (h : IsThreshold values x)
    (hpos : 0 < values.length) : (values.length - 1) / 2 < values.countP (· ≤ x) := by
  rcases Nat.mod_two_eq_zero_or_one values.length with heven | hodd
  · obtain ⟨a, b, ha, hb, hup, rfl⟩ := h.even heven
    have hab : a ≤ b := ha.le_of_lt_countP (by omega)
    have hindex : (values.length - 1) / 2 = values.length / 2 - 1 := by omega
    rw [hindex]
    refine ha.upTo.trans_le (List.countP_mono_left fun y _ hy => ?_)
    rw [decide_eq_true_eq] at hy ⊢
    linarith
  · have hindex : (values.length - 1) / 2 = values.length / 2 := by omega
    rw [hindex]
    exact (h.odd hodd).upTo

/-- Any threshold leaves at least one of two or more samples on each side. -/
theorem IsThreshold.sizes_pos {values : List K} {x : K} (h : IsThreshold values x)
    (hlen : 2 ≤ values.length) : 0 < lessSize values x ∧ 0 < greaterSize values x := by
  rcases Nat.mod_two_eq_zero_or_one values.length with heven | hodd
  · obtain ⟨a, b, ha, hb, hup, rfl⟩ := h.even heven
    have hab : a ≤ b := ha.le_of_lt_countP (by omega)
    rcases hab.lt_or_eq with hab | rfl
    · have hlow := mean_countP ha hab
      have hhigh : 0 < values.countP ((a + b) / 2 < ·) := by
        apply List.countP_pos_iff.mpr
        exact ⟨b, hb, by simpa using add_div_two_lt_right.mpr hab⟩
      unfold lessSize greaterSize
      omega
    · have := sizes_of_hasRank ha
      rw [add_self_div_two]
      omega
  · have := sizes_of_hasRank (h.odd hodd)
    omega

end Kdtree
