import Mathlib.Algebra.BigOperators.Group.Finset.Basic
import Mathlib.Algebra.Order.BigOperators.Group.Finset
import Mathlib.Algebra.Order.Chebyshev
import Mathlib.Analysis.Real.Sqrt

/-!
# Distances to intervals and boxes

The gap between a number and an interval, and the sum of the squared gaps over
several dimensions. A point that lies in a box up to an error is at least as far
away as the box, up to an error in the norm; this assumes nothing about the order
of an interval's ends. When they are in order, the gap is attained.
-/

namespace Boxes

section Gap

variable {K : Type*} [Field K] [LinearOrder K] [IsStrictOrderedRing K]

/-- The distance from a number to the interval from `lo` to `hi`. -/
def gap (lo hi q : K) : K := if q < lo then lo - q else if hi < q then q - hi else 0

/-- Gaps are never negative. -/
theorem gap_nonneg (lo hi q : K) : 0 ≤ gap lo hi q := by
  unfold gap
  split_ifs with hlo hhi
  · exact sub_nonneg.mpr hlo.le
  · exact sub_nonneg.mpr hhi.le
  · exact le_rfl

/-- A number in the interval up to an error is at least as far away, up to that error. -/
theorem gap_le_abs_sub_add {lo hi x q δ : K} (hδ : 0 ≤ δ) (hlo : lo - δ ≤ x) (hhi : x ≤ hi + δ) :
    gap lo hi q ≤ |x - q| + δ := by
  unfold gap
  split_ifs
  · have := le_abs_self (x - q)
    linarith
  · have := neg_abs_le (x - q)
    linarith
  · exact add_nonneg (abs_nonneg _) hδ

/-- A number in the interval is at least as far away. -/
theorem gap_sq_le {lo hi x q : K} (hlo : lo ≤ x) (hhi : x ≤ hi) :
    gap lo hi q ^ 2 ≤ (x - q) ^ 2 := by
  have hgap : gap lo hi q ≤ |x - q| + 0 :=
    gap_le_abs_sub_add le_rfl (by rwa [sub_zero]) (by rwa [add_zero])
  rw [add_zero] at hgap
  calc gap lo hi q ^ 2 ≤ |x - q| ^ 2 := pow_le_pow_left₀ (gap_nonneg lo hi q) hgap 2
    _ = (x - q) ^ 2 := sq_abs _

omit [IsStrictOrderedRing K] in
/-- The number of an interval that is nearest to another number is as far away as
the interval. -/
theorem clamp_sub_sq {lo hi : K} (hle : lo ≤ hi) (q : K) :
    (max lo (min hi q) - q) ^ 2 = gap lo hi q ^ 2 := by
  unfold gap
  split_ifs with hlo hhi
  · rw [min_eq_right (hlo.le.trans hle), max_eq_left hlo.le]
  · rw [min_eq_left hhi.le, max_eq_right hle, sub_sq_comm]
  · rw [min_eq_right (not_lt.mp hhi), max_eq_right (not_lt.mp hlo), sub_self]

end Gap

/-- Adding the same amount in every dimension adds at most its norm. -/
theorem sum_sq_add_le {ι : Type*} (s : Finset ι) (f : ι → ℝ) {δ : ℝ} (hδ : 0 ≤ δ) :
    ∑ i ∈ s, (|f i| + δ) ^ 2 ≤ (√(∑ i ∈ s, f i ^ 2) + δ * √s.card) ^ 2 := by
  have hnonneg : 0 ≤ ∑ i ∈ s, f i ^ 2 := Finset.sum_nonneg fun i _ => sq_nonneg _
  have hsum : ∑ i ∈ s, |f i| ≤ √s.card * √(∑ i ∈ s, f i ^ 2) := by
    rw [← Real.sqrt_mul (Nat.cast_nonneg _)]
    refine Real.le_sqrt_of_sq_le ?_
    simpa using sq_sum_le_card_mul_sum_sq (s := s) (f := fun i => |f i|)
  have hexpand : ∑ i ∈ s, (|f i| + δ) ^ 2 =
      ∑ i ∈ s, f i ^ 2 + 2 * δ * ∑ i ∈ s, |f i| + δ ^ 2 * s.card := by
    simp only [add_sq, sq_abs, Finset.sum_add_distrib, Finset.sum_const, nsmul_eq_mul]
    rw [Finset.mul_sum, mul_comm (δ ^ 2)]
    congr 2
    exact Finset.sum_congr rfl fun i _ => by ring
  calc ∑ i ∈ s, (|f i| + δ) ^ 2
      = ∑ i ∈ s, f i ^ 2 + 2 * δ * ∑ i ∈ s, |f i| + δ ^ 2 * s.card := hexpand
    _ ≤ ∑ i ∈ s, f i ^ 2 + 2 * δ * (√s.card * √(∑ i ∈ s, f i ^ 2)) + δ ^ 2 * s.card := by
        gcongr
    _ = (√(∑ i ∈ s, f i ^ 2) + δ * √s.card) ^ 2 := by
        rw [add_sq, mul_pow, Real.sq_sqrt hnonneg, Real.sq_sqrt (Nat.cast_nonneg _)]
        ring

end Boxes
