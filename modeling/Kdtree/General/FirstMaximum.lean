import Mathlib.Order.Lattice
import Mathlib.Data.List.Range
import Mathlib.Tactic.SplitIfs

/-!
# Scanning for the first largest value

A scan keeps the best index so far together with its value, and gives it up for a
later one only if the value there is larger. It ends with the first of the indices
at which the function is largest.
-/

namespace FirstMaximum

variable {K : Type*} [LinearOrder K]

/-- The index below a number at which a function is first at its largest. -/
structure IsFirstMaximum (f : ℕ → K) (n d : ℕ) : Prop where
  /-- The index is below the number. -/
  lt : d < n
  /-- No value is larger. -/
  le : ∀ j < n, f j ≤ f d
  /-- Earlier values are smaller. -/
  first : ∀ j < d, f j < f d

/-- One round of the scan, on the best index so far and its value. -/
def keepLarger (f : ℕ → K) (best : ℕ × K) (d : ℕ) : ℕ × K :=
  if best.2 < f d then (d, f d) else best

/-- One more value takes over only if it is larger. -/
theorem IsFirstMaximum.succ {f : ℕ → K} {n d : ℕ} (h : IsFirstMaximum f n d) :
    IsFirstMaximum f (n + 1) (if f d < f n then n else d) := by
  split_ifs with hlt
  · refine ⟨Nat.lt_succ_self n, fun j hj => ?_, fun j hj => (h.le j hj).trans_lt hlt⟩
    rcases Nat.lt_succ_iff_lt_or_eq.mp hj with hj | rfl
    · exact ((h.le j hj).trans_lt hlt).le
    · exact le_rfl
  · refine ⟨Nat.lt_succ_of_lt h.lt, fun j hj => ?_, h.first⟩
    rcases Nat.lt_succ_iff_lt_or_eq.mp hj with hj | rfl
    · exact h.le j hj
    · exact not_lt.mp hlt

/-- The scan ends with the first index at which the function is largest, and with the
value there. -/
theorem foldl_keepLarger (f : ℕ → K) {n : ℕ} (hn : 0 < n) :
    ∃ d, (List.range n).foldl (keepLarger f) (0, f 0) = (d, f d) ∧ IsFirstMaximum f n d := by
  induction n, hn using Nat.le_induction with
  | base =>
    refine ⟨0, by simp [keepLarger], Nat.one_pos, fun j hj => ?_, fun j hj => ?_⟩
    · obtain rfl : j = 0 := by omega
      exact le_rfl
    · omega
  | succ n hn ih =>
    obtain ⟨d, hfold, hmax⟩ := ih
    refine ⟨_, ?_, hmax.succ⟩
    rw [List.range_succ, List.foldl_append, hfold, List.foldl_cons, List.foldl_nil, keepLarger]
    dsimp only
    split_ifs
    · rfl
    · rfl

end FirstMaximum
