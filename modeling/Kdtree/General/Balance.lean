import Kdtree.General.SplitTree
import Mathlib.Data.Nat.Log
import Mathlib.Tactic.GCongr

/-!
# Heights of balanced trees

How high a full binary tree is follows from how its inner nodes divide their leaves.
If every subtree keeps at most a fixed share of what its parent has besides one leaf,
the height is logarithmic. If every node halves its leaves, the height is the
logarithm to base two, rounded up.
-/

namespace SplitTree

variable {σ α : Type*}

/-- Every subtree keeps at most the share `p / q` of its parent's leaves, one of them not
counted. -/
def Shrinks (p q : ℕ) (_ : σ) (left right : List α) : Prop :=
  q * (left.length - 1) ≤ p * (left.length + right.length - 1) ∧
    q * (right.length - 1) ≤ p * (left.length + right.length - 1)

/-- Every node halves its leaves, up to an odd leaf on one of the sides. -/
def Halves (_ : σ) (left right : List α) : Prop :=
  left.length ≤ right.length + 1 ∧ right.length ≤ left.length + 1

/-- A tree whose subtrees shrink is at most as high as the number of times its leaves can
shrink. -/
theorem height_le_of_shrinks {p q : ℕ} {t : SplitTree σ α} (h : t.ForallNodes (Shrinks p q))
    {k : ℕ} (hk : p ^ k * (t.leaves.length - 1) < q ^ k) : t.height ≤ k := by
  induction t generalizing k with
  | leaf a => exact Nat.zero_le k
  | node s left right ihl ihr =>
    obtain ⟨⟨hleft, hright⟩, hl, hr⟩ := h
    have hleftPos := left.leaves_length_pos
    have hrightPos := right.leaves_length_pos
    rw [leaves, List.length_append] at hk
    cases k with
    | zero =>
      rw [pow_zero, pow_zero, one_mul] at hk
      omega
    | succ k =>
      have hchild {m : ℕ} (hm : q * m ≤ p * (left.leaves.length + right.leaves.length - 1)) :
          p ^ k * m < q ^ k := by
        have hscaled : q * (p ^ k * m) < q * q ^ k := by
          calc q * (p ^ k * m) = p ^ k * (q * m) := by ring
            _ ≤ p ^ k * (p * (left.leaves.length + right.leaves.length - 1)) := by gcongr
            _ = p ^ (k + 1) * (left.leaves.length + right.leaves.length - 1) := by ring
            _ < q ^ (k + 1) := hk
            _ = q * q ^ k := by ring
        exact lt_of_mul_lt_mul_left hscaled (Nat.zero_le q)
      have hlh := ihl hl (hchild hleft)
      have hrh := ihr hr (hchild hright)
      rw [height]
      omega

/-- A tree that halves its leaves is as high as their number's binary logarithm, rounded up. -/
theorem height_eq_clog_of_halves {t : SplitTree σ α} (h : t.ForallNodes Halves) :
    t.height = Nat.clog 2 t.leaves.length := by
  induction t with
  | leaf a => simp [height, leaves]
  | node s left right ihl ihr =>
    obtain ⟨⟨hleft, hright⟩, hl, hr⟩ := h
    have hleftPos := left.leaves_length_pos
    have hrightPos := right.leaves_length_pos
    have hhalf : (left.leaves.length + right.leaves.length + 2 - 1) / 2 =
        max left.leaves.length right.leaves.length := by omega
    have hstep := Nat.clog_of_two_le (le_refl 2)
      (show 2 ≤ left.leaves.length + right.leaves.length by omega)
    rw [hhalf, (Nat.clog_monotone 2).map_max] at hstep
    rw [height, leaves, List.length_append, hstep, ihl hl, ihr hr]

end SplitTree
