import Kdtree.General.SplitTree
import Mathlib.Data.List.Induction
import Mathlib.Order.Interval.Set.Defs

/-!
# Slots as paths

The slot of a node in an array layout as a number that encodes the path to it.
Different paths end in different slots, the paths of one length fill an interval,
and halving goes back up a path.
-/

namespace SplitTree

/-- The slot of a child, the right one for `true`. -/
def childSlot (i : ℕ) (right : Bool) : ℕ := if right then rightSlot i else leftSlot i

/-- The slot that a path leads to, each move going to the right for `true`. -/
def slotAfter (root : ℕ) (path : List Bool) : ℕ := path.foldl childSlot root

/-- The slot of the parent; slot zero is its own parent. -/
def parentSlot (i : ℕ) : ℕ := (i - 1) / 2

/-- The empty path stays at the root. -/
@[simp] theorem slotAfter_nil (root : ℕ) : slotAfter root [] = root := rfl

/-- One more step goes to a child. -/
@[simp] theorem slotAfter_concat (root : ℕ) (path : List Bool) (right : Bool) :
    slotAfter root (path ++ [right]) = childSlot (slotAfter root path) right := by
  simp [slotAfter]

/-- A child follows its parent by its number, at double the place. -/
theorem childSlot_eq (i : ℕ) (right : Bool) : childSlot i right = i * 2 + 1 + right.toNat := by
  cases right <;> rfl

/-- A slot and a direction determine the child, and the child both of them. -/
theorem childSlot_inj {i j : ℕ} {a b : Bool} (h : childSlot i a = childSlot j b) :
    i = j ∧ a = b := by
  cases a <;> cases b <;> simp only [childSlot, leftSlot, rightSlot, if_true, if_false,
    Bool.false_eq_true, reduceCtorEq, and_true, and_false] at h ⊢ <;> omega

/-- The parent of a child is the slot it is a child of. -/
@[simp] theorem parentSlot_childSlot (i : ℕ) (right : Bool) :
    parentSlot (childSlot i right) = i := by
  have := Bool.toNat_le right
  rw [parentSlot, childSlot_eq]
  omega

/-- Slots grow along every path. -/
theorem le_slotAfter (root : ℕ) (path : List Bool) : root ≤ slotAfter root path := by
  induction path using List.reverseRecOn with
  | nil => exact le_rfl
  | append_singleton path right ih =>
    rw [slotAfter_concat, childSlot_eq]
    omega

/-- Different paths lead to different slots. -/
theorem slotAfter_injective (root : ℕ) : Function.Injective (slotAfter root) := by
  intro p q h
  induction p using List.reverseRecOn generalizing q with
  | nil =>
    induction q using List.reverseRecOn with
    | nil => rfl
    | append_singleton q right _ =>
      have := le_slotAfter root q
      rw [slotAfter_nil, slotAfter_concat, childSlot_eq] at h
      omega
  | append_singleton p right ih =>
    induction q using List.reverseRecOn with
    | nil =>
      have := le_slotAfter root p
      rw [slotAfter_nil, slotAfter_concat, childSlot_eq] at h
      omega
    | append_singleton q right' _ =>
      rw [slotAfter_concat, slotAfter_concat] at h
      obtain ⟨hslot, rfl⟩ := childSlot_inj h
      rw [ih hslot]

/-- The slots that the paths of one length lead to form an interval. -/
theorem exists_slotAfter_iff {root k i : ℕ} :
    (∃ path : List Bool, path.length = k ∧ slotAfter root path = i) ↔
      (root + 1) * 2 ^ k ≤ i + 1 ∧ i + 2 ≤ (root + 2) * 2 ^ k := by
  induction k generalizing i with
  | zero =>
    simp only [List.length_eq_zero_iff, exists_eq_left, slotAfter_nil, pow_zero, mul_one]
    omega
  | succ k ih =>
    rw [pow_succ, ← mul_assoc, ← mul_assoc]
    constructor
    · rintro ⟨path, hlength, rfl⟩
      obtain ⟨path, right, rfl⟩ :=
        path.eq_nil_or_concat'.resolve_left (by rintro rfl; cases hlength)
      have hpath := ih.mp ⟨path, by simpa using hlength, rfl⟩
      have := Bool.toNat_le right
      rw [slotAfter_concat, childSlot_eq]
      omega
    · rintro ⟨hlow, hhigh⟩
      have hpos : 0 < 2 ^ k := Nat.two_pow_pos k
      have hmul : 0 < (root + 1) * 2 ^ k := Nat.mul_pos (Nat.succ_pos root) hpos
      obtain ⟨path, hlength, hslot⟩ := (ih (i := (i - 1) / 2)).mpr ⟨by omega, by omega⟩
      rcases Nat.even_or_odd' i with ⟨j, rfl | rfl⟩
      · refine ⟨path ++ [true], by simp [hlength], ?_⟩
        rw [slotAfter_concat, hslot, childSlot, if_pos rfl, rightSlot]
        omega
      · refine ⟨path ++ [false], by simp [hlength], ?_⟩
        rw [slotAfter_concat, hslot, childSlot, if_neg Bool.false_ne_true, leftSlot]
        omega

/-- From slot zero, the paths of length `k` lead to the slots from `2 ^ k - 1` to
`2 ^ (k + 1) - 2`. -/
theorem slots_at_depth (k : ℕ) :
    {i | ∃ path : List Bool, path.length = k ∧ slotAfter 0 path = i} =
      Set.Icc (2 ^ k - 1) (2 ^ (k + 1) - 2) := by
  ext i
  have hpos : 0 < 2 ^ k := Nat.two_pow_pos k
  rw [Set.mem_ofPred_eq, exists_slotAfter_iff, Set.mem_Icc, pow_succ]
  omega

end SplitTree
