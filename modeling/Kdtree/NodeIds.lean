import Kdtree.BuildSpec
import Kdtree.General.SlotPaths
import Mathlib.Order.CompletePartialOrder

/-!
# Node ids as paths from the root

`leftNodeId` and `rightNodeId` turn every sequence of moves from the root into an
id of its own. The builders store nodes under these ids without looking whether
a slot is free.
-/

namespace Kdtree

open SplitTree

namespace KDTree

/-- The id of a child, the right one for `true`. -/
def childNodeId (nodeId : ℕ) (right : Bool) : ℕ :=
  if right then rightNodeId nodeId else leftNodeId nodeId

/-- The id that a sequence of moves leads to, each to the right for `true`. -/
def nodeIdAfter (nodeId : ℕ) (moves : List Bool) : ℕ := moves.foldl childNodeId nodeId

/-- `AtDepth k nodeId`: the node is reached from the root by `k` moves. -/
def AtDepth (k nodeId : ℕ) : Prop :=
  ∃ moves : List Bool, moves.length = k ∧ nodeIdAfter 0 moves = nodeId

/-- The ids of the source are the slots of the layout. -/
theorem nodeIdAfter_eq (nodeId : ℕ) (moves : List Bool) :
    nodeIdAfter nodeId moves = slotAfter nodeId moves := rfl

/-- A node has one depth. -/
theorem AtDepth.unique {k m nodeId : ℕ} (hk : AtDepth k nodeId) (hm : AtDepth m nodeId) :
    k = m := by
  obtain ⟨moves, rfl, hmoves⟩ := hk
  obtain ⟨moves', rfl, hmoves'⟩ := hm
  rw [slotAfter_injective 0 (hmoves.trans hmoves'.symm)]

/-- The root is at depth zero. -/
theorem atDepth_root : AtDepth 0 0 := ⟨[], rfl, rfl⟩

/-- A left child is one level deeper. -/
theorem AtDepth.left {k nodeId : ℕ} (h : AtDepth k nodeId) :
    AtDepth (k + 1) (leftNodeId nodeId) := by
  obtain ⟨moves, rfl, rfl⟩ := h
  exact ⟨moves ++ [false], by simp, by simp [nodeIdAfter, childNodeId]⟩

/-- A right child is one level deeper. -/
theorem AtDepth.right {k nodeId : ℕ} (h : AtDepth k nodeId) :
    AtDepth (k + 1) (rightNodeId nodeId) := by
  obtain ⟨moves, rfl, rfl⟩ := h
  exact ⟨moves ++ [true], by simp, by simp [nodeIdAfter, childNodeId]⟩

/-- At depth `k` there is no id above `2 ^ (k + 1) - 2`. -/
theorem AtDepth.le {k nodeId : ℕ} (h : AtDepth k nodeId) : nodeId + 2 ≤ 2 ^ (k + 1) := by
  have hslot := (exists_slotAfter_iff.mp h).2
  rwa [Nat.zero_add, ← pow_succ'] at hslot

end KDTree

/-- Descendants in the array are the slots below in the layout. -/
theorem isDescendant_iff_isBelow {r i : ℕ} : IsDescendant r i ↔ IsBelow r i := by
  refine ⟨fun h => ?_, isDescendant_of_isBelow⟩
  induction h with
  | refl => exact .refl
  | left _ ih => exact ih.left
  | right _ ih => exact ih.right

/-- Different sequences of moves from the root end at different ids, those of length
`k` at the ids from `2 ^ k - 1` to `2 ^ (k + 1) - 2`. `parentNodeId` takes the last
move back. Ids of which neither is above the other have no descendant in common. -/
theorem nodeIds_encode_paths :
    Function.Injective (KDTree.nodeIdAfter 0) ∧
    (∀ k, {nodeId | ∃ moves : List Bool, moves.length = k ∧ KDTree.nodeIdAfter 0 moves = nodeId} =
      Set.Icc (2 ^ k - 1) (2 ^ (k + 1) - 2)) ∧
    (∀ (moves : List Bool) (move : Bool),
      KDTree.parentNodeId (KDTree.nodeIdAfter 0 (moves ++ [move])) =
        KDTree.nodeIdAfter 0 moves) ∧
    ∀ a b, ¬IsDescendant a b → ¬IsDescendant b a →
      Disjoint {nodeId | IsDescendant a nodeId} {nodeId | IsDescendant b nodeId} := by
  refine ⟨slotAfter_injective 0, slots_at_depth, fun moves move => ?_, fun a b hab hba => ?_⟩
  · rw [KDTree.nodeIdAfter_eq, slotAfter_concat]
    exact parentSlot_childSlot _ _
  · apply Set.disjoint_left.mpr
    intro i ha hb
    rcases (isDescendant_iff_isBelow.mp ha).comparable (isDescendant_iff_isBelow.mp hb) with h | h
    · exact hab (isDescendant_of_isBelow h)
    · exact hba (isDescendant_of_isBelow h)

/-- The two children of the root have no descendant in common. -/
theorem root_children_disjoint :
    Disjoint {nodeId | IsDescendant 1 nodeId} {nodeId | IsDescendant 2 nodeId} := by
  refine nodeIds_encode_paths.2.2.2 1 2 (fun h => ?_) fun h => ?_
  · rcases (isDescendant_iff_isBelow.mp h).eq_or_of_right (i := 0) with heq | hle
    · simp [rightSlot] at heq
    · exact absurd hle.le (by omega)
  · exact absurd (isDescendant_iff_isBelow.mp h).le (by omega)

end Kdtree
