import Kdtree.Capacity
import Kdtree.NodeIds
import Mathlib.Data.Nat.Log

/-!
# Allocating the node array

The number of slots is computed in 32 bits although samples are counted in 64.
Below `2 ^ 29` samples the computation is exact, the array holds every id of a
binary tree as deep as halving the samples requires, and the constructor fills it
with empty nodes. From `2 ^ 29` samples on the product with two overflows.
-/

namespace Kdtree

namespace KDTree

/-- A counter of 32 bits is enough for as many slots as such an integer can count. -/
theorem createCounted_eq {K : Type} {numNodes : ℕ} (hnum : numNodes < 2 ^ 31) :
    (createCounted numNodes : Except Fault (KDTree K)) = .ok (create numNodes) := by
  have hround : ∀ id ∈ List.range numNodes, ∀ tree : KDTree K,
      createRound tree id = .ok (tree.insertEmptyNode id) := by
    intro id hid tree
    have hnext : id + 1 < 2 ^ 31 := by
      have := List.mem_range.mp hid
      omega
    rw [createRound, toInt32, if_pos hnext]
    rfl
  exact Fallible.foldlM_eq_ok hround _

/-- The number of slots that is computed is at least that of a full binary tree with
a leaf for each sample. -/
theorem two_mul_sub_one_le_numNodes (n : ℕ) : 2 * n - 1 ≤ 2 ^ (Nat.log2 n + 2) - 1 := by
  have hlt : n < 2 ^ (Nat.log2 n + 1) := Nat.lt_log2_self
  have hpow : 2 ^ (Nat.log2 n + 2) = 2 ^ (Nat.log2 n + 1) * 2 := pow_succ 2 _
  omega

/-- It covers every id down to the depth at which halving the samples leaves one. -/
theorem AtDepth.lt_numNodes {n k nodeId : ℕ} (hk : k ≤ Nat.clog 2 n) (hid : AtDepth k nodeId) :
    nodeId < 2 ^ (Nat.log2 n + 2) - 1 := by
  have hclog : Nat.clog 2 n ≤ Nat.log2 n + 1 := Nat.clog_le_of_le_pow Nat.lt_log2_self.le
  have hpow : 2 ^ (k + 1) ≤ 2 ^ (Nat.log2 n + 2) := Nat.pow_le_pow_right (by omega) (by omega)
  have := hid.le
  omega

end KDTree

/-- For a positive number of samples, the number of slots is computed within the range
of an `int` if and only if there are fewer than `2 ^ 29` samples. It is then exactly
`2 ^ (⌊log₂ n⌋ + 2) - 1`, at least `2 n - 1`, and above every id down to depth
`⌈log₂ n⌉`, and the constructor puts an empty node into each of the slots. -/
theorem getNumNodes_exact_iff {K : Type} {n : ℕ} (hn : 1 ≤ n) :
    (∃ numNodes, KDTree.getNumNodes n = .ok numNodes ∧
      numNodes = 2 ^ (Nat.log2 n + 2) - 1 ∧ 2 * n - 1 ≤ numNodes ∧
      (∀ k nodeId, k ≤ Nat.clog 2 n → KDTree.AtDepth k nodeId → nodeId < numNodes) ∧
      ∃ tree : KDTree K, KDTree.createCounted numNodes = .ok tree ∧ tree.numNodes = numNodes ∧
        ∀ id < numNodes, tree.getNode id = some (.empty id)) ↔ n < 2 ^ 29 := by
  constructor
  · rintro ⟨numNodes, hnum, -⟩
    by_contra hge
    rw [getNumNodes_overflow (not_lt.mp hge)] at hnum
    cases hnum
  · intro hlt
    have hlog : Nat.log2 n < 29 := (Nat.log2_lt (by omega)).mpr hlt
    have hsmall : 2 ^ (Nat.log2 n + 2) - 1 < 2 ^ 31 := by
      have : 2 ^ (Nat.log2 n + 2) ≤ 2 ^ 30 := Nat.pow_le_pow_right (by omega) (by omega)
      omega
    refine ⟨_, getNumNodes_eq (by omega) hlt, rfl, KDTree.two_mul_sub_one_le_numNodes n,
      fun k nodeId hk hid => hid.lt_numNodes hk, _, KDTree.createCounted_eq hsmall,
      KDTree.numNodes_create _, fun id hid => ?_⟩
    rw [KDTree.getNode_create, if_pos hid]

/-- The criterion for a thousand samples. -/
theorem getNumNodes_thousand_iff :
    (∃ numNodes, KDTree.getNumNodes 1000 = .ok numNodes ∧
      numNodes = 2 ^ (Nat.log2 1000 + 2) - 1 ∧ 2 * 1000 - 1 ≤ numNodes ∧
      (∀ k nodeId, k ≤ Nat.clog 2 1000 → KDTree.AtDepth k nodeId → nodeId < numNodes) ∧
      ∃ tree : KDTree ℚ, KDTree.createCounted numNodes = .ok tree ∧ tree.numNodes = numNodes ∧
        ∀ id < numNodes, tree.getNode id = some (.empty id)) ↔ 1000 < 2 ^ 29 :=
  getNumNodes_exact_iff (by decide)

/-- For `2 ^ 29` samples the number of leaves still fits an `int`, and its double does not. -/
theorem getNumNodes_overflows :
    1 ≤ 2 ^ 29 ∧ 2 ^ 29 < 2 ^ 60 ∧
      KDTree.toInt32 (2 ^ (Nat.log2 (2 ^ 29) + 1)) = .ok (2 ^ 30) ∧
      KDTree.toInt32 (2 ^ 30 * 2) = .error .intOverflow ∧
      KDTree.getNumNodes (2 ^ 29) = .error .intOverflow := by
  refine ⟨by decide, by decide, ?_, by decide, getNumNodes_overflow le_rfl⟩
  rw [Nat.log2_two_pow]
  rfl

end Kdtree
