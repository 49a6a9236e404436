import Kdtree.BuildSpec

/-!
# Whether the node array is large enough

The array is allocated for trees in which every split halves its segment, with one
level to spare. A split may be less even than that, because of ties, and because a
selection may average with a value far above the middle. The nodes fit exactly when
the tree over the samples is not deeper than the array.
-/

namespace Kdtree

open SplitTree

variable {K : Type} [Field K] [LinearOrder K]

/-- The number of slots allocated for the samples is computed without overflow, and
from any node map the recursive builder returns, having written to these slots only. -/
def FitsNodeArray (std : StdAlgorithms K) (samples : Samples K) (selector : DimensionSelectorType)
    (splittingMethod : SplittingMethod) : Prop :=
  ∃ capacity, KDTree.getNumNodes samples.rows = .ok capacity ∧
    ∀ kdtree : KDTree K, ∃ out : Build K,
      (∀ fuel ≥ samples.rows, buildUsingRecursion std fuel
        (rootItem samples selector splittingMethod) (.start kdtree) = .ok out) ∧
      ∀ node ∈ out.written, node.getId < capacity

omit [Field K] [LinearOrder K] in
/-- The number of slots, as long as its computation stays within an `int`. -/
theorem getNumNodes_eq {n : ℕ} (hn : n ≠ 0) (hlt : n < 2 ^ 29) :
    KDTree.getNumNodes n = .ok (2 ^ (Nat.log2 n + 2) - 1) := by
  have hlog : Nat.log2 n < 29 := (Nat.log2_lt hn).mpr hlt
  have hleaves : 2 ^ (Nat.log2 n + 1) < 2 ^ 31 := Nat.pow_lt_pow_right (by omega) (by omega)
  have hproduct : 2 ^ (Nat.log2 n + 1) * 2 < 2 ^ 31 := by
    rw [← pow_succ]
    exact Nat.pow_lt_pow_right (by omega) (by omega)
  simp only [KDTree.getNumNodes, KDTree.toInt32, if_pos hleaves, if_pos hproduct, bind,
    Except.bind, pure, Except.pure]
  rw [← pow_succ]

/-- From `2 ^ 29` samples on, the computation leaves the range of an `int`. -/
theorem getNumNodes_overflow {n : ℕ} (hge : 2 ^ 29 ≤ n) :
    KDTree.getNumNodes n = .error .intOverflow := by
  have hlog : 29 ≤ Nat.log2 n := (Nat.le_log2 (by omega)).mpr hge
  have hproduct : ¬ 2 ^ (Nat.log2 n + 1) * 2 < 2 ^ 31 := by
    rw [← pow_succ, not_lt]
    exact Nat.pow_le_pow_right (by omega) (by omega)
  simp only [KDTree.getNumNodes, KDTree.toInt32, bind, Except.bind]
  by_cases hleaves : 2 ^ (Nat.log2 n + 1) < 2 ^ 31
  · simp only [if_pos hleaves, if_neg hproduct]
  · simp only [if_neg hleaves]

namespace BuiltFrom

variable {std : StdAlgorithms K} {samples : Samples K} {selector : DimensionSelectorType}
  {splittingMethod : SplittingMethod} {t : SplitTree (Split K) ℕ}

/-- The tree over all samples has a leaf for each of them. -/
theorem leaves_length (h : BuiltFrom std (rootItem samples selector splittingMethod) t) :
    t.leaves.length = samples.rows :=
  h.leaves_perm.length_eq.trans List.length_range

/-- From any node map, the recursive builder writes the tree over all samples. -/
theorem buildUsingRecursion_start
    (h : BuiltFrom std (rootItem samples selector splittingMethod) t) (kdtree : KDTree K) {fuel : ℕ}
    (hfuel : samples.rows ≤ fuel) :
    buildUsingRecursion std fuel (rootItem samples selector splittingMethod) (.start kdtree) =
      .ok ((Build.start kdtree).write (layout 0 t)) := by
  have hheight := t.height_lt_leaves_length
  rw [h.leaves_length] at hheight
  exact h.buildUsingRecursion_eq (by omega) (.start kdtree)

/-- The nodes fit into the array if and only if its slots include those of the tree. -/
theorem fitsNodeArray_iff_layout
    (h : BuiltFrom std (rootItem samples selector splittingMethod) t) :
    FitsNodeArray std samples selector splittingMethod ↔
      ∃ capacity, KDTree.getNumNodes samples.rows = .ok capacity ∧
        ∀ node ∈ layout 0 t, node.getId < capacity := by
  constructor
  · rintro ⟨capacity, hcapacity, hbuilds⟩
    obtain ⟨out, hout, hlt⟩ := hbuilds (.create 0)
    obtain rfl := Except.ok.inj
      ((h.buildUsingRecursion_start (.create 0) le_rfl).symm.trans (hout _ le_rfl))
    exact ⟨capacity, hcapacity, hlt⟩
  · rintro ⟨capacity, hcapacity, hlt⟩
    exact ⟨capacity, hcapacity, fun kdtree =>
      ⟨_, fun fuel hfuel => h.buildUsingRecursion_start kdtree hfuel, hlt⟩⟩

/-- The nodes fit into the array if and only if the number of slots is computed without
overflow and the tree is not deeper than the array. -/
theorem fitsNodeArray_iff (h : BuiltFrom std (rootItem samples selector splittingMethod) t)
    (hrows : 0 < samples.rows) :
    FitsNodeArray std samples selector splittingMethod ↔
      samples.rows < 2 ^ 29 ∧ t.height ≤ Nat.log2 samples.rows + 1 := by
  have hids : (∀ node ∈ layout 0 t, node.getId < 2 ^ (Nat.log2 samples.rows + 2) - 1) ↔
      t.height ≤ Nat.log2 samples.rows + 1 := by
    rw [← forall_slot_lt_iff_height_le]
    simp only [layout, List.forall_mem_map, Node.getId_ofEntry]
  rw [h.fitsNodeArray_iff_layout, ← hids]
  constructor
  · rintro ⟨capacity, hcapacity, hlt⟩
    have hsmall : samples.rows < 2 ^ 29 := by
      by_contra hge
      rw [getNumNodes_overflow (not_lt.mp hge)] at hcapacity
      cases hcapacity
    rw [getNumNodes_eq hrows.ne' hsmall] at hcapacity
    obtain rfl := Except.ok.inj hcapacity
    exact ⟨hsmall, hlt⟩
  · rintro ⟨hsmall, hlt⟩
    exact ⟨_, getNumNodes_eq hrows.ne' hsmall, hlt⟩

end BuiltFrom

end Kdtree
