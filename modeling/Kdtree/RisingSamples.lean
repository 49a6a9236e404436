import Kdtree.Heights

/-!
# Samples that a selection cannot halve

Samples in one dimension, of growing coefficients. The selection may leave the largest value
where the upper of the two middle values is read. The threshold for an even number of samples
then lies far above their median: if every coefficient is more than twice the one before, the
last sample alone is split off, and if they come in close pairs, the last pair.
-/

namespace Kdtree

open SplitTree OrderStatistics

variable {K : Type}

variable [Field K]

/-- An item of consecutive samples in one dimension, with given coefficients, that is to be
split by selection. -/
structure DataToBuildNodes.Rising (c : ℕ → ℕ) (a m : ℕ) (item : DataToBuildNodes K) : Prop where
  /-- The builders can handle it. -/
  valid : item.Valid
  /-- There is one dimension. -/
  cols : item.samples.cols = 1
  /-- The coefficients are those given. -/
  coeff : ∀ i ∈ item.sampleIdsInSegment, item.samples.coeff i 0 = c i
  /-- The split point is selected. -/
  method : item.splittingMethod = .medianOfMedian
  /-- The samples are the `m` samples from sample `a` on, in some order. -/
  ids : item.sampleIdsInSegment.Perm (List.range' a m)

namespace DataToBuildNodes.Rising

variable {c : ℕ → ℕ} {a m d : ℕ} {item : DataToBuildNodes K} {sws : SplitWithSegments K}

/-- The coefficients of the samples. -/
theorem keys_perm (h : item.Rising c a m) :
    (item.segment.keys 0).Perm ((List.range' a m).map fun i => (c i : K)) := by
  have hkeys : item.segment.keys 0 = item.sampleIdsInSegment.map fun i => (c i : K) :=
    List.map_congr_left h.coeff
  rw [hkeys]
  exact h.ids.map _

variable [LinearOrder K]

/-- It is split in its only dimension. -/
theorem dimension_eq {std : StdAlgorithms K} (h : item.Rising c a m)
    (hsplit : SplitsAt std item d sws) : d = 0 := by
  have hd := h.valid.dimension_lt hsplit
  have hcols := h.cols
  omega

variable [IsStrictOrderedRing K]

/-- The coefficients of given ranks. -/
theorem eq_of_hasRank (h : item.Rising c a m) (hc : StrictMono c) {n : ℕ} (hn : n < m) {x : K}
    (hx : HasRank (item.segment.keys 0) n x) : x = c (a + n) := by
  have hsorting : IsSorting id (item.segment.keys 0)
      ((List.range' a m).map fun i => (c i : K)) := by
    refine ⟨h.keys_perm.symm, ?_⟩
    rw [List.pairwise_map]
    apply (List.pairwise_lt_range' 1).imp
    intro i i' hlt
    exact Nat.cast_le.mpr (hc hlt).le
  have hget : ((List.range' a m).map fun i => (c i : K))[n]? = some (c (a + n) : K) := by
    rw [List.getElem?_map, List.getElem?_range' hn, Option.map_some, one_mul]
  have hrank := (hsorting.isSelection n).hasRank hget
  rw [List.map_id] at hrank
  exact hx.unique hrank

/-- The threshold that is selected when the largest value is left where the upper one is
read. -/
theorem threshold_eq (h : item.Rising c a m) (hc : StrictMono c)
    (hsplit : SplitsAt .reversing item 0 sws) :
    (m % 2 = 1 → sws.split.splitPoint.getValueAt 0 = c (a + m / 2)) ∧
    (m % 2 = 0 → sws.split.splitPoint.getValueAt 0 =
      ((c (a + (m / 2 - 1)) : K) + c (a + (m - 1))) / 2) := by
  have hd := h.valid.dimension_lt hsplit
  have hne := h.valid.ids_ne_nil
  have hlength : item.segment.sampleIdsInSegment.length = m := by
    rw [segment, h.ids.length_eq, List.length_range']
  have hpos : 0 < m := by
    rw [← hlength]
    exact List.length_pos_iff.mpr hne
  constructor
  · intro hodd
    have hkeys : (item.segment.keys 0).length % 2 = 1 := by
      rwa [Segment.keys_length, hlength]
    have hrank := (hsplit.isSplit.isThreshold hne hd).odd hkeys
    rw [Segment.keys_length, hlength] at hrank
    exact h.eq_of_hasRank hc (by omega) hrank
  · intro heven
    obtain ⟨p, x, y, hp, hx, hy, hthreshold⟩ := reversing_threshold (hlength ▸ heven) hne hd
    have hpoint := hsplit.isSplit.point
    rw [h.method] at hpoint
    obtain rfl : sws.split.splitPoint = p := Except.ok.inj (hpoint.symm.trans hp)
    rw [hlength] at hx hy
    obtain rfl := h.eq_of_hasRank hc (by omega) hx
    obtain rfl := h.eq_of_hasRank hc (by omega) hy
    exact hthreshold

/-- A threshold between two samples splits the item there. -/
theorem sides {std : StdAlgorithms K} (h : item.Rising c a m) (hc : StrictMono c)
    (hsplit : SplitsAt std item 0 sws) {p : ℕ} (hp : p ≤ m)
    (hside : ∀ i, a ≤ i → i < a + m →
      ((c i : K) ≤ sws.split.splitPoint.getValueAt 0 ↔ i < a + p)) :
    (item.lessChild 0 sws).Rising c a p ∧ (item.greaterChild 0 sws).Rising c (a + p) (m - p) := by
  have hone : (item.segment.keys 0).countP (· = sws.split.splitPoint.getValueAt 0) ≤ 1 := by
    have hnodup : (item.segment.keys 0).Nodup := by
      rw [h.keys_perm.nodup_iff]
      exact (List.nodup_range' 1).map (Nat.cast_injective.comp hc.injective)
    have hcount := List.nodup_iff_count_le_one.mp hnodup (sws.split.splitPoint.getValueAt 0)
    rwa [List.count_eq_countP] at hcount
  obtain ⟨hless, hgreater⟩ := hsplit.isSplit.sides_eq_filter hone
  have hmem : ∀ i, a ≤ i → i < a + m → i ∈ item.sampleIdsInSegment := fun i hi hlt =>
    h.ids.mem_iff.mpr (List.mem_range'_1.mpr ⟨hi, hlt⟩)
  have hperm := hsplit.isSplit.perm
  have hlessIds : sws.lessIds.Perm (List.range' a p) := by
    rw [hless, ← filter_range'_eq_left hp fun i hi hlt => ?_]
    · exact h.ids.filter _
    · rw [decide_eq_true_eq, segment, h.coeff i (hmem i hi hlt), hside i hi hlt]
  have hgreaterIds : sws.greaterIds.Perm (List.range' (a + p) (m - p)) := by
    rw [hgreater, ← filter_range'_eq_right hp fun i hi hlt => ?_]
    · exact h.ids.filter _
    · rw [decide_eq_true_eq, segment, h.coeff i (hmem i hi hlt), ← not_le, hside i hi hlt, not_lt]
  constructor
  · exact ⟨h.valid.lessChild hsplit, h.cols,
      fun i hi => h.coeff i (hperm.subset (List.mem_append_left _ hi)), h.method, hlessIds⟩
  · exact ⟨h.valid.greaterChild hsplit, h.cols,
      fun i hi => h.coeff i (hperm.subset (List.mem_append_right _ hi)), h.method, hgreaterIds⟩

end DataToBuildNodes.Rising

variable [LinearOrder K]

/-- A tree over consecutive samples in one dimension, with given coefficients, that is built
by a selection which averages with the largest value. -/
def RisingTree (c : ℕ → ℕ) (a m : ℕ) (t : SplitTree (Split K) ℕ) : Prop :=
  ∃ item : DataToBuildNodes K, item.Rising c a m ∧ BuiltFrom .reversing item t

namespace RisingTree

variable {c : ℕ → ℕ} {a m : ℕ} {t : SplitTree (Split K) ℕ}

/-- The tree has a leaf for each sample. -/
theorem leaves_length (h : RisingTree c a m t) : t.leaves.length = m := by
  obtain ⟨item, hitem, ht⟩ := h
  rw [ht.leaves_perm.length_eq, hitem.ids.length_eq, List.length_range']

variable [IsStrictOrderedRing K]

/-- The two sides of a tree, where the threshold lies between two samples. -/
theorem exists_sides (h : RisingTree c a m t) (hc : StrictMono c) (hm : 2 ≤ m) {p : ℕ} (hp : p ≤ m)
    (hside : ∀ x : K, (m % 2 = 1 → x = c (a + m / 2)) →
      (m % 2 = 0 → x = ((c (a + (m / 2 - 1)) : K) + c (a + (m - 1))) / 2) →
      ∀ i, a ≤ i → i < a + m → ((c i : K) ≤ x ↔ i < a + p)) :
    ∃ l r : SplitTree (Split K) ℕ, RisingTree c a p l ∧ RisingTree c (a + p) (m - p) r ∧
      l.height < t.height ∧ r.height < t.height := by
  have hleaves := h.leaves_length
  obtain ⟨item, hitem, ht⟩ := h
  cases ht with
  | leaf _ =>
    rw [leaves, List.length_singleton] at hleaves
    omega
  | @node _ d sws l r hsplit hl hr =>
    obtain rfl := hitem.dimension_eq hsplit
    obtain ⟨hodd, heven⟩ := hitem.threshold_eq hc hsplit
    obtain ⟨hless, hgreater⟩ := hitem.sides hc hsplit hp (hside _ hodd heven)
    refine ⟨l, r, ⟨_, hless, hl⟩, ⟨_, hgreater, hr⟩, ?_, ?_⟩
    · rw [height]
      omega
    · rw [height]
      omega

end RisingTree

/-- Samples in one dimension with given coefficients. -/
def risingSamples (K : Type) [Field K] (c : ℕ → ℕ) (n : ℕ) : Samples K := ⟨n, 1, fun i _ => c i⟩

variable [IsStrictOrderedRing K]

/-- They are pairwise different if their coefficients grow. -/
theorem repeatsAtMost_risingSamples {c : ℕ → ℕ} (hc : StrictMono c) (n : ℕ) :
    (risingSamples K c n).RepeatsAtMost 1 := by
  apply Samples.repeatsAtMost_of_subset fun _ i => [i]
  · exact fun _ _ => le_rfl
  · intro d _ i _ k _ heq
    exact List.mem_singleton.mpr (hc.injective (Nat.cast_injective heq))

/-- The tree over them that is built by a selection which averages with the largest value. -/
theorem exists_risingTree (c : ℕ → ℕ) {n : ℕ} (hn : 0 < n) (selector : DimensionSelectorType) :
    ∃ t : SplitTree (Split K) ℕ, RisingTree c 0 n t ∧
      BuiltFrom .reversing (rootItem (risingSamples K c n) selector .medianOfMedian) t := by
  have hvalid : (rootItem (risingSamples K c n) selector .medianOfMedian).Valid :=
    rootItem_valid hn Nat.one_pos selector .medianOfMedian
  obtain ⟨t, ht, -⟩ := hvalid.exists_builtFrom .reversing
  exact ⟨t, ⟨_, ⟨hvalid, rfl, fun _ _ => rfl, rfl, .of_eq List.range_eq_range'⟩, ht⟩, ht⟩

namespace RisingTree

variable {a m : ℕ} {t : SplitTree (Split K) ℕ}

end RisingTree

/-- Coefficients in close pairs that are far from each other. -/
def pairValue (i : ℕ) : ℕ := 4 ^ (i / 2 + 1) + i % 2

/-- The first coefficient of a pair. -/
theorem pairValue_two_mul (j : ℕ) : pairValue (2 * j) = 4 * 4 ^ j := by
  have hhalf : 2 * j / 2 = j := by omega
  have hpow : 4 ^ (j + 1) = 4 * 4 ^ j := by ring
  rw [pairValue, hhalf]
  omega

/-- The second coefficient of a pair. -/
theorem pairValue_two_mul_add_one (j : ℕ) : pairValue (2 * j + 1) = 4 * 4 ^ j + 1 := by
  have hhalf : (2 * j + 1) / 2 = j := by omega
  have hpow : 4 ^ (j + 1) = 4 * 4 ^ j := by ring
  rw [pairValue, hhalf]
  omega

/-- The coefficients grow. -/
theorem pairValue_strictMono : StrictMono pairValue := by
  apply strictMono_nat_of_lt_succ
  intro i
  rcases Nat.even_or_odd' i with ⟨j, rfl | rfl⟩
  · rw [pairValue_two_mul, pairValue_two_mul_add_one]
    omega
  · have hnext : 2 * j + 1 + 1 = 2 * (j + 1) := rfl
    have hpow : 4 ^ (j + 1) = 4 * 4 ^ j := by ring
    have hpos : 0 < 4 ^ j := Nat.pow_pos (by decide)
    rw [hnext, pairValue_two_mul, pairValue_two_mul_add_one]
    omega

/-- The threshold that selection finds for `j + 1` pairs separates the last pair from the
others. -/
theorem le_pairThreshold_iff {j i : ℕ} (hj : 0 < j) (hi : i < 2 * j + 2) :
    (pairValue i : K) ≤ ((pairValue j : K) + pairValue (2 * j + 1)) / 2 ↔ i < 2 * j := by
  obtain ⟨k, rfl⟩ : ∃ k, j = k + 1 := ⟨j - 1, by omega⟩
  have hlast := pairValue_two_mul_add_one (k + 1)
  have hfirst := pairValue_two_mul (k + 1)
  have hbefore := pairValue_two_mul_add_one k
  have hpow : 4 ^ (k + 1) = 4 * 4 ^ k := by ring
  have hpos : 0 < 4 ^ k := Nat.pow_pos (by decide)
  have hmiddle : pairValue (k + 1) ≤ pairValue (2 * k + 1) :=
    pairValue_strictMono.monotone (by omega)
  rw [le_div_iff₀ two_pos]
  norm_cast
  constructor
  · intro hle
    by_contra hge
    have hlarge : pairValue (2 * (k + 1)) ≤ pairValue i :=
      pairValue_strictMono.monotone (not_lt.mp hge)
    omega
  · intro hlt
    have hsmall : pairValue i ≤ pairValue (2 * k + 1) := pairValue_strictMono.monotone (by omega)
    omega

/-- Selection may take off one pair after the other. -/
theorem RisingTree.le_height_of_pairs {j : ℕ} {t : SplitTree (Split K) ℕ} (hj : 0 < j)
    (h : RisingTree pairValue 0 (2 * j) t) : j ≤ t.height := by
  induction j, hj using Nat.le_induction generalizing t with
  | base =>
    have hleaves : 2 ^ 0 < t.leaves.length := by
      rw [h.leaves_length]
      decide
    exact lt_height_of_lt_leaves_length hleaves
  | succ j hj ih =>
    have hhalf : 0 + (2 * (j + 1) / 2 - 1) = j := by omega
    have hlast : 0 + (2 * (j + 1) - 1) = 2 * j + 1 := by omega
    have hsides := h.exists_sides pairValue_strictMono (by omega)
      (show 2 * j ≤ 2 * (j + 1) by omega)
    rw [hhalf, hlast] at hsides
    obtain ⟨l, _, hl, -, hheight, -⟩ := hsides fun x _ hx i _ hi => by
      rw [hx (by omega), Nat.zero_add]
      exact le_pairThreshold_iff hj (by omega)
    have hdeep := ih hl
    omega

end Kdtree
