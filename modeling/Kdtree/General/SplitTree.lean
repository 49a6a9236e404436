import Mathlib.Data.List.Perm.Basic
import Mathlib.Data.List.Nodup
import Mathlib.Tactic.Ring

/-!
# Full binary trees and their places in an array

A full binary tree has data at its inner nodes and at its leaves. It can be laid
out in an array that keeps the children of slot `i` in the slots `2i + 1` and
`2i + 2`. Every slot has one parent only, so two slots with a common slot below
them lie on one path, and subtrees of different children never share a slot.
-/

/-- A binary tree with a label of type `σ` at every inner node and one of type
`α` at every leaf. -/
inductive SplitTree (σ α : Type*)
  | leaf (a : α)
  | node (s : σ) (left right : SplitTree σ α)

namespace SplitTree

variable {σ τ α : Type*}

/-- The labels of the leaves, from left to right. -/
def leaves : SplitTree σ α → List α
  | .leaf a => [a]
  | .node _ left right => left.leaves ++ right.leaves

/-- The number of edges on a longest path from the root. -/
def height : SplitTree σ α → ℕ
  | .leaf _ => 0
  | .node _ left right => max left.height right.height + 1

/-- The tree with every inner label replaced by its image. -/
def mapSplits (f : σ → τ) : SplitTree σ α → SplitTree τ α
  | .leaf a => .leaf a
  | .node s left right => .node (f s) (left.mapSplits f) (right.mapSplits f)

/-- Every inner node satisfies a condition on its label and on the leaves of its
two subtrees. -/
def ForallNodes (P : σ → List α → List α → Prop) : SplitTree σ α → Prop
  | .leaf _ => True
  | .node s left right =>
    P s left.leaves right.leaves ∧ left.ForallNodes P ∧ right.ForallNodes P

/-- The slot of the left child of a slot. -/
def leftSlot (i : ℕ) : ℕ := i * 2 + 1

/-- The slot of the right child of a slot. -/
def rightSlot (i : ℕ) : ℕ := i * 2 + 2

/-- The slots and labels of a tree laid out with its root in a slot, each node
before its subtrees and the left subtree before the right one. -/
def entries : ℕ → SplitTree σ α → List (ℕ × (σ ⊕ α))
  | root, .leaf a => [(root, .inr a)]
  | root, .node s left right =>
    (root, .inl s) :: (entries (leftSlot root) left ++ entries (rightSlot root) right)

/-- `IsBelow root i`: slot `i` is `root` or is reached from it through children. -/
inductive IsBelow (root : ℕ) : ℕ → Prop
  | refl : IsBelow root root
  | left {i : ℕ} : IsBelow root i → IsBelow root (leftSlot i)
  | right {i : ℕ} : IsBelow root i → IsBelow root (rightSlot i)

/-- Other splits leave the leaves as they are. -/
@[simp] theorem leaves_mapSplits (f : σ → τ) (t : SplitTree σ α) :
    (t.mapSplits f).leaves = t.leaves := by
  induction t with
  | leaf a => rfl
  | node s left right ihl ihr => simp [mapSplits, leaves, ihl, ihr]

/-- Every tree has a leaf. -/
theorem leaves_length_pos (t : SplitTree σ α) : 0 < t.leaves.length := by
  induction t with
  | leaf a => simp [leaves]
  | node s left right ihl ihr => simp only [leaves, List.length_append]; omega

/-- A tree is not as high as it has leaves. -/
theorem height_lt_leaves_length (t : SplitTree σ α) : t.height < t.leaves.length := by
  induction t with
  | leaf a => exact Nat.one_pos
  | node s left right ihl ihr =>
    rw [height, leaves, List.length_append]
    omega

/-- A tree has no more leaves than there are paths of its height. -/
theorem leaves_length_le (t : SplitTree σ α) : t.leaves.length ≤ 2 ^ t.height := by
  induction t with
  | leaf a => exact le_rfl
  | node s left right ihl ihr =>
    rw [height, leaves, List.length_append, pow_succ]
    have hleft := Nat.pow_le_pow_right two_pos (le_max_left left.height right.height)
    have hright := Nat.pow_le_pow_right two_pos (le_max_right left.height right.height)
    omega

/-- So a tree with more leaves is higher. -/
theorem lt_height_of_lt_leaves_length {k : ℕ} {t : SplitTree σ α} (h : 2 ^ k < t.leaves.length) :
    k < t.height :=
  (Nat.pow_lt_pow_iff_right one_lt_two).mp (h.trans_le t.leaves_length_le)

/-- A condition that always holds is satisfied by every inner node. -/
theorem ForallNodes.intro {P : σ → List α → List α → Prop} (hP : ∀ s l r, P s l r)
    (t : SplitTree σ α) : t.ForallNodes P := by
  induction t with
  | leaf a => trivial
  | node s left right ihl ihr => exact ⟨hP _ _ _, ihl, ihr⟩

/-- Conditions on the inner nodes may be weakened. -/
theorem ForallNodes.imp {P Q : σ → List α → List α → Prop} {t : SplitTree σ α}
    (h : t.ForallNodes P) (hPQ : ∀ s l r, P s l r → Q s l r) : t.ForallNodes Q := by
  induction t with
  | leaf a => trivial
  | node s left right ihl ihr => exact ⟨hPQ _ _ _ h.1, ihl h.2.1, ihr h.2.2⟩

/-- A condition on the images of the inner labels is a condition on the labels. -/
theorem forallNodes_mapSplits {f : σ → τ} {P : τ → List α → List α → Prop} {t : SplitTree σ α} :
    (t.mapSplits f).ForallNodes P ↔ t.ForallNodes fun s => P (f s) := by
  induction t with
  | leaf a => exact Iff.rfl
  | node s left right ihl ihr => simp only [mapSplits, ForallNodes, leaves_mapSplits, ihl, ihr]

/-- Two trees of the same shape, whose inner labels are related and whose leaves a function
maps to each other. -/
inductive Corresponds {σ τ α β : Type*} (R : σ → τ → Prop) (f : α → β) :
    SplitTree σ α → SplitTree τ β → Prop
  | leaf (a : α) : Corresponds R f (.leaf a) (.leaf (f a))
  | node {s : σ} {s' : τ} {l r : SplitTree σ α} {l' r' : SplitTree τ β} (hlabel : R s s')
      (hleft : Corresponds R f l l') (hright : Corresponds R f r r') :
      Corresponds R f (.node s l r) (.node s' l' r')

/-- Replacing labels by related images. -/
theorem Corresponds.mapSplits {σ' τ' β : Type*} {R : σ → τ → Prop} {R' : σ' → τ' → Prop}
    {f : α → β} {g : σ → σ'} {g' : τ → τ'} {t : SplitTree σ α} {t' : SplitTree τ β}
    (h : Corresponds R f t t') (hR : ∀ s s', R s s' → R' (g s) (g' s')) :
    Corresponds R' f (t.mapSplits g) (t'.mapSplits g') := by
  induction h with
  | leaf a => exact .leaf a
  | node hlabel _ _ ihl ihr => exact .node (hR _ _ hlabel) ihl ihr

/-- Corresponding trees are equally high. -/
theorem Corresponds.height_eq {β : Type*} {R : σ → τ → Prop} {f : α → β} {t : SplitTree σ α}
    {t' : SplitTree τ β} (h : Corresponds R f t t') : t'.height = t.height := by
  induction h with
  | leaf a => rfl
  | node _ _ _ ihl ihr => rw [height, height, ihl, ihr]

/-- A tree with `m` leaves occupies `2m - 1` slots. -/
theorem entries_length (root : ℕ) (t : SplitTree σ α) :
    (entries root t).length = 2 * t.leaves.length - 1 := by
  induction t generalizing root with
  | leaf a => rfl
  | node s left right ihl ihr =>
    have := left.leaves_length_pos
    have := right.leaves_length_pos
    simp only [entries, leaves, List.length_cons, List.length_append, ihl, ihr]
    omega

/-- The path below a child continues the path below its parent. -/
theorem IsBelow.trans {a b c : ℕ} (hab : IsBelow a b) (hbc : IsBelow b c) : IsBelow a c := by
  induction hbc with
  | refl => exact hab
  | left _ ih => exact ih.left
  | right _ ih => exact ih.right

/-- Slots grow along every path. -/
theorem IsBelow.le {root i : ℕ} (h : IsBelow root i) : root ≤ i := by
  induction h with
  | refl => exact le_rfl
  | left _ ih => unfold leftSlot; omega
  | right _ ih => unfold rightSlot; omega

/-- What lies below a slot and is a left child is that slot, or its parent lies below it. -/
theorem IsBelow.eq_or_of_left {root i : ℕ} (h : IsBelow root (leftSlot i)) :
    root = leftSlot i ∨ IsBelow root i := by
  generalize hchild : leftSlot i = c at h
  unfold leftSlot at hchild
  cases h with
  | refl => exact .inl rfl
  | @left j hj =>
    obtain rfl : i = j := by unfold leftSlot at hchild; omega
    exact .inr hj
  | @right j hj => unfold rightSlot at hchild; omega

/-- What lies below a slot and is a right child is that slot, or its parent lies below it. -/
theorem IsBelow.eq_or_of_right {root i : ℕ} (h : IsBelow root (rightSlot i)) :
    root = rightSlot i ∨ IsBelow root i := by
  generalize hchild : rightSlot i = c at h
  unfold rightSlot at hchild
  cases h with
  | refl => exact .inl rfl
  | @left j hj => unfold leftSlot at hchild; omega
  | @right j hj =>
    obtain rfl : i = j := by unfold rightSlot at hchild; omega
    exact .inr hj

/-- Of two slots above the same slot, one is below the other. -/
theorem IsBelow.comparable {a b i : ℕ} (ha : IsBelow a i) (hb : IsBelow b i) :
    IsBelow a b ∨ IsBelow b a := by
  induction ha with
  | refl => exact .inr hb
  | left ha ih =>
    rcases hb.eq_or_of_left with rfl | hb
    · exact .inl ha.left
    · exact ih hb
  | right ha ih =>
    rcases hb.eq_or_of_right with rfl | hb
    · exact .inl ha.right
    · exact ih hb

/-- No slot lies below both children of a slot. -/
theorem not_isBelow_both {root i : ℕ} (hl : IsBelow (leftSlot root) i)
    (hr : IsBelow (rightSlot root) i) : False := by
  rcases hl.comparable hr with h | h
  · rcases h.eq_or_of_right with heq | hle
    · unfold leftSlot rightSlot at heq
      omega
    · have := hle.le
      unfold leftSlot at this
      omega
  · have := h.le
    unfold leftSlot rightSlot at this
    omega

/-- Every slot a tree occupies is below its root. -/
theorem isBelow_of_mem_entries {root : ℕ} {t : SplitTree σ α} {e : ℕ × (σ ⊕ α)}
    (he : e ∈ entries root t) : IsBelow root e.1 := by
  induction t generalizing root with
  | leaf a =>
    obtain rfl : e = (root, .inr a) := by simpa [entries] using he
    exact .refl
  | node s left right ihl ihr =>
    simp only [entries, List.mem_cons, List.mem_append] at he
    rcases he with rfl | hl | hr
    · exact .refl
    · exact (IsBelow.left .refl).trans (ihl hl)
    · exact (IsBelow.right .refl).trans (ihr hr)

/-- The root's slot is occupied. -/
theorem root_mem_entries (root : ℕ) (t : SplitTree σ α) :
    root ∈ (entries root t).map Prod.fst := by
  cases t <;> simp [entries]

/-- No two nodes of a tree share a slot. -/
theorem entries_slots_nodup (root : ℕ) (t : SplitTree σ α) :
    ((entries root t).map Prod.fst).Nodup := by
  induction t generalizing root with
  | leaf a => simp [entries]
  | node s left right ihl ihr =>
    have hbelow {i r : ℕ} {t : SplitTree σ α} (hi : i ∈ (entries r t).map Prod.fst) :
        IsBelow r i := by
      obtain ⟨e, he, rfl⟩ := List.mem_map.mp hi
      exact isBelow_of_mem_entries he
    simp only [entries, List.map_cons, List.map_append, List.nodup_cons, List.mem_append]
    refine ⟨?_, List.nodup_append.mpr ⟨ihl _, ihr _, ?_⟩⟩
    · rintro (hl | hr)
      · have := (hbelow hl).le
        unfold leftSlot at this
        omega
      · have := (hbelow hr).le
        unfold rightSlot at this
        omega
    · rintro i hi j hj rfl
      exact not_isBelow_both (hbelow hi) (hbelow hj)

/-- Both children of an inner node of a tree are nodes of the tree. -/
theorem children_mem_entries {root i : ℕ} {s : σ} {t : SplitTree σ α}
    (h : (i, .inl s) ∈ entries root t) :
    leftSlot i ∈ (entries root t).map Prod.fst ∧ rightSlot i ∈ (entries root t).map Prod.fst := by
  induction t generalizing root with
  | leaf a => simp [entries] at h
  | node s' left right ihl ihr =>
    simp only [entries, List.mem_cons, List.mem_append, List.map_cons, List.map_append] at h ⊢
    rcases h with heq | hl | hr
    · obtain ⟨rfl, _⟩ := Prod.mk.inj heq
      exact ⟨.inr (.inl (root_mem_entries _ _)), .inr (.inr (root_mem_entries _ _))⟩
    · obtain ⟨h1, h2⟩ := ihl hl
      exact ⟨.inr (.inl h1), .inr (.inl h2)⟩
    · obtain ⟨h1, h2⟩ := ihr hr
      exact ⟨.inr (.inr h1), .inr (.inr h2)⟩

/-- The slots down to depth `k` below a root end before `(root + 2) * 2 ^ k - 1`. -/
theorem slot_le_of_height_le {root k : ℕ} {t : SplitTree σ α} (hk : t.height ≤ k)
    {e : ℕ × (σ ⊕ α)} (he : e ∈ entries root t) : e.1 + 2 ≤ (root + 2) * 2 ^ k := by
  induction t generalizing root k with
  | leaf a =>
    obtain rfl : e = (root, .inr a) := by simpa [entries] using he
    exact Nat.le_mul_of_pos_right _ (Nat.two_pow_pos k)
  | node s left right ihl ihr =>
    simp only [height] at hk
    obtain ⟨k, rfl⟩ : ∃ j, k = j + 1 := ⟨k - 1, by omega⟩
    simp only [entries, List.mem_cons, List.mem_append] at he
    have hroot : (root + 2) * 2 ^ (k + 1) = (rightSlot root + 2) * 2 ^ k := by
      unfold rightSlot
      ring
    rw [hroot]
    rcases he with rfl | hl | hr
    · have hle := Nat.le_mul_of_pos_right (rightSlot root + 2) (Nat.two_pow_pos k)
      refine le_trans ?_ hle
      unfold rightSlot
      dsimp only
      omega
    · refine (ihl (by omega) hl).trans (Nat.mul_le_mul_right _ ?_)
      unfold leftSlot rightSlot
      omega
    · exact ihr (by omega) hr

/-- The slots at depth `k` below a root start at `(root + 1) * 2 ^ k - 1`. -/
theorem exists_slot_of_le_height {k : ℕ} {t : SplitTree σ α} (root : ℕ) (hk : k ≤ t.height) :
    ∃ e ∈ entries root t, (root + 1) * 2 ^ k ≤ e.1 + 1 := by
  induction k generalizing root t with
  | zero =>
    obtain ⟨e, he, hroot⟩ := List.mem_map.mp (root_mem_entries root t)
    exact ⟨e, he, by omega⟩
  | succ k ih =>
    cases t with
    | leaf a => simp [height] at hk
    | node s left right =>
      simp only [height] at hk
      have hleft : (root + 1) * 2 ^ (k + 1) = (leftSlot root + 1) * 2 ^ k := by
        unfold leftSlot
        ring
      simp only [entries, List.mem_cons, List.mem_append]
      rcases le_total left.height right.height with h | h
      · obtain ⟨e, he, hle⟩ := ih (t := right) (rightSlot root) (by omega)
        refine ⟨e, .inr (.inr he), le_trans ?_ hle⟩
        rw [hleft]
        apply Nat.mul_le_mul_right
        unfold leftSlot rightSlot
        omega
      · obtain ⟨e, he, hle⟩ := ih (t := left) (leftSlot root) (by omega)
        exact ⟨e, .inr (.inl he), hleft ▸ hle⟩

/-- A tree laid out from slot zero fits into `2 ^ (k + 1) - 1` slots if and only
if none of its paths has more than `k` edges. -/
theorem forall_slot_lt_iff_height_le {k : ℕ} {t : SplitTree σ α} :
    (∀ e ∈ entries 0 t, e.1 < 2 ^ (k + 1) - 1) ↔ t.height ≤ k := by
  constructor
  · intro hslots
    by_contra hheight
    obtain ⟨e, he, hle⟩ := exists_slot_of_le_height 0 (show k + 1 ≤ t.height by omega)
    have := hslots e he
    omega
  · intro hheight e he
    have hle := slot_le_of_height_le hheight he
    have hpow : (0 + 2) * 2 ^ k = 2 ^ (k + 1) := by ring
    omega

end SplitTree
