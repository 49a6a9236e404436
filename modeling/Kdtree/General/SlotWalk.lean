import Kdtree.General.SplitTree
import Mathlib.Data.Nat.Log

/-!
# Walking over slots with a stack

A walk takes a slot off a stack and may put children of it back, in any order. No
slot is ever below two slots on the stack, and none that was taken off is below a
slot that is still on it. So no slot is taken off twice, whichever children are
put back.
-/

namespace SplitTree

/-- `IsWalk popped stack`: a walk has taken the slots in `popped` off its stack, and
those in `stack` are still on it. -/
structure IsWalk (popped stack : List ℕ) : Prop where
  /-- Two slots on the stack have no slot below both. -/
  apart : stack.Pairwise fun a b => ∀ i, IsBelow a i → ¬IsBelow b i
  /-- What was taken off is not below the stack. -/
  notBelow : ∀ i ∈ popped, ∀ a ∈ stack, ¬IsBelow a i
  /-- No slot was taken off twice. -/
  nodup : popped.Nodup

/-- A slot below a child lies below the parent too. -/
theorem IsBelow.of_child {i k j : ℕ} (hk : k = leftSlot i ∨ k = rightSlot i) (h : IsBelow k j) :
    IsBelow i j := by
  rcases hk with rfl | rfl
  · exact (IsBelow.left .refl).trans h
  · exact (IsBelow.right .refl).trans h

/-- A slot is not below its own child. -/
theorem not_isBelow_child {i k : ℕ} (hk : k = leftSlot i ∨ k = rightSlot i) : ¬IsBelow k i := by
  intro h
  have hle := h.le
  rcases hk with rfl | rfl
  · unfold leftSlot at hle
    omega
  · unfold rightSlot at hle
    omega

/-- Different children of a slot have no slot below both. -/
theorem children_apart {i k k' j : ℕ} (hk : k = leftSlot i ∨ k = rightSlot i)
    (hk' : k' = leftSlot i ∨ k' = rightSlot i) (hne : k ≠ k') (h : IsBelow k j) :
    ¬IsBelow k' j := by
  intro h'
  rcases hk with rfl | rfl
  · rcases hk' with rfl | rfl
    · exact hne rfl
    · exact not_isBelow_both h h'
  · rcases hk' with rfl | rfl
    · exact not_isBelow_both h' h
    · exact hne rfl

namespace IsWalk

/-- A walk starts with one slot on its stack. -/
theorem start (root : ℕ) : IsWalk [] [root] :=
  ⟨List.pairwise_singleton _ _, by simp, List.nodup_nil⟩

/-- Taking a slot off the stack and putting different children of it back. -/
theorem pop {popped stack kids : List ℕ} {i : ℕ} (h : IsWalk popped (i :: stack))
    (hnodup : kids.Nodup) (hkids : ∀ k ∈ kids, k = leftSlot i ∨ k = rightSlot i) :
    IsWalk (popped ++ [i]) (kids ++ stack) := by
  obtain ⟨htop, hstack⟩ := List.pairwise_cons.mp h.apart
  refine ⟨List.pairwise_append.mpr ⟨?_, hstack, ?_⟩, ?_, ?_⟩
  · exact hnodup.imp_of_mem fun hk hk' hne j hj =>
      children_apart (hkids _ hk) (hkids _ hk') hne hj
  · exact fun k hk a ha j hj => htop a ha j (hj.of_child (hkids k hk))
  · intro j hj a ha
    rcases List.mem_append.mp ha with hak | has
    · rcases List.mem_append.mp hj with hjp | hji
      · exact fun hbelow => h.notBelow j hjp i List.mem_cons_self (hbelow.of_child (hkids a hak))
      · obtain rfl : j = i := List.mem_singleton.mp hji
        exact not_isBelow_child (hkids a hak)
    · rcases List.mem_append.mp hj with hjp | hji
      · exact h.notBelow j hjp a (List.mem_cons_of_mem _ has)
      · obtain rfl : j = i := List.mem_singleton.mp hji
        exact htop a has j .refl
  · refine List.nodup_append.mpr ⟨h.nodup, List.nodup_singleton i, ?_⟩
    rintro j hj k hk rfl
    obtain rfl : j = i := List.mem_singleton.mp hk
    exact h.notBelow j hj j List.mem_cons_self .refl

/-- A walk over the slots below a number takes off no more slots than that. -/
theorem length_le {popped stack : List ℕ} {n : ℕ} (h : IsWalk popped stack)
    (hlt : ∀ i ∈ popped, i < n) : popped.length ≤ n := by
  have hsub : popped ⊆ List.range n := fun i hi => List.mem_range.mpr (hlt i hi)
  have hle := (List.subperm_of_subset h.nodup hsub).length_le
  rwa [List.length_range] at hle

end IsWalk

/-- No slot on the stack has more slots below it on the stack than above it in the tree. -/
def Stacked : List ℕ → Prop
  | [] => True
  | i :: below => 2 ^ below.length ≤ i + 1 ∧ Stacked below

/-- Pushing a slot that is deep enough. -/
theorem Stacked.cons {i : ℕ} {below : List ℕ} (h : Stacked below)
    (hi : 2 ^ below.length ≤ i + 1) : Stacked (i :: below) := ⟨hi, h⟩

/-- Taking a slot off the stack and putting at most two children of it back. -/
theorem Stacked.pop {i : ℕ} {below kids : List ℕ} (h : Stacked (i :: below))
    (hlength : kids.length ≤ 2) (hkids : ∀ k ∈ kids, k = leftSlot i ∨ k = rightSlot i) :
    Stacked (kids ++ below) := by
  obtain ⟨hi, hbelow⟩ := h
  have hdeep : ∀ k ∈ kids, 2 ^ (below.length + 1) ≤ k + 1 := by
    intro k hk
    rw [pow_succ]
    rcases hkids k hk with rfl | rfl
    · unfold leftSlot
      omega
    · unfold rightSlot
      omega
  have hone : 2 ^ below.length ≤ 2 ^ (below.length + 1) :=
    Nat.pow_le_pow_right (by omega) (Nat.le_succ _)
  cases kids with
  | nil => exact hbelow
  | cons a kids =>
    have ha := hdeep a List.mem_cons_self
    cases kids with
    | nil => exact hbelow.cons (hone.trans ha)
    | cons b kids =>
      obtain rfl : kids = [] := by simpa using hlength
      have hb := hdeep b (List.mem_cons_of_mem _ List.mem_cons_self)
      exact (hbelow.cons (hone.trans hb)).cons (by simpa using ha)

/-- Such a stack of slots below a number is no longer than the number has binary digits. -/
theorem Stacked.length_le {stack : List ℕ} {n : ℕ} (h : Stacked stack) (hlt : ∀ i ∈ stack, i < n) :
    stack.length ≤ Nat.log 2 n + 1 := by
  cases stack with
  | nil => exact Nat.zero_le _
  | cons i below =>
    have hi := hlt i List.mem_cons_self
    have hle : 2 ^ below.length ≤ n := h.1.trans hi
    rw [List.length_cons]
    exact Nat.succ_le_succ (Nat.le_log_of_pow_le (by omega) hle)

end SplitTree
