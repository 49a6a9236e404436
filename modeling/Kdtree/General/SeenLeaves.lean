import Kdtree.General.BranchAndBound

/-!
# Which leaves a search sees

A branch and bound search skips a subtree when a leaf it has seen before costs
less than the bound of the subtree. Which leaves come before which is settled by
the bounds alone, so whether a leaf is seen depends on nothing but the costs and
the bounds: a leaf is hidden by a leaf that comes before one of the nodes on the
way to it, is seen, and costs less than the bound there. The search ends with a
least leaf if and only if one of the least leaves is seen.
-/

namespace SplitTree

variable {σ α C : Type*} [DecidableEq α] [LinearOrder C]

/-- The gates on the way to a leaf `a`, one for each inner node: the bound of the
side that `a` is on, and the leaves outside that node that come before it when
nothing is skipped. Those in `before` come before the whole tree. -/
def gates (bounds : σ → C × C) (a : α) : SplitTree σ α → List α → List (C × List α)
  | .leaf _, _ => []
  | .node s left right, before =>
    if a ∈ left.leaves then
      ((bounds s).1, before) ::
        left.gates bounds a (if (bounds s).1 < (bounds s).2 then before else before ++ right.leaves)
    else
      ((bounds s).2, before) ::
        right.gates bounds a (if (bounds s).1 < (bounds s).2 then before ++ left.leaves else before)

omit [DecidableEq α] in
/-- `Seen cost gatesOf a true`: a search that goes through the gates sees leaf `a`;
`Seen cost gatesOf a false`: leaf `a` is hidden. -/
inductive Seen (cost : α → C) (gatesOf : α → List (C × List α)) : α → Bool → Prop
  | seen {a : α} (hhidden : ∀ gate ∈ gatesOf a, ∀ u ∈ gate.2, cost u < gate.1 →
      Seen cost gatesOf u false) : Seen cost gatesOf a true
  | hidden {a u : α} {gate : C × List α} (hgate : gate ∈ gatesOf a) (hu : u ∈ gate.2)
      (hlt : cost u < gate.1) (hseen : Seen cost gatesOf u true) : Seen cost gatesOf a false

variable {cost : α → C} {bounds : σ → C × C} {gatesOf : α → List (C × List α)}

omit [DecidableEq α] in
/-- No leaf is both seen and hidden. -/
theorem Seen.unique {a : α} {b b' : Bool} (h : Seen cost gatesOf a b)
    (h' : Seen cost gatesOf a b') : b = b' := by
  induction h generalizing b' with
  | seen _ ih =>
    cases h' with
    | seen _ => rfl
    | hidden hgate hu hlt hseen => exact absurd (ih _ hgate _ hu hlt hseen) (by decide)
  | hidden hgate hu hlt _ ih =>
    cases h' with
    | seen hhidden => exact absurd (ih (hhidden _ hgate _ hu hlt)) (by decide)
    | hidden _ _ _ _ => rfl

/-- A gate lets the search through: the leaves before it that cost less than its
bound are hidden. -/
def IsOpen (cost : α → C) (gatesOf : α → List (C × List α)) (gate : C × List α) : Prop :=
  ∀ u ∈ gate.2, cost u < gate.1 → Seen cost gatesOf u false

/-- The best leaf after a search came past the leaves in `before`: it is one of
those that were seen, none of which costs less. -/
structure Searched (cost : α → C) (gatesOf : α → List (C × List α)) (before : List α)
    (best : Option α) : Prop where
  /-- The best leaf was seen. -/
  seen : ∀ b ∈ best, b ∈ before ∧ Seen cost gatesOf b true
  /-- Every leaf was hidden, or was seen and does not cost less. -/
  settled : ∀ u ∈ before, Seen cost gatesOf u false ∨
    Seen cost gatesOf u true ∧ leastCost cost best ≤ cost u

namespace Searched

omit [DecidableEq α]

variable {before : List α} {best : Option α}

/-- Nothing has been searched yet. -/
theorem start (cost : α → C) (gatesOf : α → List (C × List α)) :
    Searched cost gatesOf [] none :=
  ⟨by simp, by simp⟩

/-- The order of the leaves does not matter. -/
theorem congr (h : Searched cost gatesOf before best) {before' : List α}
    (hmem : ∀ u, u ∈ before ↔ u ∈ before') : Searched cost gatesOf before' best where
  seen b hb := ⟨(hmem b).mp (h.seen b hb).1, (h.seen b hb).2⟩
  settled u hu := h.settled u ((hmem u).mpr hu)

/-- A gate whose bound does not exceed the cost of the best leaf is open. -/
theorem isOpen (h : Searched cost gatesOf before best) {bound : C}
    (hle : bound ≤ leastCost cost best) : IsOpen cost gatesOf (bound, before) := by
  intro u hu hlt
  refine (h.settled u hu).resolve_right fun ⟨_, hcost⟩ => ?_
  exact absurd (WithTop.coe_lt_coe.mpr hlt) (not_lt.mpr (hle.trans hcost))

/-- A leaf behind a bound above the cost of the best leaf is hidden. -/
theorem hidden_of_leastCost_lt (h : Searched cost gatesOf before best) {bound : C}
    (hlt : leastCost cost best < bound) {a : α} (hgate : (bound, before) ∈ gatesOf a) :
    Seen cost gatesOf a false := by
  cases best with
  | none => exact absurd hlt (by simp)
  | some b =>
    obtain ⟨hb, hseen⟩ := h.seen b rfl
    exact .hidden hgate hb (WithTop.coe_lt_coe.mp hlt) hseen

/-- Hidden leaves need not be searched. -/
theorem append_hidden (h : Searched cost gatesOf before best) {skipped : List α}
    (hskipped : ∀ a ∈ skipped, Seen cost gatesOf a false) :
    Searched cost gatesOf (before ++ skipped) best where
  seen b hb := ⟨List.mem_append_left _ (h.seen b hb).1, (h.seen b hb).2⟩
  settled u hu := by
    rcases List.mem_append.mp hu with hmem | hmem
    · exact h.settled u hmem
    · exact .inl (hskipped u hmem)

/-- One more leaf that is seen. -/
theorem leaf (h : Searched cost gatesOf before best) {a : α} (ha : Seen cost gatesOf a true) :
    Searched cost gatesOf (before ++ [a]) (better cost best a) := by
  have hle : leastCost cost (better cost best a) ≤ leastCost cost best :=
    leastCost_visit_le cost (fun _ : Unit => (cost a, cost a)) (.leaf a) best
  refine ⟨fun b hb => ?_, fun u hu => ?_⟩
  · rw [better] at hb
    split_ifs at hb
    · obtain rfl : a = b := Option.some.inj hb
      exact ⟨by simp, ha⟩
    · exact ⟨List.mem_append_left _ (h.seen b hb).1, (h.seen b hb).2⟩
  · rcases List.mem_append.mp hu with hmem | hmem
    · exact (h.settled u hmem).imp id fun hseen => ⟨hseen.1, hle.trans hseen.2⟩
    · obtain rfl : u = a := List.mem_singleton.mp hmem
      refine .inr ⟨ha, ?_⟩
      rw [better]
      split_ifs with hlt
      · exact le_rfl
      · exact not_lt.mp hlt

end Searched

/-- The gates on the way to a leaf of the left subtree. -/
theorem gates_node_left {s : σ} {l r : SplitTree σ α} {a : α} (ha : a ∈ l.leaves)
    (before : List α) : (SplitTree.node s l r).gates bounds a before =
      ((bounds s).1, before) ::
        l.gates bounds a (if (bounds s).1 < (bounds s).2 then before else before ++ r.leaves) := by
  rw [gates, if_pos ha]

/-- The gates on the way to a leaf of the right subtree. -/
theorem gates_node_right {s : σ} {l r : SplitTree σ α} {a : α} (ha : a ∉ l.leaves)
    (before : List α) : (SplitTree.node s l r).gates bounds a before =
      ((bounds s).2, before) ::
        r.gates bounds a (if (bounds s).1 < (bounds s).2 then before ++ l.leaves else before) := by
  rw [gates, if_neg ha]

/-- `Entered t before`: for the leaves of a tree that comes after the leaves in
`before`, the gates on the way to the tree are open, and its own gates are theirs too. -/
structure Entered (cost : α → C) (bounds : σ → C × C) (gatesOf : α → List (C × List α))
    (t : SplitTree σ α) (before : List α) : Prop where
  /-- The gates inside the tree are gates of its leaves. -/
  gates_subset : ∀ a ∈ t.leaves, t.gates bounds a before ⊆ gatesOf a
  /-- All other gates of its leaves are open. -/
  isOpen : ∀ a ∈ t.leaves, ∀ gate ∈ gatesOf a, gate ∉ t.gates bounds a before →
    IsOpen cost gatesOf gate

/-- A subtree is entered through one more gate. -/
theorem Entered.child {t sub : SplitTree σ α} {before before' : List α} {bound : C}
    (h : Entered cost bounds gatesOf t before) (hleaves : sub.leaves ⊆ t.leaves)
    (hgates : ∀ a ∈ sub.leaves, t.gates bounds a before =
      (bound, before) :: sub.gates bounds a before')
    (hopen : IsOpen cost gatesOf (bound, before)) : Entered cost bounds gatesOf sub before' where
  gates_subset a ha := (List.cons_subset.mp (hgates a ha ▸ h.gates_subset a (hleaves ha))).2
  isOpen a ha gate hgate hout := by
    by_cases heq : gate = (bound, before)
    · exact heq ▸ hopen
    · exact h.isOpen a (hleaves ha) gate hgate (by simp [hgates a ha, heq, hout])

/-- Searching a tree that the search has entered. -/
theorem Searched.visit {t : SplitTree σ α} (hnodup : t.leaves.Nodup) {before : List α}
    {best : Option α} (h : Searched cost gatesOf before best)
    (hentered : Entered cost bounds gatesOf t before) :
    Searched cost gatesOf (before ++ t.leaves) (t.visit cost bounds best) := by
  induction t generalizing before best with
  | leaf a =>
    refine h.leaf (.seen fun gate hgate => ?_)
    exact hentered.isOpen a (by simp [leaves]) gate hgate (by simp [gates])
  | node s l r ihl ihr =>
    obtain ⟨hnl, hnr, hdisjoint⟩ := List.nodup_append.mp hnodup
    have hsubl : l.leaves ⊆ (SplitTree.node s l r).leaves := List.subset_append_left _ _
    have hsubr : r.leaves ⊆ (SplitTree.node s l r).leaves := List.subset_append_right _ _
    have hgatesl (a : α) (ha : a ∈ l.leaves) : (SplitTree.node s l r).gates bounds a before = _ :=
      gates_node_left ha before
    have hgatesr (a : α) (ha : a ∈ r.leaves) : (SplitTree.node s l r).gates bounds a before = _ :=
      gates_node_right (fun hal => hdisjoint a hal a ha rfl) before
    -- The bounds are compared with the best leaf before either side is entered.
    have henterl (hle : (bounds s).1 ≤ leastCost cost best) :=
      hentered.child hsubl hgatesl (h.isOpen hle)
    have henterr (hle : (bounds s).2 ≤ leastCost cost best) :=
      hentered.child hsubr hgatesr (h.isOpen hle)
    have hskipl (hlt : leastCost cost best < (bounds s).1) (a : α) (ha : a ∈ l.leaves) :
        Seen cost gatesOf a false := h.hidden_of_leastCost_lt hlt
      (hentered.gates_subset a (hsubl ha) (hgatesl a ha ▸ List.mem_cons_self))
    have hskipr (hlt : leastCost cost best < (bounds s).2) (a : α) (ha : a ∈ r.leaves) :
        Seen cost gatesOf a false := h.hidden_of_leastCost_lt hlt
      (hentered.gates_subset a (hsubr ha) (hgatesr a ha ▸ List.mem_cons_self))
    have hswap (u : α) :
        u ∈ before ++ r.leaves ++ l.leaves ↔ u ∈ before ++ l.leaves ++ r.leaves := by
      simp only [List.mem_append]
      exact or_right_comm
    rw [SplitTree.visit, leaves, ← List.append_assoc]
    split_ifs with hboth hlt hleft hright
    · simp only [if_pos hlt] at henterl henterr
      exact ihr hnr (ihl hnl h (henterl hboth.1)) (henterr hboth.2)
    · simp only [if_neg hlt] at henterl henterr
      exact (ihl hnl (ihr hnr h (henterr hboth.2)) (henterl hboth.1)).congr hswap
    · have hlt := not_le.mp fun hle => hboth ⟨hleft, hle⟩
      simp only [if_pos (WithTop.coe_lt_coe.mp (hleft.trans_lt hlt))] at henterl
      exact (ihl hnl h (henterl hleft)).append_hidden (hskipr hlt)
    · have hlt := not_le.mp hleft
      simp only [if_neg (WithTop.coe_lt_coe.mp (hright.trans_lt hlt)).not_gt] at henterr
      exact ((ihr hnr h (henterr hright)).append_hidden (hskipl hlt)).congr hswap
    · exact (h.append_hidden (hskipl (not_le.mp hleft))).append_hidden (hskipr (not_le.mp hright))

/-- The search ends with a leaf that is seen, and that costs no more than any
other leaf that is seen. -/
theorem visit_seen {t : SplitTree σ α} (hnodup : t.leaves.Nodup) {b : α}
    (hb : t.visit cost bounds none = some b) :
    b ∈ t.leaves ∧ Seen cost (t.gates bounds · []) b true ∧
      ∀ a ∈ t.leaves, Seen cost (t.gates bounds · []) a true → cost b ≤ cost a := by
  have hentered : Entered cost bounds (t.gates bounds · []) t [] :=
    ⟨fun _ _ => List.Subset.refl _, fun a _ gate hgate hout => absurd hgate hout⟩
  have h := (Searched.start cost (t.gates bounds · [])).visit hnodup hentered
  rw [hb, List.nil_append] at h
  obtain ⟨hmem, hseen⟩ := h.seen b rfl
  refine ⟨hmem, hseen, fun a ha haseen => ?_⟩
  rcases h.settled a ha with hhidden | ⟨-, hle⟩
  · exact absurd (haseen.unique hhidden) (by decide)
  · exact WithTop.coe_le_coe.mp hle

/-- The search ends with a least leaf if and only if a least leaf is seen. -/
theorem visit_least_iff {t : SplitTree σ α} (hnodup : t.leaves.Nodup) {b : α}
    (hb : t.visit cost bounds none = some b) :
    (∀ a ∈ t.leaves, cost b ≤ cost a) ↔
      ∃ a ∈ t.leaves, Seen cost (t.gates bounds · []) a true ∧
        ∀ a' ∈ t.leaves, cost a ≤ cost a' := by
  obtain ⟨hmem, hseen, hleast⟩ := visit_seen hnodup hb
  constructor
  · exact fun h => ⟨b, hmem, hseen, h⟩
  · rintro ⟨a, ha, haseen, h⟩ a' ha'
    exact (hleast a ha haseen).trans (h a' ha')

end SplitTree
