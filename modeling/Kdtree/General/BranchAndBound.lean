import Kdtree.General.SplitTree
import Mathlib.Order.WithBot

/-!
# Depth-first branch and bound

A search for a leaf of least cost. Every inner node gives a bound for each of
its subtrees; a subtree is entered when its bound does not exceed the least cost
seen before the node, and the one with the smaller bound is entered first. Both
bounds are compared before either subtree is entered.
-/

namespace SplitTree

variable {σ α C : Type*} {cost : α → C} {bounds : σ → C × C}

/-- The cost of the best leaf so far, infinite before the first leaf. -/
def leastCost (cost : α → C) (best : Option α) : WithTop C := best.elim ⊤ fun b => cost b

/-- Before any leaf nothing bounds the search. -/
@[simp] theorem leastCost_none : leastCost cost none = ⊤ := rfl

/-- The best leaf bounds it by its cost. -/
@[simp] theorem leastCost_some (b : α) : leastCost cost (some b) = cost b := rfl

variable [LinearOrder C]

/-- The better of the best leaf so far and one more leaf; on a tie the earlier one stays. -/
def better (cost : α → C) (best : Option α) (a : α) : Option α :=
  if cost a < leastCost cost best then some a else best

/-- The best leaf after a subtree was searched. -/
def visit (cost : α → C) (bounds : σ → C × C) : SplitTree σ α → Option α → Option α
  | .leaf a, best => better cost best a
  | .node s left right, best =>
    if (bounds s).1 ≤ leastCost cost best ∧ (bounds s).2 ≤ leastCost cost best then
      if (bounds s).1 < (bounds s).2 then
        right.visit cost bounds (left.visit cost bounds best)
      else
        left.visit cost bounds (right.visit cost bounds best)
    else if (bounds s).1 ≤ leastCost cost best then left.visit cost bounds best
    else if (bounds s).2 ≤ leastCost cost best then right.visit cost bounds best
    else best

/-- A subtree is skipped when both bounds at its root exceed the least cost so far. -/
theorem visit_eq_of_lt_bounds {cost : α → C} {bounds : σ → C × C} {s : σ} {b : α}
    (hleft : cost b < (bounds s).1) (hright : cost b < (bounds s).2) (l r : SplitTree σ α) :
    visit cost bounds (.node s l r) (some b) = some b := by
  simp [visit, hleft.not_ge, hright.not_ge]

/-- At the start nothing is skipped, and the right side comes first unless its bound is the
larger one. -/
theorem visit_none_of_not_lt {cost : α → C} {bounds : σ → C × C} {s : σ}
    (h : ¬ (bounds s).1 < (bounds s).2) (l r : SplitTree σ α) :
    visit cost bounds (.node s l r) none = l.visit cost bounds (r.visit cost bounds none) := by
  simp [visit, h]

/-- What a visit of an inner node can do: enter both subtrees in either order,
enter one and skip the other because of its bound, or skip both. -/
theorem visit_node_cases (cost : α → C) (bounds : σ → C × C) (s : σ) (l r : SplitTree σ α)
    (best : Option α) :
    (visit cost bounds (.node s l r) best = r.visit cost bounds (l.visit cost bounds best)) ∨
    (visit cost bounds (.node s l r) best = l.visit cost bounds (r.visit cost bounds best)) ∨
    (visit cost bounds (.node s l r) best = l.visit cost bounds best ∧
      leastCost cost best < (bounds s).2) ∨
    (visit cost bounds (.node s l r) best = r.visit cost bounds best ∧
      leastCost cost best < (bounds s).1) ∨
    (visit cost bounds (.node s l r) best = best ∧ leastCost cost best < (bounds s).1 ∧
      leastCost cost best < (bounds s).2) := by
  rw [visit]
  split_ifs with hboth hlt hleft hright
  · exact .inl rfl
  · exact .inr (.inl rfl)
  · exact .inr (.inr (.inl ⟨rfl, not_le.mp fun hr => hboth ⟨hleft, hr⟩⟩))
  · exact .inr (.inr (.inr (.inl ⟨rfl, not_le.mp hleft⟩)))
  · exact .inr (.inr (.inr (.inr ⟨rfl, not_le.mp hleft, not_le.mp hright⟩)))

/-- The best leaf after a visit is a leaf of the tree or the best one before. -/
theorem mem_or_eq_of_visit {t : SplitTree σ α} {best : Option α} {b : α}
    (h : t.visit cost bounds best = some b) : b ∈ t.leaves ∨ best = some b := by
  induction t generalizing best with
  | leaf a =>
    rw [visit, better] at h
    split at h
    · exact .inl (by simpa [leaves] using h.symm)
    · exact .inr h
  | node s l r ihl ihr =>
    simp only [leaves, List.mem_append]
    rcases visit_node_cases cost bounds s l r best with
      heq | heq | ⟨heq, -⟩ | ⟨heq, -⟩ | ⟨heq, -, -⟩ <;> rw [heq] at h
    · rcases ihr h with hr | hl
      · exact .inl (.inr hr)
      · exact (ihl hl).imp .inl id
    · rcases ihl h with hl | hr
      · exact .inl (.inl hl)
      · exact (ihr hr).imp .inr id
    · exact (ihl h).imp .inl id
    · exact (ihr h).imp .inr id
    · exact .inr h

/-- In trees of the same shape with equal bounds and equal costs, corresponding visits end
with corresponding leaves. -/
theorem Corresponds.visit {τ β : Type*} {cost' : β → C} {bounds' : τ → C × C} {R : σ → τ → Prop}
    {f : α → β} {t : SplitTree σ α} {t' : SplitTree τ β} (h : Corresponds R f t t')
    (hbounds : ∀ s s', R s s' → bounds' s' = bounds s)
    (hcost : ∀ a ∈ t.leaves, cost' (f a) = cost a)
    {best : Option α} (hbest : ∀ b ∈ best, cost' (f b) = cost b) :
    t'.visit cost' bounds' (best.map f) = (t.visit cost bounds best).map f := by
  have hleast {best : Option α} (hbest : ∀ b ∈ best, cost' (f b) = cost b) :
      leastCost cost' (best.map f) = leastCost cost best := by
    cases best with
    | none => rfl
    | some b => rw [Option.map_some, leastCost_some, leastCost_some, hbest b rfl]
  induction h generalizing best with
  | leaf a =>
    simp only [SplitTree.visit, better, hleast hbest, hcost a (by simp [leaves]),
      apply_ite (Option.map f), Option.map_some]
  | @node s s' l r l' r' hlabel _ _ ihl ihr =>
    simp only [leaves, List.mem_append] at hcost
    have hl {best : Option α} (hbest : ∀ b ∈ best, cost' (f b) = cost b) :
        l'.visit cost' bounds' (best.map f) = (l.visit cost bounds best).map f :=
      ihl (fun a ha => hcost a (.inl ha)) hbest
    have hr {best : Option α} (hbest : ∀ b ∈ best, cost' (f b) = cost b) :
        r'.visit cost' bounds' (best.map f) = (r.visit cost bounds best).map f :=
      ihr (fun a ha => hcost a (.inr ha)) hbest
    -- the best leaf after the first subtree has the same cost too
    have hafter {t : SplitTree σ α} (hleaves : ∀ a ∈ t.leaves, cost' (f a) = cost a) :
        ∀ b ∈ t.visit cost bounds best, cost' (f b) = cost b := by
      intro b hb
      rcases mem_or_eq_of_visit hb with hmem | heq
      · exact hleaves b hmem
      · exact hbest b heq
    have hafterLeft := hafter fun a ha => hcost a (.inl ha)
    have hafterRight := hafter fun a ha => hcost a (.inr ha)
    simp only [SplitTree.visit, hbounds s s' hlabel, hleast hbest]
    split_ifs
    · rw [hl hbest, hr hafterLeft]
    · rw [hr hbest, hl hafterRight]
    · exact hl hbest
    · exact hr hbest
    · rfl

/-- A visit does not increase the least cost. -/
theorem leastCost_visit_le (cost : α → C) (bounds : σ → C × C) (t : SplitTree σ α)
    (best : Option α) :
    leastCost cost (t.visit cost bounds best) ≤ leastCost cost best := by
  induction t generalizing best with
  | leaf a =>
    rw [visit, better]
    split_ifs with hlt
    · exact hlt.le
    · exact le_rfl
  | node s l r ihl ihr =>
    rcases visit_node_cases cost bounds s l r best with
      heq | heq | ⟨heq, -⟩ | ⟨heq, -⟩ | ⟨heq, -, -⟩ <;> rw [heq]
    · exact (ihr _).trans (ihl _)
    · exact (ihl _).trans (ihr _)
    · exact ihl _
    · exact ihr _

/-- Which costs are good enough is settled by a condition that smaller costs
satisfy too. A good best leaf stays good. -/
theorem exists_good_of_visit {Good : C → Prop} (hGood : ∀ {c c'}, c ≤ c' → Good c' → Good c)
    (t : SplitTree σ α) {best : Option α} (h : ∃ b, best = some b ∧ Good (cost b)) :
    ∃ b, t.visit cost bounds best = some b ∧ Good (cost b) := by
  obtain ⟨b, rfl, hb⟩ := h
  have hle := leastCost_visit_le cost bounds t (some b)
  cases hc : t.visit cost bounds (some b) with
  | none => simp [hc] at hle
  | some c =>
    rw [hc, leastCost_some, leastCost_some, WithTop.coe_le_coe] at hle
    exact ⟨c, rfl, hGood hle hb⟩

/-- A bound that no cost short of good falls below rules a subtree out only when
the best leaf so far is good. -/
theorem exists_good_of_skipped {Good : C → Prop} {best : Option α} {bound : C}
    (hbound : ∀ c, ¬Good c → bound ≤ c) (hskip : leastCost cost best < bound) :
    ∃ b, best = some b ∧ Good (cost b) := by
  cases best with
  | none => exact absurd hskip (by simp)
  | some b =>
    refine ⟨b, rfl, ?_⟩
    by_contra hb
    exact absurd (hbound _ hb) (not_le.mpr (WithTop.coe_lt_coe.mp hskip))

/-- A tree with a good leaf yields a good leaf, if on the way to that leaf every
bound is at most every cost that is not good. -/
theorem visit_finds_good (Good : C → Prop) (hGood : ∀ {c c'}, c ≤ c' → Good c' → Good c)
    {t : SplitTree σ α} {a : α} (ha : a ∈ t.leaves) (hcost : Good (cost a))
    (hbounds : t.ForallNodes fun s left right =>
      (a ∈ left → ∀ c, ¬Good c → (bounds s).1 ≤ c) ∧
      (a ∈ right → ∀ c, ¬Good c → (bounds s).2 ≤ c)) (best : Option α) :
    ∃ b, t.visit cost bounds best = some b ∧ Good (cost b) := by
  induction t generalizing best with
  | leaf a' =>
    obtain rfl : a = a' := by simpa [leaves] using ha
    rw [visit, better]
    split_ifs with hlt
    · exact ⟨a, rfl, hcost⟩
    · cases best with
      | none => simp at hlt
      | some b =>
        rw [leastCost_some, WithTop.coe_lt_coe, not_lt] at hlt
        exact ⟨b, rfl, hGood hlt hcost⟩
  | node s l r ihl ihr =>
    obtain ⟨⟨hleft, hright⟩, hl, hr⟩ := hbounds
    have hcases := visit_node_cases cost bounds s l r best
    rcases List.mem_append.mp ha with hal | har
    · have hvisit := ihl hal hl
      rcases hcases with heq | heq | ⟨heq, -⟩ | ⟨heq, hskip⟩ | ⟨heq, hskip, -⟩ <;> rw [heq]
      · exact exists_good_of_visit hGood r (hvisit _)
      · exact hvisit _
      · exact hvisit _
      · exact exists_good_of_visit hGood r (exists_good_of_skipped (hleft hal) hskip)
      · exact exists_good_of_skipped (hleft hal) hskip
    · have hvisit := ihr har hr
      rcases hcases with heq | heq | ⟨heq, hskip⟩ | ⟨heq, -⟩ | ⟨heq, -, hskip⟩ <;> rw [heq]
      · exact hvisit _
      · exact exists_good_of_visit hGood l (hvisit _)
      · exact exists_good_of_visit hGood l (exists_good_of_skipped (hright har) hskip)
      · exact hvisit _
      · exact exists_good_of_skipped (hright har) hskip

/-- A search that starts without a leaf ends with one. -/
theorem exists_visit (cost : α → C) (bounds : σ → C × C) (t : SplitTree σ α) :
    ∃ b ∈ t.leaves, t.visit cost bounds none = some b := by
  obtain ⟨a, ha⟩ := List.exists_mem_of_length_pos t.leaves_length_pos
  obtain ⟨b, hb, -⟩ : ∃ b, t.visit cost bounds none = some b ∧ True :=
    visit_finds_good (fun _ => True) (fun _ _ => trivial) ha trivial (.intro (by simp) t) none
  exact ⟨b, (mem_or_eq_of_visit hb).resolve_right (by simp), hb⟩

/-- Of at most two leaves none is skipped, whatever the bounds. -/
theorem visit_cost_le_of_length_le_two {t : SplitTree σ α} (hfew : t.leaves.length ≤ 2) {a b : α}
    (ha : a ∈ t.leaves) (hb : t.visit cost bounds none = some b) : cost b ≤ cost a := by
  have hleaf (t : SplitTree σ α) (h : t.leaves.length ≤ 1) : ∃ c, t = .leaf c := by
    cases t with
    | leaf c => exact ⟨c, rfl⟩
    | node s l r =>
      have hl := l.leaves_length_pos
      have hr := r.leaves_length_pos
      rw [leaves, List.length_append] at h
      omega
  cases t with
  | leaf c =>
    obtain rfl : a = c := by simpa [leaves] using ha
    obtain rfl : a = b := by simpa [visit, better] using hb
    exact le_rfl
  | node s l r =>
    have hl := l.leaves_length_pos
    have hr := r.leaves_length_pos
    rw [leaves, List.length_append] at hfew
    obtain ⟨c, rfl⟩ := hleaf l (by omega)
    obtain ⟨d, rfl⟩ := hleaf r (by omega)
    have hmem : a = c ∨ a = d := by simpa [leaves] using ha
    simp only [visit, better, leastCost_none, leastCost_some, le_top, and_self, if_true,
      WithTop.coe_lt_top, WithTop.coe_lt_coe] at hb
    split_ifs at hb <;> obtain rfl := Option.some.inj hb <;> rcases hmem with rfl | rfl <;> grind

/-- The search ends with a leaf that costs no more than any leaf whose cost the
bounds on the way to it do not exceed. -/
theorem visit_cost_le {t : SplitTree σ α} {a b : α} (ha : a ∈ t.leaves)
    (hbounds : t.ForallNodes fun s left right =>
      (a ∈ left → (bounds s).1 ≤ cost a) ∧ (a ∈ right → (bounds s).2 ≤ cost a))
    {best : Option α} (hb : t.visit cost bounds best = some b) : cost b ≤ cost a := by
  obtain ⟨c, hc, hle⟩ := visit_finds_good (· ≤ cost a) le_trans ha le_rfl
    (hbounds.imp fun s l r h =>
      ⟨fun hl c hc => (h.1 hl).trans (not_le.mp hc).le,
        fun hr c hc => (h.2 hr).trans (not_le.mp hc).le⟩) best
  rwa [Option.some.inj (hb.symm.trans hc)]

end SplitTree
