import Mathlib.Data.Multiset.Bind
import Mathlib.Logic.Relation

/-!
# Work lists processed in any order

Items are taken from a multiset one at a time, in any order. Processing an item
appends some writes to a log and feeds new items. If every item has a fixed total
of writes, made up of its own writes and the totals of the items it feeds, then
the log and the totals of the pending items always add up to the same multiset,
and every run that writes something at each step ends.
-/

namespace WorkList

variable {ι ω : Type*}

/-- The pending items, and everything written so far. -/
structure State (ι ω : Type*) where
  /-- The items that have not been processed. -/
  pending : Multiset ι
  /-- The writes made so far, in order. -/
  log : List ω

/-- One step: any pending item is processed. -/
inductive Step (Process : ι → List ω → List ι → Prop) : State ι ω → State ι ω → Prop
  | run {item : ι} {pending : Multiset ι} {log writes : List ω} {fed : List ι}
      (h : Process item writes fed) :
      Step Process ⟨item ::ₘ pending, log⟩ ⟨fed + pending, log ++ writes⟩

/-- Each valid item has a total of writes, which its own writes and the totals of
the items it feeds add up to. -/
structure Conserves (Process : ι → List ω → List ι → Prop) (Valid : ι → Prop)
    (total : ι → Multiset ω) : Prop where
  /-- An item writes something. -/
  writes_ne_nil : ∀ {item writes fed}, Valid item → Process item writes fed → writes ≠ []
  /-- Only valid items are fed. -/
  fed_valid : ∀ {item writes fed}, Valid item → Process item writes fed → ∀ i ∈ fed, Valid i
  /-- The writes of an item and the totals of what it feeds make up its total. -/
  total_eq : ∀ {item writes fed}, Valid item → Process item writes fed →
    (writes : Multiset ω) + (fed : Multiset ι).bind total = total item

/-- What has been written together with what the pending items will write. -/
def State.total (total : ι → Multiset ω) (s : State ι ω) : Multiset ω :=
  s.log + s.pending.bind total

variable {Process : ι → List ω → List ι → Prop} {Valid : ι → Prop} {total : ι → Multiset ω}

/-- A step keeps the pending items valid and the total unchanged, and adds to the log. -/
theorem Conserves.step (h : Conserves Process Valid total) {s t : State ι ω}
    (hvalid : ∀ i ∈ s.pending, Valid i) (hstep : Step Process s t) :
    (∀ i ∈ t.pending, Valid i) ∧ t.total total = s.total total ∧ s.log.length < t.log.length := by
  obtain ⟨hprocess⟩ := hstep
  rename_i item pending log writes fed
  have hitem : Valid item := hvalid item (Multiset.mem_cons_self _ _)
  refine ⟨?_, ?_, ?_⟩
  · intro i hi
    rcases Multiset.mem_add.mp hi with hfed | hpending
    · exact h.fed_valid hitem hprocess i hfed
    · exact hvalid i (Multiset.mem_cons_of_mem hpending)
  · simp only [State.total, Multiset.cons_bind, Multiset.add_bind, ← h.total_eq hitem hprocess,
      ← Multiset.coe_add]
    ac_rfl
  · have := List.length_pos_iff.mpr (h.writes_ne_nil hitem hprocess)
    simp only [List.length_append]
    omega

/-- Along every run the pending items stay valid and the total stays the same. -/
theorem Conserves.run (h : Conserves Process Valid total) {s t : State ι ω}
    (hvalid : ∀ i ∈ s.pending, Valid i) (hrun : Relation.ReflTransGen (Step Process) s t) :
    (∀ i ∈ t.pending, Valid i) ∧ t.total total = s.total total := by
  induction hrun with
  | refl => exact ⟨hvalid, rfl⟩
  | tail _ hstep ih =>
    obtain ⟨hvalid', htotal, -⟩ := h.step ih.1 hstep
    exact ⟨hvalid', htotal.trans ih.2⟩

/-- A run has at most as many steps as its total has writes. -/
theorem Conserves.length_le (h : Conserves Process Valid total) (states : ℕ → State ι ω) {n : ℕ}
    (hvalid : ∀ i ∈ (states 0).pending, Valid i)
    (hsteps : ∀ k < n, Step Process (states k) (states (k + 1))) :
    n ≤ ((states 0).total total).card := by
  have hinv : ∀ k ≤ n, (∀ i ∈ (states k).pending, Valid i) ∧
      (states k).total total = (states 0).total total ∧ k ≤ (states k).log.length := by
    intro k
    induction k with
    | zero => exact fun _ => ⟨hvalid, rfl, Nat.zero_le _⟩
    | succ k ih =>
      intro hk
      obtain ⟨hvalid', htotal, hlog⟩ := ih (by omega)
      obtain ⟨hvalid'', htotal', hlog'⟩ := h.step hvalid' (hsteps k (by omega))
      exact ⟨hvalid'', htotal'.trans htotal, by omega⟩
  obtain ⟨-, htotal, hlog⟩ := hinv n le_rfl
  rw [← htotal, State.total, Multiset.card_add, Multiset.coe_card]
  omega

/-- If every valid item can be processed, some run ends with nothing pending. -/
theorem Conserves.exists_run (h : Conserves Process Valid total)
    (hprocess : ∀ item, Valid item → ∃ writes fed, Process item writes fed) {s : State ι ω}
    (hvalid : ∀ i ∈ s.pending, Valid i) :
    ∃ t, Relation.ReflTransGen (Step Process) s t ∧ t.pending = 0 := by
  induction hn : (s.total total).card - s.log.length using Nat.strong_induction_on
    generalizing s with
  | _ n ih =>
    obtain ⟨pending, log⟩ := s
    induction pending using Multiset.induction with
    | empty => exact ⟨_, .refl, rfl⟩
    | cons item pending _ =>
      obtain ⟨writes, fed, hitem⟩ := hprocess item (hvalid item (Multiset.mem_cons_self _ _))
      have hstep : Step Process ⟨item ::ₘ pending, log⟩ ⟨fed + pending, log ++ writes⟩ := .run hitem
      obtain ⟨hvalid', htotal, hlog⟩ := h.step hvalid hstep
      have hle : (log ++ writes).length ≤
          (State.total total ⟨fed + pending, log ++ writes⟩).card := by
        simp only [State.total, Multiset.card_add, Multiset.coe_card]
        omega
      rw [htotal] at hle
      obtain ⟨t, hrun, hdone⟩ := ih _ (by rw [htotal]; dsimp only at hlog hn ⊢; omega) hvalid' rfl
      exact ⟨t, .head hstep hrun, hdone⟩

end WorkList
