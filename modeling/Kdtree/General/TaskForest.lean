import Mathlib.Algebra.BigOperators.Group.Finset.Basic
import Mathlib.Algebra.Order.BigOperators.Group.Finset
import Mathlib.Data.Finset.Max

/-!
# Reference-counted tasks

Every task has a parent and a reference count. A task that ends lowers the count of
its parent, and a task that waits for its children holds one reference itself. As
long as the counts agree with the links, a count says whether a task has a child.
The links have no cycle, so some task has no child, and without the root there is
no task at all.
-/

namespace TaskForest

/-- The tasks that have been allocated and not freed. A task is named by its address,
which may be used again once the task has been freed. -/
structure Forest (κ : Type*) where
  /-- The addresses in use. -/
  live : Finset ℕ
  /-- The task whose count is lowered when this one ends. -/
  parent : ℕ → Option ℕ
  /-- The reference count. -/
  refCount : ℕ → ℕ
  /-- What is left for the task to do. -/
  code : ℕ → κ

namespace Forest

variable {κ M : Type*} [AddCommMonoid M]

/-- A new task at an address, with no references. -/
def allocate (f : Forest κ) (t : ℕ) (p : Option ℕ) (c : κ) : Forest κ where
  live := insert t f.live
  parent := Function.update f.parent t p
  refCount := Function.update f.refCount t 0
  code := Function.update f.code t c

/-- Another parent for a task. -/
def setParent (f : Forest κ) (t : ℕ) (p : Option ℕ) : Forest κ :=
  { f with parent := Function.update f.parent t p }

/-- Another reference count for a task. -/
def setRefCount (f : Forest κ) (t n : ℕ) : Forest κ :=
  { f with refCount := Function.update f.refCount t n }

/-- Another code for a task. -/
def setCode (f : Forest κ) (t : ℕ) (c : κ) : Forest κ :=
  { f with code := Function.update f.code t c }

/-- The address of a task is freed. -/
def destroy (f : Forest κ) (t : ℕ) : Forest κ :=
  { f with live := f.live.erase t }

/-- A new child. The count of the parent is not changed. -/
def allocateChild (f : Forest κ) (t p : ℕ) (c : κ) : Forest κ := f.allocate t (some p) c

/-- New children of one task. -/
def allocateChildren (f : Forest κ) (p : ℕ) : List (ℕ × κ) → Forest κ
  | [] => f
  | (t, c) :: rest => (f.allocateChild t p c).allocateChildren p rest

/-- A new child of a task that may already be waited for: its count is raised. -/
def allocateAdditionalChildOf (f : Forest κ) (t p : ℕ) (c : κ) : Forest κ :=
  (f.allocateChild t p c).setRefCount p (f.refCount p + 1)

/-- A new task that takes over the parent of another task. -/
def allocateContinuation (f : Forest κ) (t s : ℕ) (c : κ) : Forest κ :=
  (f.allocate t (f.parent s) c).setParent s none

/-- A task becomes the child of another one. -/
def recycleAsChildOf (f : Forest κ) (t p : ℕ) : Forest κ := f.setParent t (some p)

/-- A task ends: the count of its parent is lowered, and the task is freed. -/
def finish (f : Forest κ) (t : ℕ) : Forest κ :=
  match f.parent t with
  | some p => (f.setRefCount p (f.refCount p - 1)).destroy t
  | none => f.destroy t

/-- The sum over all tasks of an amount that depends on the parent and the code. -/
def total (f : Forest κ) (g : Option ℕ → κ → M) : M := ∑ t ∈ f.live, g (f.parent t) (f.code t)

/-- The number of children of a task. -/
def childCount (f : Forest κ) (p : ℕ) : ℕ := f.total fun q _ => if q = some p then 1 else 0

/-- The codes of all tasks. -/
def codes (f : Forest κ) : Multiset κ := f.total fun _ c => {c}

/-- The count a task already has changes nothing. -/
@[simp] theorem setRefCount_refCount (f : Forest κ) (t : ℕ) :
    f.setRefCount t (f.refCount t) = f := by
  simp only [setRefCount, Function.update_eq_self]

section Total

variable {f : Forest κ} {t : ℕ} (g : Option ℕ → κ → M)

/-- A new task adds its own amount. -/
theorem total_allocate (ht : t ∉ f.live) (p : Option ℕ) (c : κ) :
    (f.allocate t p c).total g = g p c + f.total g := by
  have hrest : ∀ s ∈ f.live, g (Function.update f.parent t p s) (Function.update f.code t c s) =
      g (f.parent s) (f.code s) := by
    intro s hs
    have hne : s ≠ t := fun h => ht (h ▸ hs)
    rw [Function.update_of_ne hne, Function.update_of_ne hne]
  simp only [total, allocate, Finset.sum_insert ht, Function.update_self]
  rw [Finset.sum_congr rfl hrest]

/-- A freed task takes its own amount away. -/
theorem total_destroy (ht : t ∈ f.live) :
    g (f.parent t) (f.code t) + (f.destroy t).total g = f.total g :=
  Finset.add_sum_erase f.live (fun s => g (f.parent s) (f.code s)) ht

/-- Two forests that differ in the parent and the code of one task differ in its amount. -/
theorem total_of_eqOn (f f' : Forest κ) (hlive : f'.live = f.live) (ht : t ∈ f.live)
    (h : ∀ s ≠ t, f'.parent s = f.parent s ∧ f'.code s = f.code s) :
    g (f.parent t) (f.code t) + f'.total g = g (f'.parent t) (f'.code t) + f.total g := by
  have hrest : ∑ s ∈ f.live.erase t, g (f'.parent s) (f'.code s) =
      ∑ s ∈ f.live.erase t, g (f.parent s) (f.code s) := by
    apply Finset.sum_congr rfl
    intro s hs
    rw [(h s (Finset.ne_of_mem_erase hs)).1, (h s (Finset.ne_of_mem_erase hs)).2]
  rw [total, total, hlive, ← Finset.add_sum_erase _ _ ht, ← Finset.add_sum_erase _ _ ht, hrest]
  ac_rfl

/-- Another parent exchanges the amount of the task. -/
theorem total_setParent (ht : t ∈ f.live) (p : Option ℕ) :
    g (f.parent t) (f.code t) + (f.setParent t p).total g = g p (f.code t) + f.total g := by
  have h : g (f.parent t) (f.code t) + (f.setParent t p).total g =
      g (Function.update f.parent t p t) (f.code t) + f.total g := by
    apply total_of_eqOn g f (f.setParent t p) rfl ht
    intro s hs
    exact ⟨Function.update_of_ne hs _ _, rfl⟩
  rwa [Function.update_self] at h

/-- Another code exchanges the amount of the task. -/
theorem total_setCode (ht : t ∈ f.live) (c : κ) :
    g (f.parent t) (f.code t) + (f.setCode t c).total g = g (f.parent t) c + f.total g := by
  have h : g (f.parent t) (f.code t) + (f.setCode t c).total g =
      g (f.parent t) (Function.update f.code t c t) + f.total g := by
    apply total_of_eqOn g f (f.setCode t c) rfl ht
    intro s hs
    exact ⟨rfl, Function.update_of_ne hs _ _⟩
  rwa [Function.update_self] at h

end Total

section Codes

variable {f : Forest κ} {s t : ℕ}

/-- The code of one task and the codes of all others. -/
theorem codes_eq (ht : t ∈ f.live) : f.codes = {f.code t} + (f.destroy t).codes :=
  (total_destroy (fun _ c => ({c} : Multiset κ)) ht).symm

/-- The codes are those of the tasks in use. -/
theorem mem_codes_iff {c : κ} : c ∈ f.codes ↔ ∃ t ∈ f.live, f.code t = c := by
  simp [codes, total, Multiset.mem_sum, eq_comm]

/-- A count is no part of a code. -/
@[simp] theorem codes_setRefCount (n : ℕ) : (f.setRefCount t n).codes = f.codes := rfl

/-- A count set before a task is freed changes no code. -/
@[simp] theorem codes_destroy_setRefCount (n : ℕ) :
    ((f.setRefCount s n).destroy t).codes = (f.destroy t).codes := rfl

/-- A parent is no part of a code. -/
@[simp] theorem codes_setParent (p : Option ℕ) : (f.setParent t p).codes = f.codes := rfl

/-- Another code replaces the code of its task and no other. -/
theorem codes_setCode (ht : t ∈ f.live) (c : κ) {r : Multiset κ}
    (h : f.codes = {f.code t} + r) : (f.setCode t c).codes = {c} + r := by
  have hset : {f.code t} + (f.setCode t c).codes = {c} + f.codes :=
    total_setCode (fun _ c => ({c} : Multiset κ)) ht c
  rw [h] at hset
  apply add_left_cancel (a := {f.code t})
  rw [hset]
  ac_rfl

/-- A new child adds its code. -/
theorem codes_allocateChild (ht : t ∉ f.live) (p : ℕ) (c : κ) :
    (f.allocateChild t p c).codes = {c} + f.codes :=
  total_allocate (fun _ c => ({c} : Multiset κ)) ht (some p) c

/-- A continuation adds its code. -/
theorem codes_allocateContinuation (ht : t ∉ f.live) (c : κ) :
    (f.allocateContinuation t s c).codes = {c} + f.codes :=
  total_allocate (fun _ c => ({c} : Multiset κ)) ht (f.parent s) c

/-- A task that ends takes its code away, whatever its parent is. -/
theorem codes_finish : (f.finish t).codes = (f.destroy t).codes := by
  rw [finish]
  split <;> rfl

/-- Addresses at which new tasks can be placed. -/
def Fresh (f : Forest κ) (ids : List ℕ) : Prop := ids.Nodup ∧ ∀ t ∈ ids, t ∉ f.live

instance (f : Forest κ) (ids : List ℕ) : Decidable (f.Fresh ids) :=
  inferInstanceAs (Decidable (ids.Nodup ∧ ∀ t ∈ ids, t ∉ f.live))

/-- There is always room for new tasks. -/
theorem exists_fresh (f : Forest κ) (n : ℕ) : ∃ ids : List ℕ, ids.length = n ∧ f.Fresh ids := by
  refine ⟨(List.range n).map fun k => f.live.sup id + 1 + k, by simp, ?_, ?_⟩
  · exact List.nodup_range.map fun i j hij => Nat.add_left_cancel hij
  · intro t ht hlive
    obtain ⟨k, -, rfl⟩ := List.mem_map.mp ht
    have hle : f.live.sup id + 1 + k ≤ f.live.sup id := Finset.le_sup (f := id) hlive
    omega

/-- The other addresses stay free when a child takes the first one. -/
theorem Fresh.tail {ids : List ℕ} (h : f.Fresh (t :: ids)) (p : ℕ) (c : κ) :
    (f.allocateChild t p c).Fresh ids := by
  obtain ⟨hnodup, hfresh⟩ := h
  obtain ⟨hnotMem, hnodup⟩ := List.nodup_cons.mp hnodup
  refine ⟨hnodup, ?_⟩
  intro s hs hlive
  rcases Finset.mem_insert.mp hlive with rfl | hlive
  · exact hnotMem hs
  · exact hfresh s (List.mem_cons_of_mem t hs) hlive

/-- New children add their codes. -/
theorem codes_allocateChildren (p : ℕ) (l : List (ℕ × κ)) (h : f.Fresh (l.map Prod.fst)) :
    (f.allocateChildren p l).codes = (l.map Prod.snd : Multiset κ) + f.codes := by
  induction l generalizing f with
  | nil => simp [allocateChildren]
  | cons x l ih =>
    have hx : x.1 ∉ f.live := h.2 x.1 (by simp)
    rw [allocateChildren, ih (h.tail p x.2), codes_allocateChild hx, List.map_cons,
      ← Multiset.cons_coe, ← Multiset.singleton_add]
    ac_rfl

/-- New children leave the other tasks as they are. -/
theorem allocateChildren_of_mem {q : ℕ} (hq : q ∈ f.live) (p : ℕ) (l : List (ℕ × κ))
    (h : f.Fresh (l.map Prod.fst)) : q ∈ (f.allocateChildren p l).live ∧
      (f.allocateChildren p l).refCount q = f.refCount q ∧
      (f.allocateChildren p l).code q = f.code q := by
  induction l generalizing f with
  | nil => exact ⟨hq, rfl, rfl⟩
  | cons x l ih =>
    have hqx : q ≠ x.1 := fun heq => h.2 x.1 (by simp) (heq ▸ hq)
    obtain ⟨hlive, hcount, hcode⟩ := ih (Finset.mem_insert_of_mem hq) (h.tail p x.2)
    exact ⟨hlive, hcount.trans (Function.update_of_ne hqx _ _),
      hcode.trans (Function.update_of_ne hqx _ _)⟩

/-- A task is an old one or one of the new children. -/
theorem allocateChildren_of_notMem {q : ℕ} (p : ℕ) (l : List (ℕ × κ))
    (h : f.Fresh (l.map Prod.fst)) (hq : q ∈ (f.allocateChildren p l).live) (hold : q ∉ f.live) :
    (f.allocateChildren p l).refCount q = 0 ∧
      ∃ x ∈ l, (f.allocateChildren p l).code q = x.2 := by
  induction l generalizing f with
  | nil => exact absurd hq hold
  | cons x l ih =>
    by_cases hqx : q = x.1
    · subst hqx
      obtain ⟨-, hcount, hcode⟩ := allocateChildren_of_mem (f := f.allocateChild x.1 p x.2)
        (Finset.mem_insert_self x.1 f.live) p l (h.tail p x.2)
      exact ⟨hcount.trans (Function.update_self _ _ _), x, List.mem_cons_self,
        hcode.trans (Function.update_self _ _ _)⟩
    · have hold' : q ∉ (f.allocateChild x.1 p x.2).live := by
        intro hmem
        exact hold (Finset.mem_of_mem_insert_of_ne hmem hqx)
      obtain ⟨hcount, y, hy, hcode⟩ := ih (h.tail p x.2) hq hold'
      exact ⟨hcount, y, List.mem_cons_of_mem x hy, hcode⟩

/-- A continuation and the new child under it add their codes. -/
theorem codes_continueWith {c b : ℕ} (hc : c ∉ f.live) (hb : b ∉ f.live) (hbc : b ≠ c) (n : ℕ)
    (x y : κ) : ((((f.allocateContinuation c t x).allocateChild b c y).recycleAsChildOf t
      c).setRefCount c n).codes = {y} + ({x} + f.codes) := by
  have hb' : b ∉ (f.allocateContinuation c t x).live := by
    simp [allocateContinuation, setParent, allocate, hbc, hb]
  rw [codes_setRefCount, recycleAsChildOf, codes_setParent, codes_allocateChild hb',
    codes_allocateContinuation hc]

/-- The task under a continuation keeps its code. -/
theorem code_continueWith {c b : ℕ} (ht : t ∈ f.live) (hc : c ∉ f.live) (hb : b ∉ f.live) (n : ℕ)
    (x y : κ) : ((((f.allocateContinuation c t x).allocateChild b c y).recycleAsChildOf t
      c).setRefCount c n).code t = f.code t := by
  have htc : t ≠ c := fun heq => hc (heq ▸ ht)
  have htb : t ≠ b := fun heq => hb (heq ▸ ht)
  simp only [setRefCount, recycleAsChildOf, setParent, allocateChild, allocateContinuation,
    allocate, Function.update_of_ne htb, Function.update_of_ne htc]

end Codes

section ChildCount

variable {f : Forest κ} {t : ℕ}

/-- A count is not a link. -/
@[simp] theorem childCount_setRefCount (n q : ℕ) :
    (f.setRefCount t n).childCount q = f.childCount q := rfl

/-- A code is not a link. -/
theorem childCount_setCode (ht : t ∈ f.live) (c : κ) (q : ℕ) :
    (f.setCode t c).childCount q = f.childCount q :=
  Nat.add_left_cancel (total_setCode (fun p _ => if p = some q then 1 else 0) ht c)

/-- A new task is one more child of its parent and of no other task. -/
theorem childCount_allocate (ht : t ∉ f.live) (p : Option ℕ) (c : κ) (q : ℕ) :
    (f.allocate t p c).childCount q = (if p = some q then 1 else 0) + f.childCount q :=
  total_allocate _ ht p c

/-- New children are children of their parent only. -/
theorem childCount_allocateChildren (p : ℕ) (l : List (ℕ × κ)) (h : f.Fresh (l.map Prod.fst))
    (q : ℕ) : (f.allocateChildren p l).childCount q =
      (if p = q then l.length else 0) + f.childCount q := by
  induction l generalizing f with
  | nil => simp [allocateChildren]
  | cons x l ih =>
    have hx : x.1 ∉ f.live := h.2 x.1 (by simp)
    rw [allocateChildren, ih (h.tail p x.2), allocateChild, childCount_allocate hx]
    simp only [Option.some.injEq, List.length_cons]
    split_ifs <;> omega

/-- Another parent gains the child that the old parent loses. -/
theorem childCount_setParent (ht : t ∈ f.live) (p : Option ℕ) (q : ℕ) :
    (if f.parent t = some q then 1 else 0) + (f.setParent t p).childCount q =
      (if p = some q then 1 else 0) + f.childCount q :=
  total_setParent (fun r _ => if r = some q then 1 else 0) ht p

/-- A freed task is one child less of its parent. -/
theorem childCount_destroy (ht : t ∈ f.live) (q : ℕ) :
    (if f.parent t = some q then 1 else 0) + (f.destroy t).childCount q = f.childCount q :=
  total_destroy (fun r _ => if r = some q then 1 else 0) ht

/-- A task has no children when no task names it as its parent. -/
theorem childCount_eq_zero_iff {p : ℕ} :
    f.childCount p = 0 ↔ ∀ t ∈ f.live, f.parent t ≠ some p := by
  simp [childCount, total]

end ChildCount

section All

variable {f : Forest κ} {P : ℕ → κ → Prop} {t p : ℕ} {c : κ}

/-- Something holds of every task and its code. -/
def All (P : ℕ → κ → Prop) (f : Forest κ) : Prop := ∀ t ∈ f.live, P t (f.code t)

/-- A task may take a code of which it holds. -/
theorem All.setCode (h : f.All P) (hc : P t c) : (f.setCode t c).All P := by
  intro s hs
  by_cases hst : s = t
  · subst hst
    simpa only [Forest.setCode, Function.update_self] using hc
  · simpa only [Forest.setCode, Function.update_of_ne hst] using h s hs

/-- A new task may have a code of which it holds. -/
theorem All.allocate (h : f.All P) (q : Option ℕ) (c : κ) (hc : P t c) :
    (f.allocate t q c).All P := by
  intro s hs
  by_cases hst : s = t
  · subst hst
    simpa only [Forest.allocate, Function.update_self] using hc
  · simpa only [Forest.allocate, Function.update_of_ne hst] using
      h s (Finset.mem_of_mem_insert_of_ne hs hst)

/-- New children may have codes of which it holds. -/
theorem All.allocateChildren (h : f.All P) (l : List (ℕ × κ)) (hl : ∀ x ∈ l, P x.1 x.2) :
    (f.allocateChildren p l).All P := by
  induction l generalizing f with
  | nil => exact h
  | cons x l ih =>
    apply ih (h.allocate (some p) x.2 (hl x List.mem_cons_self))
    exact fun y hy => hl y (List.mem_cons_of_mem x hy)

/-- It still holds of the others when a task is freed. -/
theorem All.destroy (h : f.All P) (t : ℕ) : (f.destroy t).All P :=
  fun s hs => h s (Finset.mem_of_mem_erase hs)

/-- It still holds of the others when a task ends. -/
theorem All.finish (h : f.All P) (t : ℕ) : (f.finish t).All P := by
  rw [Forest.finish]
  split
  next p _ => exact All.destroy (f := f.setRefCount p (f.refCount p - 1)) h t
  next => exact h.destroy t

end All

end Forest

open Forest

variable {κ : Type*} {f : Forest κ} {root : ℕ}

/-- The parents of tasks are tasks, only the root has none, and the links have no cycle. -/
structure Rooted (root : ℕ) (f : Forest κ) : Prop where
  /-- A parent has not been freed. -/
  parent_mem : ∀ t ∈ f.live, ∀ p, f.parent t = some p → p ∈ f.live
  /-- A task without a parent is the root. -/
  eq_root : ∀ t ∈ f.live, f.parent t = none → t = root
  /-- Some rank grows from every parent to its children. -/
  acyclic : ∃ rank : ℕ → ℕ, ∀ t ∈ f.live, ∀ p, f.parent t = some p → rank p < rank t

namespace Rooted

/-- A task that is not in use has no children. -/
theorem childCount_of_notMem (h : Rooted root f) {t : ℕ} (ht : t ∉ f.live) :
    f.childCount t = 0 := by
  rw [childCount_eq_zero_iff]
  intro s hs hparent
  exact ht (h.parent_mem s hs t hparent)

/-- No task is its own parent. -/
theorem parent_ne_self (h : Rooted root f) {t p : ℕ} (ht : t ∈ f.live)
    (hp : f.parent t = some p) : p ≠ t := by
  obtain ⟨rank, hrank⟩ := h.acyclic
  rintro rfl
  exact absurd (hrank p ht p hp) (lt_irrefl _)

/-- Some task has no child. -/
theorem exists_childCount_eq_zero (h : Rooted root f) (hne : f.live.Nonempty) :
    ∃ t ∈ f.live, f.childCount t = 0 := by
  obtain ⟨rank, hrank⟩ := h.acyclic
  obtain ⟨t, ht, hmax⟩ := f.live.exists_max_image rank hne
  refine ⟨t, ht, ?_⟩
  rw [childCount_eq_zero_iff]
  intro s hs hparent
  have hlt := hrank s hs t hparent
  have hle := hmax s hs
  omega

/-- As long as there is a task, there is the root, and it has no parent. -/
theorem root_mem (h : Rooted root f) (hne : f.live.Nonempty) :
    root ∈ f.live ∧ f.parent root = none := by
  obtain ⟨rank, hrank⟩ := h.acyclic
  obtain ⟨t, ht, hmin⟩ := f.live.exists_min_image rank hne
  cases hparent : f.parent t with
  | none =>
    obtain rfl := h.eq_root t ht hparent
    exact ⟨ht, hparent⟩
  | some p =>
    have hlt := hrank t ht p hparent
    have hle := hmin p (h.parent_mem t ht p hparent)
    omega

/-- Without the root there is no task. -/
theorem live_eq_empty (h : Rooted root f) (hroot : root ∉ f.live) : f.live = ∅ := by
  by_contra hne
  exact hroot (h.root_mem (Finset.nonempty_iff_ne_empty.mpr hne)).1

/-- Every task but the root has a parent that is in use. -/
theorem exists_parent (h : Rooted root f) {t : ℕ} (ht : t ∈ f.live) (hroot : t ≠ root) :
    ∃ p ∈ f.live, f.parent t = some p := by
  cases hparent : f.parent t with
  | none => exact absurd (h.eq_root t ht hparent) hroot
  | some p => exact ⟨p, h.parent_mem t ht p hparent, rfl⟩

/-- A new child of a task in use keeps the links in order. -/
theorem allocateChild (h : Rooted root f) {t p : ℕ} (ht : t ∉ f.live) (hp : p ∈ f.live) (c : κ) :
    Rooted root (f.allocateChild t p c) := by
  have hold : ∀ s ∈ f.live, Function.update f.parent t (some p) s = f.parent s := by
    intro s hs
    apply Function.update_of_ne
    rintro rfl
    exact ht hs
  constructor
  · intro s hs q hq
    rcases Finset.mem_insert.mp hs with rfl | hs
    · obtain rfl : p = q := by simpa [Forest.allocateChild, allocate] using hq
      exact Finset.mem_insert_of_mem hp
    · exact Finset.mem_insert_of_mem (h.parent_mem s hs q ((hold s hs).symm.trans hq))
  · intro s hs hnone
    rcases Finset.mem_insert.mp hs with rfl | hs
    · simp [Forest.allocateChild, allocate] at hnone
    · exact h.eq_root s hs ((hold s hs).symm.trans hnone)
  · obtain ⟨rank, hrank⟩ := h.acyclic
    refine ⟨Function.update rank t (rank p + 1), ?_⟩
    intro s hs q hq
    rcases Finset.mem_insert.mp hs with rfl | hs
    · obtain rfl : p = q := by simpa [Forest.allocateChild, allocate] using hq
      have hne : p ≠ s := fun heq => ht (heq ▸ hp)
      rw [Function.update_self, Function.update_of_ne hne]
      omega
    · have hparent := (hold s hs).symm.trans hq
      have hst : s ≠ t := fun heq => ht (heq ▸ hs)
      have hqt : q ≠ t := fun heq => ht (heq ▸ h.parent_mem s hs q hparent)
      rw [Function.update_of_ne hst, Function.update_of_ne hqt]
      exact hrank s hs q hparent

/-- So do new children. -/
theorem allocateChildren (h : Rooted root f) {p : ℕ} (hp : p ∈ f.live) (l : List (ℕ × κ))
    (hfresh : f.Fresh (l.map Prod.fst)) : Rooted root (f.allocateChildren p l) := by
  induction l generalizing f with
  | nil => exact h
  | cons x l ih =>
    have hx : x.1 ∉ f.live := hfresh.2 x.1 (by simp)
    exact ih (h.allocateChild hx hp x.2) (Finset.mem_insert_of_mem hp) (hfresh.tail p x.2)

/-- A task without children can be freed. -/
theorem destroy (h : Rooted root f) {t : ℕ} (hchild : f.childCount t = 0) :
    Rooted root (f.destroy t) := by
  rw [childCount_eq_zero_iff] at hchild
  obtain ⟨rank, hrank⟩ := h.acyclic
  refine ⟨?_, fun s hs => h.eq_root s (Finset.mem_of_mem_erase hs), rank,
    fun s hs => hrank s (Finset.mem_of_mem_erase hs)⟩
  intro s hs p hp
  apply Finset.mem_erase.mpr
  refine ⟨?_, h.parent_mem s (Finset.mem_of_mem_erase hs) p hp⟩
  rintro rfl
  exact hchild s (Finset.mem_of_mem_erase hs) hp

/-- The links do not depend on a count, -/
theorem setRefCount (h : Rooted root f) (t n : ℕ) : Rooted root (f.setRefCount t n) :=
  ⟨h.parent_mem, h.eq_root, h.acyclic⟩

/-- nor on a code. -/
theorem setCode (h : Rooted root f) (t : ℕ) (c : κ) : Rooted root (f.setCode t c) :=
  ⟨h.parent_mem, h.eq_root, h.acyclic⟩

/-- A task hands its place to a continuation and becomes its child, next to a new
child. -/
theorem continueWith (h : Rooted root f) {t p c b : ℕ} (ht : t ∈ f.live)
    (hparent : f.parent t = some p) (hc : c ∉ f.live) (hb : b ∉ f.live) (hbc : b ≠ c) (x y : κ) :
    Rooted root (((f.allocateContinuation c t x).allocateChild b c y).recycleAsChildOf t c) := by
  have hct : c ≠ t := fun heq => hc (heq ▸ ht)
  have hbt : b ≠ t := fun heq => hb (heq ▸ ht)
  have hp : p ∈ f.live := h.parent_mem t ht p hparent
  -- the parent links afterwards, for the three tasks concerned and for all others
  have hnew : ∀ s q, (((f.allocateContinuation c t x).allocateChild b c y).recycleAsChildOf
      t c).parent s = some q → (s = t ∧ q = c) ∨ (s = b ∧ q = c) ∨ (s = c ∧ q = p) ∨
        (s ≠ t ∧ s ≠ b ∧ s ≠ c ∧ f.parent s = some q) := by
    intro s q hq
    simp only [recycleAsChildOf, Forest.allocateChild, allocateContinuation, setParent, allocate,
      Function.update_apply] at hq
    grind
  constructor
  · intro s hs q hq
    simp only [recycleAsChildOf, Forest.allocateChild, allocateContinuation, setParent, allocate,
      Finset.mem_insert] at hs ⊢
    rcases hnew s q hq with ⟨-, rfl⟩ | ⟨-, rfl⟩ | ⟨-, rfl⟩ | ⟨hst, hsb, hsc, hq⟩
    · exact Or.inr (Or.inl rfl)
    · exact Or.inr (Or.inl rfl)
    · exact Or.inr (Or.inr hp)
    · exact Or.inr (Or.inr (h.parent_mem s (by tauto) q hq))
  · intro s hs hnone
    simp only [recycleAsChildOf, Forest.allocateChild, allocateContinuation, setParent, allocate,
      Function.update_apply, Finset.mem_insert] at hs hnone
    apply h.eq_root s <;> grind
  · obtain ⟨rank, hrank⟩ := h.acyclic
    have hlt := hrank t ht p hparent
    -- the old ranks doubled leave room for the continuation
    refine ⟨fun s => if s = c then 2 * rank t - 1 else if s = b then 2 * rank t else 2 * rank s, ?_⟩
    intro s hs q hq
    simp only [recycleAsChildOf, Forest.allocateChild, allocateContinuation, setParent, allocate,
      Finset.mem_insert] at hs
    have hpc : p ≠ c := fun heq => hc (heq ▸ hp)
    have hpb : p ≠ b := fun heq => hb (heq ▸ hp)
    rcases hnew s q hq with ⟨rfl, rfl⟩ | ⟨rfl, rfl⟩ | ⟨rfl, rfl⟩ | ⟨hst, hsb, hsc, hq⟩
    · simp only [if_true, if_neg hct.symm, if_neg hbt.symm]
      omega
    · simp only [if_true, if_neg hbc]
      omega
    · simp only [if_true, if_neg hpc, if_neg hpb]
      omega
    · have hs' : s ∈ f.live := by tauto
      have hq' : q ∈ f.live := h.parent_mem s hs' q hq
      have hqc : q ≠ c := fun heq => hc (heq ▸ hq')
      have hqb : q ≠ b := fun heq => hb (heq ▸ hq')
      have hrank' := hrank s hs' q hq
      simp only [if_neg hsc, if_neg hsb, if_neg hqc, if_neg hqb]
      omega

end Rooted

/-- The counts agree with the links: a task has as many references as children, and
one more while it waits for them. Only tasks with certain codes have children. -/
structure WellFormed (waits : κ → ℕ) (forks : κ → Prop) (root : ℕ) (f : Forest κ) : Prop where
  /-- The links form a tree. -/
  rooted : Rooted root f
  /-- The references of a task. -/
  refCount_eq : ∀ p ∈ f.live, f.refCount p = f.childCount p + waits (f.code p)
  /-- Tasks that have no children. -/
  childCount_eq_zero : ∀ p ∈ f.live, ¬ forks (f.code p) → f.childCount p = 0

namespace WellFormed

variable {waits : κ → ℕ} {forks : κ → Prop}

/-- A task may take a code with the same references that still allows its children. -/
theorem setCode (h : WellFormed waits forks root f) {t : ℕ} (ht : t ∈ f.live) {c : κ}
    (hwaits : waits c = waits (f.code t)) (hforks : forks (f.code t) → forks c) :
    WellFormed waits forks root (f.setCode t c) := by
  refine ⟨h.rooted.setCode t c, ?_, ?_⟩
  · intro q hq
    rw [childCount_setCode ht]
    have hcount := h.refCount_eq q hq
    by_cases hqt : q = t
    · subst hqt
      simp only [Forest.setCode, Function.update_self]
      omega
    · simp only [Forest.setCode, Function.update_of_ne hqt]
      omega
  · intro q hq hcode
    rw [childCount_setCode ht]
    apply h.childCount_eq_zero q hq
    by_cases hqt : q = t
    · subst hqt
      simp only [Forest.setCode, Function.update_self] at hcode
      exact fun hold => hcode (hforks hold)
    · simpa only [Forest.setCode, Function.update_of_ne hqt] using hcode

/-- A new child whose parent counts it keeps the counts right. -/
theorem allocateAdditionalChildOf (h : WellFormed waits forks root f) {t p : ℕ} (ht : t ∉ f.live)
    (hp : p ∈ f.live) (hforks : forks (f.code p)) {c : κ} (hwaits : waits c = 0) :
    WellFormed waits forks root (f.allocateAdditionalChildOf t p c) := by
  have hpt : p ≠ t := fun heq => ht (heq ▸ hp)
  have hcount : ∀ q, (f.allocateAdditionalChildOf t p c).childCount q =
      (if some p = some q then 1 else 0) + f.childCount q := childCount_allocate ht (some p) c
  have hnone : f.childCount t = 0 := h.rooted.childCount_of_notMem ht
  refine ⟨(h.rooted.allocateChild ht hp c).setRefCount p _, ?_, ?_⟩
  · intro q hq
    rw [hcount]
    rcases Finset.mem_insert.mp hq with rfl | hq
    · simp [Forest.allocateAdditionalChildOf, setRefCount, Forest.allocateChild, allocate, hpt,
        hpt.symm, hnone, hwaits]
    · have hqt : q ≠ t := fun heq => ht (heq ▸ hq)
      have hold := h.refCount_eq q hq
      by_cases hqp : q = p
      · subst hqp
        simp only [Forest.allocateAdditionalChildOf, setRefCount, Forest.allocateChild, allocate,
          Function.update_self, Function.update_of_ne hqt, if_true]
        omega
      · have hpq : ¬ some p = some q := fun heq => hqp (Option.some.inj heq).symm
        simp only [Forest.allocateAdditionalChildOf, setRefCount, Forest.allocateChild, allocate,
          Function.update_of_ne hqt, Function.update_of_ne hqp, if_neg hpq]
        omega
  · intro q hq hcode
    rw [hcount]
    rcases Finset.mem_insert.mp hq with rfl | hq
    · simp [hpt, hnone]
    · have hqt : q ≠ t := fun heq => ht (heq ▸ hq)
      simp only [Forest.allocateAdditionalChildOf, setRefCount, Forest.allocateChild, allocate,
        Function.update_of_ne hqt] at hcode
      have hpq : ¬ some p = some q := by
        rintro ⟨⟩
        exact hcode hforks
      rw [if_neg hpq, h.childCount_eq_zero q hq hcode]

/-- A task without children ends. Whatever its own count has been set to, the counts
of the others stay right. -/
theorem finish (h : WellFormed waits forks root f) {t : ℕ} (ht : t ∈ f.live) (hroot : t ≠ root)
    (hchild : f.childCount t = 0) (n : ℕ) :
    WellFormed waits forks root ((f.setRefCount t n).finish t) := by
  obtain ⟨p, hp, hparent⟩ := h.rooted.exists_parent ht hroot
  have hpt : p ≠ t := h.rooted.parent_ne_self ht hparent
  have heq : (f.setRefCount t n).finish t =
      ((f.setRefCount t n).setRefCount p (f.refCount p - 1)).destroy t := by
    have hparent' : (f.setRefCount t n).parent t = some p := hparent
    rw [Forest.finish, hparent']
    simp only [setRefCount, Function.update_of_ne hpt]
  have hcount : ∀ q, (if f.parent t = some q then 1 else 0) +
      ((f.setRefCount t n).finish t).childCount q = f.childCount q := by
    intro q
    rw [heq]
    exact childCount_destroy (f := (f.setRefCount t n).setRefCount p (f.refCount p - 1)) ht q
  have hlive : ((f.setRefCount t n).finish t).live = f.live.erase t := by rw [heq]; rfl
  have hcode : ∀ q, ((f.setRefCount t n).finish t).code q = f.code q := by
    intro q
    rw [heq]
    rfl
  refine ⟨?_, ?_, ?_⟩
  · rw [heq]
    exact ((h.rooted.setRefCount t n).setRefCount p _).destroy hchild
  · intro q hq
    rw [hlive] at hq
    have hqt : q ≠ t := Finset.ne_of_mem_erase hq
    have hold := h.refCount_eq q (Finset.mem_of_mem_erase hq)
    have hnew := hcount q
    rw [hcode]
    by_cases hqp : q = p
    · subst hqp
      have hcount' : ((f.setRefCount t n).finish t).refCount q = f.refCount q - 1 := by
        rw [heq]
        exact Function.update_self q _ _
      rw [if_pos hparent] at hnew
      omega
    · have hcount' : ((f.setRefCount t n).finish t).refCount q = f.refCount q := by
        rw [heq]
        simp only [Forest.destroy, setRefCount, Function.update_of_ne hqp,
          Function.update_of_ne hqt]
      have hpq : ¬ f.parent t = some q := fun hq => hqp (Option.some.inj (hq.symm.trans hparent))
      rw [if_neg hpq] at hnew
      omega
  · intro q hq hforks
    rw [hlive] at hq
    rw [hcode] at hforks
    have hnew := hcount q
    rw [h.childCount_eq_zero q (Finset.mem_of_mem_erase hq) hforks] at hnew
    omega

/-- A task that has a child keeps a reference for it. -/
theorem lt_refCount (h : WellFormed waits forks root f) {t p : ℕ} (ht : t ∈ f.live)
    (hparent : f.parent t = some p) : waits (f.code p) < f.refCount p := by
  have hp := h.rooted.parent_mem t ht p hparent
  have hchild : f.childCount p ≠ 0 := by
    rw [Ne, childCount_eq_zero_iff]
    intro hall
    exact hall t ht hparent
  have hcount := h.refCount_eq p hp
  omega

/-- The root is freed when it has no child. -/
theorem destroy_root (h : WellFormed waits forks root f) (hroot : root ∈ f.live)
    (hchild : f.childCount root = 0) (n : ℕ) :
    WellFormed waits forks root ((f.setRefCount root n).destroy root) := by
  have hparent : f.parent root = none := (h.rooted.root_mem ⟨root, hroot⟩).2
  have hcount : ∀ q, ((f.setRefCount root n).destroy root).childCount q = f.childCount q := by
    intro q
    have hdestroy := childCount_destroy (f := f.setRefCount root n) hroot q
    rw [show (f.setRefCount root n).parent root = none from hparent, if_neg (by simp)] at hdestroy
    simpa using hdestroy
  refine ⟨(h.rooted.setRefCount root n).destroy hchild, ?_, ?_⟩
  · intro q hq
    have hne : q ≠ root := Finset.ne_of_mem_erase hq
    rw [hcount]
    simpa only [Forest.destroy, setRefCount, Function.update_of_ne hne] using
      h.refCount_eq q (Finset.mem_of_mem_erase hq)
  · intro q hq hforks
    rw [hcount]
    exact h.childCount_eq_zero q (Finset.mem_of_mem_erase hq) hforks

/-- A task hands its place to a continuation, which has two references: the task and
a new task are its children. -/
theorem continueWith (h : WellFormed waits forks root f) {t c b : ℕ} (ht : t ∈ f.live)
    (hroot : t ≠ root) (hc : c ∉ f.live) (hb : b ∉ f.live) (hbc : b ≠ c) {x y : κ}
    (hx : waits x = 0) (hforks : forks x) (hy : waits y = 0) :
    WellFormed waits forks root ((((f.allocateContinuation c t x).allocateChild b c
      y).recycleAsChildOf t c).setRefCount c 2) := by
  obtain ⟨p, hp, hparent⟩ := h.rooted.exists_parent ht hroot
  have hct : c ≠ t := fun heq => hc (heq ▸ ht)
  have hbt : b ≠ t := fun heq => hb (heq ▸ ht)
  have hnoneC : f.childCount c = 0 := h.rooted.childCount_of_notMem hc
  have hnoneB : f.childCount b = 0 := h.rooted.childCount_of_notMem hb
  have hcount : ∀ q, ((((f.allocateContinuation c t x).allocateChild b c y).recycleAsChildOf t
      c).setRefCount c 2).childCount q = (if c = q then 2 else 0) + f.childCount q := by
    intro q
    have hallocate := childCount_allocate hc (f.parent t) x q
    have htake := childCount_setParent (f := f.allocate c (f.parent t) x) (t := t)
      (Finset.mem_insert_of_mem ht) none q
    have hb' : b ∉ (f.allocateContinuation c t x).live := by
      simp [allocateContinuation, setParent, allocate, hbc, hb]
    have hchild := childCount_allocate hb' (some c) y q
    have hgive := childCount_setParent (f := (f.allocateContinuation c t x).allocateChild b c y)
      (t := t) (Finset.mem_insert_of_mem (Finset.mem_insert_of_mem ht)) (some c) q
    rw [childCount_setRefCount, recycleAsChildOf]
    simp only [Forest.allocateChild, allocateContinuation, setParent, allocate,
      Function.update_self, Function.update_of_ne hct.symm, Function.update_of_ne hbt.symm,
      Option.some.injEq, reduceCtorEq, if_false, zero_add] at hallocate htake hchild hgive ⊢
    split_ifs at hallocate htake hchild hgive ⊢ <;> omega
  refine ⟨(h.rooted.continueWith ht hparent hc hb hbc x y).setRefCount c 2, ?_, ?_⟩
  · intro q hq
    rw [hcount]
    simp only [recycleAsChildOf, Forest.allocateChild, allocateContinuation, setParent, allocate,
      setRefCount, Finset.mem_insert] at hq ⊢
    by_cases hqc : q = c
    · subst hqc
      simp only [Function.update_self, Function.update_of_ne hbc.symm, if_true]
      omega
    · by_cases hqb : q = b
      · subst hqb
        simp only [Function.update_self, Function.update_of_ne hqc, if_neg (Ne.symm hqc)]
        omega
      · have hold := h.refCount_eq q (by tauto)
        simp only [Function.update_of_ne hqc, Function.update_of_ne hqb, if_neg (Ne.symm hqc)]
        omega
  · intro q hq hcode
    rw [hcount]
    simp only [recycleAsChildOf, Forest.allocateChild, allocateContinuation, setParent, allocate,
      setRefCount, Finset.mem_insert] at hq hcode
    by_cases hqc : q = c
    · subst hqc
      simp only [Function.update_self, Function.update_of_ne hbc.symm] at hcode
      exact absurd hforks hcode
    · by_cases hqb : q = b
      · subst hqb
        rw [if_neg (Ne.symm hqc), hnoneB]
      · simp only [Function.update_of_ne hqc, Function.update_of_ne hqb] at hcode
        rw [if_neg (Ne.symm hqc), h.childCount_eq_zero q (by tauto) hcode]

/-- A task makes new children and waits for them. -/
theorem fork (h : WellFormed waits forks root f) {t : ℕ} (ht : t ∈ f.live)
    (hchild : f.childCount t = 0) {l : List (ℕ × κ)} (hfresh : f.Fresh (l.map Prod.fst))
    (hl : ∀ x ∈ l, waits x.2 = 0) {c : κ} (hwaits : waits c = 1) (hforks : forks c) :
    WellFormed waits forks root
      (((f.allocateChildren t l).setRefCount t (l.length + 1)).setCode t c) := by
  have ht' : t ∈ (f.allocateChildren t l).live := (Forest.allocateChildren_of_mem ht t l hfresh).1
  have hcount : ∀ q, (((f.allocateChildren t l).setRefCount t (l.length + 1)).setCode t
      c).childCount q = (if t = q then l.length else 0) + f.childCount q := by
    intro q
    rw [childCount_setCode (f := (f.allocateChildren t l).setRefCount t (l.length + 1)) ht',
      childCount_setRefCount, childCount_allocateChildren t l hfresh]
  refine ⟨((h.rooted.allocateChildren ht l hfresh).setRefCount t _).setCode t c, ?_, ?_⟩
  · intro q hq
    rw [hcount]
    by_cases hqt : q = t
    · subst hqt
      simp only [Forest.setCode, setRefCount, Function.update_self, if_true]
      omega
    · simp only [Forest.setCode, setRefCount, Function.update_of_ne hqt, if_neg (Ne.symm hqt)]
      by_cases hmem : q ∈ f.live
      · obtain ⟨-, hrefs, hcode⟩ := Forest.allocateChildren_of_mem hmem t l hfresh
        have hold := h.refCount_eq q hmem
        rw [hrefs, hcode]
        omega
      · obtain ⟨hrefs, x, hx, hcode⟩ := Forest.allocateChildren_of_notMem t l hfresh hq hmem
        have hnone := h.rooted.childCount_of_notMem hmem
        have hzero := hl x hx
        rw [hrefs, hcode]
        omega
  · intro q hq hcode
    rw [hcount]
    by_cases hqt : q = t
    · subst hqt
      simp only [Forest.setCode, Function.update_self] at hcode
      exact absurd hforks hcode
    · simp only [Forest.setCode, setRefCount, Function.update_of_ne hqt] at hcode
      rw [if_neg (Ne.symm hqt)]
      by_cases hmem : q ∈ f.live
      · rw [(Forest.allocateChildren_of_mem hmem t l hfresh).2.2] at hcode
        rw [h.childCount_eq_zero q hmem hcode]
      · rw [h.rooted.childCount_of_notMem hmem]

/-- A root that waits for its first child. -/
theorem start (hlive : f.live = ∅) {t : ℕ} (ht : t ≠ root) {x y : κ} (hx : waits x = 1)
    (hforks : forks x) (hy : waits y = 0) : WellFormed waits forks root
      (((f.allocate root none x).allocateChild t root y).setRefCount root 2) := by
  have hlive' : (f.allocate root none x).live = {root} := by simp [allocate, hlive]
  have hrooted : Rooted root (f.allocate root none x) := by
    refine ⟨?_, ?_, fun _ => 0, ?_⟩
    all_goals
      intro s hs
      rw [hlive', Finset.mem_singleton] at hs
      simp [allocate, hs]
  have hnotMem : t ∉ (f.allocate root none x).live := by simp [hlive', ht]
  have hcount : ∀ q, ((f.allocate root none x).allocateChild t root y).childCount q =
      if root = q then 1 else 0 := by
    intro q
    have hempty : f.childCount q = 0 := by simp [childCount, total, hlive]
    have hroot := childCount_allocate (f := f) (t := root) (by simp [hlive]) none x q
    rw [Forest.allocateChild, childCount_allocate hnotMem, hroot, hempty]
    simp
  refine ⟨(hrooted.allocateChild hnotMem (by simp [hlive']) y).setRefCount root 2, ?_, ?_⟩
  all_goals
    intro q hq
    have hq' : q = t ∨ q = root := by
      simpa [setRefCount, Forest.allocateChild, allocate, hlive] using hq
    rw [childCount_setRefCount, hcount]
    rcases hq' with rfl | rfl
    all_goals
      simp [setRefCount, Forest.allocateChild, allocate, ht, Ne.symm ht, hx, hy, hforks]

end WellFormed

end TaskForest
