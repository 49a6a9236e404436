import Kdtree.General.TaskForest
import Kdtree.General.WorkList
import Mathlib.Tactic.Abel

/-!
# The tasks of `parallel_do`

`parallel_do.h`, over the random access iterators of a vector: how the initial items
are divided among tasks, how the body and its feeder make more tasks, and when
`run_parallel_do` returns. Which worker takes a task, and when, is left open: any task
that may run takes its next step. At the granularity of whole bodies this is a work
list processed in any order.
-/

namespace Kdtree.ParallelDo

open TaskForest

/-- What a task has left to do. -/
inductive Code (ι ω : Type*)
  /-- `my_barrier`, on which `run_parallel_do` waits. -/
  | barrier
  /-- `do_task_iter`, on the items from `my_first` to `my_last`. -/
  | range (items : List ι)
  /-- `do_task_iter` in `spawn_and_wait_for_all`. -/
  | waiting
  /-- The continuation of a `do_task_iter`, an `empty_task`. -/
  | continuation
  /-- `do_iteration_task` or `do_iteration_task_iter`, not executed yet. -/
  | iteration (item : ι)
  /-- The body knows what it will write and feed. -/
  | running (item : ι) (writes : ω) (fed : List ι)
  /-- The body has written, and still has these items to add. -/
  | feeding (fed : List ι)

/-- A body that has written. -/
structure Ran (ι ω : Type*) where
  /-- The item it ran on. -/
  item : ι
  /-- What it wrote. -/
  writes : ω
  /-- The items it adds. -/
  fed : List ι

/-- The tasks, and a record of the bodies that have written. -/
structure State (ι ω : Type*) where
  /-- The tasks of this `parallel_do`. -/
  tasks : Forest (Code ι ω)
  /-- The bodies that have written, in order. -/
  ran : List (Ran ι ω)

variable {ι ω : Type*}

/-- `max_arg_size`. -/
def maxArgSize : ℕ := 4

/-- The address of `my_barrier`. -/
def myBarrier : ℕ := 0

/-- No task is allocated. -/
def noTasks : Forest (Code ι ω) := ⟨∅, fun _ => none, fun _ => 0, fun _ => .barrier⟩

/-- `parallel_do` up to the wait of `run_parallel_do`, which is reached only if there
is an item. -/
def start : List ι → State ι ω
  | [] => ⟨noTasks, []⟩
  | item :: items =>
    ⟨((noTasks.allocate myBarrier none .barrier).allocateChild 1 myBarrier
        (.range (item :: items))).setRefCount myBarrier 2, []⟩

/-- One step of one task. `Process item writes fed` says that the body may write
`writes` and feed `fed` when it runs on `item`. -/
inductive Step (Process : ι → ω → List ι → Prop) : State ι ω → State ι ω → Prop
  /-- `do_task_iter` with more than `max_arg_size` items hands the upper half to a new
  task. Both are children of a continuation, and it executes again on the lower half. -/
  | split {f : Forest (Code ι ω)} {ran : List (Ran ι ω)} {t c b : ℕ} {items : List ι}
      (ht : t ∈ f.live) (hcode : f.code t = .range items) (hlen : maxArgSize < items.length)
      (hc : c ∉ f.live) (hb : b ∉ f.live) (hbc : b ≠ c) :
      Step Process ⟨f, ran⟩
        ⟨((((f.allocateContinuation c t .continuation).allocateChild b c
          (.range (items.drop (items.length / 2)))).recycleAsChildOf t c).setRefCount c 2).setCode t
            (.range (items.take (items.length / 2))), ran⟩
  /-- `do_task_iter` with at most `max_arg_size` items makes a task for each and waits. -/
  | iterate {f : Forest (Code ι ω)} {ran : List (Ran ι ω)} {t : ℕ} {children : List (ℕ × ι)}
      (ht : t ∈ f.live) (hcode : f.code t = .range (children.map Prod.snd))
      (hlen : children.length ≤ maxArgSize) (hne : children ≠ [])
      (hfresh : f.Fresh (children.map Prod.fst)) :
      Step Process ⟨f, ran⟩
        ⟨((f.allocateChildren t (children.map fun x => (x.1, .iteration x.2))).setRefCount t
          (children.length + 1)).setCode t .waiting, ran⟩
  /-- `do_task_iter` without an item ends. -/
  | nothing {f : Forest (Code ι ω)} {ran : List (Ran ι ω)} {t : ℕ}
      (ht : t ∈ f.live) (hcode : f.code t = .range []) :
      Step Process ⟨f, ran⟩ ⟨f.finish t, ran⟩
  /-- `do_task_iter` has been waiting until its count is one. It sets the count to zero
  and ends. -/
  | resume {f : Forest (Code ι ω)} {ran : List (Ran ι ω)} {t : ℕ}
      (ht : t ∈ f.live) (hcode : f.code t = .waiting) (hcount : f.refCount t = 1) :
      Step Process ⟨f, ran⟩ ⟨(f.setRefCount t 0).finish t, ran⟩
  /-- A continuation is scheduled when its count is zero, and does nothing. -/
  | continuation {f : Forest (Code ι ω)} {ran : List (Ran ι ω)} {t : ℕ}
      (ht : t ∈ f.live) (hcode : f.code t = .continuation) (hcount : f.refCount t = 0) :
      Step Process ⟨f, ran⟩ ⟨f.finish t, ran⟩
  /-- The body is called on an item. -/
  | call {f : Forest (Code ι ω)} {ran : List (Ran ι ω)} {t : ℕ} {item : ι} {writes : ω}
      {fed : List ι} (ht : t ∈ f.live) (hcode : f.code t = .iteration item)
      (hprocess : Process item writes fed) :
      Step Process ⟨f, ran⟩ ⟨f.setCode t (.running item writes fed), ran⟩
  /-- The body writes. -/
  | write {f : Forest (Code ι ω)} {ran : List (Ran ι ω)} {t : ℕ} {item : ι} {writes : ω}
      {fed : List ι} (ht : t ∈ f.live) (hcode : f.code t = .running item writes fed) :
      Step Process ⟨f, ran⟩ ⟨f.setCode t (.feeding fed), ran ++ [⟨item, writes, fed⟩]⟩
  /-- `internal_add_copy`: the body adds an item, as a child of the barrier. -/
  | add {f : Forest (Code ι ω)} {ran : List (Ran ι ω)} {t b : ℕ} {item : ι} {fed : List ι}
      (ht : t ∈ f.live) (hcode : f.code t = .feeding (item :: fed)) (hb : b ∉ f.live) :
      Step Process ⟨f, ran⟩
        ⟨(f.allocateAdditionalChildOf b myBarrier (.iteration item)).setCode t (.feeding fed), ran⟩
  /-- The body has added all its items, and its task ends. -/
  | done {f : Forest (Code ι ω)} {ran : List (Ran ι ω)} {t : ℕ}
      (ht : t ∈ f.live) (hcode : f.code t = .feeding []) :
      Step Process ⟨f, ran⟩ ⟨f.finish t, ran⟩
  /-- `run_parallel_do` has been waiting until the count of the barrier is one. It
  destroys the barrier and returns. -/
  | ret {f : Forest (Code ι ω)} {ran : List (Ran ι ω)}
      (ht : myBarrier ∈ f.live) (hcode : f.code myBarrier = .barrier)
      (hcount : f.refCount myBarrier = 1) :
      Step Process ⟨f, ran⟩ ⟨(f.setRefCount myBarrier 0).destroy myBarrier, ran⟩

/-- `parallel_do` has returned. -/
def State.Returned (s : State ι ω) : Prop := myBarrier ∉ s.tasks.live

/-- What a step replaces the code of its task by, whatever the links are. -/
inductive Code.Becomes (Process : ι → ω → List ι → Prop) : Code ι ω → List (Code ι ω) → Prop
  | split {items : List ι} (hlen : maxArgSize < items.length) :
      Becomes Process (.range items) [.range (items.take (items.length / 2)),
        .range (items.drop (items.length / 2)), .continuation]
  | iterate {items : List ι} (hne : items ≠ []) :
      Becomes Process (.range items) (.waiting :: items.map .iteration)
  | nothing : Becomes Process (.range []) []
  | resume : Becomes Process .waiting []
  | continuation : Becomes Process .continuation []
  | call {item : ι} {writes : ω} {fed : List ι} (hprocess : Process item writes fed) :
      Becomes Process (.iteration item) [.running item writes fed]
  | write {item : ι} {writes : ω} {fed : List ι} :
      Becomes Process (.running item writes fed) [.feeding fed]
  | add {item : ι} {fed : List ι} :
      Becomes Process (.feeding (item :: fed)) [.feeding fed, .iteration item]
  | done : Becomes Process (.feeding []) []
  | ret : Becomes Process .barrier []

/-- The body a step of a task puts on record. -/
def Code.record : Code ι ω → List (Ran ι ω)
  | .running item writes fed => [⟨item, writes, fed⟩]
  | .barrier | .range _ | .waiting | .continuation | .iteration _ | .feeding _ => []

variable {Process : ι → ω → List ι → Prop} {s s' : State ι ω}

/-- A step replaces the code of one task, and all other codes stay. -/
theorem Step.codes (hstep : Step Process s s') :
    ∃ c new rest, Code.Becomes Process c new ∧ s.tasks.codes = c ::ₘ rest ∧
      s'.tasks.codes = new + rest ∧ s'.ran = s.ran ++ c.record := by
  cases hstep with
  | @split f ran t c b items ht hcode hlen hc hb hbc =>
    refine ⟨_, _, (f.destroy t).codes, .split hlen, hcode ▸ f.codes_eq ht, ?_,
      (List.append_nil ran).symm⟩
    rw [Forest.codes_setCode (r := {Code.range (items.drop (items.length / 2))} +
      ({Code.continuation} + (f.destroy t).codes))
      (Finset.mem_insert_of_mem (Finset.mem_insert_of_mem ht))]
    · simp [← Multiset.cons_coe, ← Multiset.singleton_add, add_assoc]
    · rw [Forest.codes_continueWith hc hb hbc, Forest.code_continueWith ht hc hb, f.codes_eq ht]
      abel
  | @iterate f ran t children ht hcode hlen hne hfresh =>
    have hitems : children.map Prod.snd ≠ [] := by simpa using hne
    refine ⟨_, _, (f.destroy t).codes, .iterate hitems, hcode ▸ f.codes_eq ht, ?_,
      (List.append_nil ran).symm⟩
    have hfresh' : f.Fresh
        ((children.map fun x => (x.1, (Code.iteration x.2 : Code ι ω))).map Prod.fst) := by
      simpa [Function.comp_def] using hfresh
    obtain ⟨ht', -, hcode'⟩ := Forest.allocateChildren_of_mem ht t _ hfresh'
    rw [Forest.codes_setCode (r := (((children.map Prod.snd).map Code.iteration :
      List (Code ι ω)) : Multiset (Code ι ω)) + (f.destroy t).codes) (t := t)]
    · simp [← Multiset.cons_coe, ← Multiset.singleton_add, add_assoc]
    · exact ht'
    · rw [Forest.codes_setRefCount, Forest.codes_allocateChildren t _ hfresh', f.codes_eq ht]
      simp only [Forest.setRefCount, hcode', List.map_map, Function.comp_def]
      abel
  | @nothing f ran t ht hcode =>
    refine ⟨_, _, (f.destroy t).codes, .nothing, hcode ▸ f.codes_eq ht, ?_,
      (List.append_nil ran).symm⟩
    simp [Forest.codes_finish]
  | @resume f ran t ht hcode hcount =>
    refine ⟨_, _, (f.destroy t).codes, .resume, hcode ▸ f.codes_eq ht, ?_,
      (List.append_nil ran).symm⟩
    simp [Forest.codes_finish]
  | @continuation f ran t ht hcode hcount =>
    refine ⟨_, _, (f.destroy t).codes, .continuation, hcode ▸ f.codes_eq ht, ?_,
      (List.append_nil ran).symm⟩
    simp [Forest.codes_finish]
  | @call f ran t item writes fed ht hcode hprocess =>
    refine ⟨_, _, (f.destroy t).codes, .call hprocess, hcode ▸ f.codes_eq ht, ?_,
      (List.append_nil ran).symm⟩
    rw [Forest.codes_setCode ht _ (f.codes_eq ht)]
    simp
  | @write f ran t item writes fed ht hcode =>
    refine ⟨_, _, (f.destroy t).codes, .write, hcode ▸ f.codes_eq ht, ?_, rfl⟩
    rw [Forest.codes_setCode ht _ (f.codes_eq ht)]
    simp
  | @add f ran t b item fed ht hcode hb =>
    refine ⟨_, _, (f.destroy t).codes, .add, hcode ▸ f.codes_eq ht, ?_,
      (List.append_nil ran).symm⟩
    have htb : t ≠ b := fun heq => hb (heq ▸ ht)
    rw [Forest.codes_setCode (r := {Code.iteration item} + (f.destroy t).codes)
      (Finset.mem_insert_of_mem ht)]
    · simp [← Multiset.cons_coe, ← Multiset.singleton_add, add_assoc]
    · have hcode' : (f.allocateAdditionalChildOf b myBarrier (.iteration item)).code t =
          f.code t := Function.update_of_ne htb _ _
      rw [hcode', Forest.allocateAdditionalChildOf, Forest.codes_setRefCount,
        Forest.codes_allocateChild hb, f.codes_eq ht]
      abel
  | @done f ran t ht hcode =>
    refine ⟨_, _, (f.destroy t).codes, .done, hcode ▸ f.codes_eq ht, ?_,
      (List.append_nil ran).symm⟩
    simp [Forest.codes_finish]
  | @ret f ran ht hcode hcount =>
    refine ⟨_, _, (f.destroy myBarrier).codes, .ret, hcode ▸ f.codes_eq ht, ?_,
      (List.append_nil ran).symm⟩
    simp

/-- The reference a task holds itself, while it waits. -/
def Code.waits : Code ι ω → ℕ
  | .barrier | .waiting => 1
  | .range _ | .continuation | .iteration _ | .running .. | .feeding _ => 0

/-- The tasks that may have children. -/
def Code.Forks : Code ι ω → Prop
  | .barrier | .waiting | .continuation => True
  | .range _ | .iteration _ | .running .. | .feeding _ => False

/-- Only the barrier is the barrier, and a body writes and feeds what it may. -/
def Code.Sound (Process : ι → ω → List ι → Prop) (t : ℕ) : Code ι ω → Prop
  | .barrier => t = myBarrier
  | .running item writes fed => t ≠ myBarrier ∧ Process item writes fed
  | .range _ | .waiting | .continuation | .iteration _ | .feeding _ => t ≠ myBarrier

/-- The counts of all tasks agree with the links between them, and every code is sound. -/
structure Inv (Process : ι → ω → List ι → Prop) (f : Forest (Code ι ω)) : Prop where
  /-- The reference counts are right. -/
  wellFormed : WellFormed Code.waits Code.Forks myBarrier f
  /-- The codes are sound. -/
  sound : f.All (Code.Sound Process)

namespace Inv

variable {f : Forest (Code ι ω)} {t : ℕ}

/-- Only the barrier has the barrier's address. -/
theorem ne_myBarrier (h : Inv Process f) (ht : t ∈ f.live) (hcode : f.code t ≠ .barrier) :
    t ≠ myBarrier := by
  have hsound := h.sound t ht
  cases hc : f.code t with
  | barrier => exact absurd hc hcode
  | running item writes fed => exact (hc ▸ hsound : Code.Sound Process t (.running ..)).1
  | range | waiting | continuation | iteration | feeding =>
    rw [hc] at hsound
    exact hsound

/-- While there is a task, there is the barrier. -/
theorem myBarrier_mem (h : Inv Process f) (ht : t ∈ f.live) :
    myBarrier ∈ f.live ∧ f.code myBarrier = .barrier := by
  have hmem := (h.wellFormed.rooted.root_mem ⟨t, ht⟩).1
  refine ⟨hmem, ?_⟩
  by_contra hcode
  exact h.ne_myBarrier hmem hcode rfl

/-- A task has a reference for every child, and the waiting task one more. -/
theorem refCount_eq (h : Inv Process f) (ht : t ∈ f.live) :
    f.refCount t = f.childCount t + (f.code t).waits := h.wellFormed.refCount_eq t ht

/-- A task that starts no others has no children. -/
theorem childCount_eq_zero (h : Inv Process f) (ht : t ∈ f.live) (hforks : ¬ (f.code t).Forks) :
    f.childCount t = 0 := h.wellFormed.childCount_eq_zero t ht hforks

/-- A task without children may end. -/
theorem finish (h : Inv Process f) (ht : t ∈ f.live) (hcode : f.code t ≠ .barrier)
    (hchild : f.childCount t = 0) (n : ℕ) : Inv Process ((f.setRefCount t n).finish t) :=
  ⟨h.wellFormed.finish ht (h.ne_myBarrier ht hcode) hchild n,
    Forest.All.finish (f := f.setRefCount t n) h.sound t⟩

end Inv

/-- The start of `parallel_do` has the right counts. -/
theorem inv_start (items : List ι) : Inv Process (start items : State ι ω).tasks := by
  cases items with
  | nil =>
    refine ⟨⟨⟨?_, ?_, fun _ => 0, ?_⟩, ?_, ?_⟩, ?_⟩
    all_goals
      intro t ht
      exact absurd ht (Finset.notMem_empty t)
  | cons item items =>
    have hchild : (1 : ℕ) ≠ myBarrier := by decide
    have hwaits : (Code.barrier : Code ι ω).waits = 1 := rfl
    refine ⟨WellFormed.start rfl hchild hwaits trivial rfl, ?_⟩
    intro t ht
    have ht' : t = 1 ∨ t = myBarrier := by
      simpa [start, Forest.setRefCount, Forest.allocateChild, Forest.allocate, noTasks] using ht
    rcases ht' with rfl | rfl
    · exact hchild
    · exact rfl

/-- A step keeps the counts right. -/
theorem Inv.step (h : Inv Process s.tasks) (hstep : Step Process s s') :
    Inv Process s'.tasks := by
  obtain ⟨f, ran⟩ := s
  replace h : Inv Process f := h
  cases hstep with
  | @split _ _ t c b items ht hcode hlen hc hb hbc =>
    have hne : t ≠ myBarrier := h.ne_myBarrier ht (by simp [hcode])
    obtain ⟨hbarrier, -⟩ := h.myBarrier_mem ht
    have hc' : c ≠ myBarrier := fun heq => hc (heq ▸ hbarrier)
    have hb' : b ≠ myBarrier := fun heq => hb (heq ▸ hbarrier)
    refine ⟨(h.wellFormed.continueWith ht hne hc hb hbc (x := .continuation)
      rfl trivial (y := .range (items.drop (items.length / 2))) rfl).setCode ?_ ?_ ?_, ?_⟩
    · exact Finset.mem_insert_of_mem (Finset.mem_insert_of_mem ht)
    · rw [Forest.code_continueWith ht hc hb, hcode]
      rfl
    · rw [Forest.code_continueWith ht hc hb, hcode]
      exact id
    · have hsound := (h.sound.allocate (f.parent t) .continuation hc').allocate (some c)
        (.range (items.drop (items.length / 2))) hb'
      exact Forest.All.setCode hsound hne
  | @iterate _ _ t children ht hcode hlen hne hfresh =>
    have ht' : t ≠ myBarrier := h.ne_myBarrier ht (by simp [hcode])
    have hfresh' : f.Fresh
        ((children.map fun x => (x.1, (Code.iteration x.2 : Code ι ω))).map Prod.fst) := by
      simpa [Function.comp_def] using hfresh
    have hwaits : ∀ x ∈ children.map fun x => (x.1, (Code.iteration x.2 : Code ι ω)),
        x.2.waits = 0 := by
      intro x hx
      obtain ⟨y, hy, rfl⟩ := List.mem_map.mp hx
      rfl
    have hwellFormed := h.wellFormed.fork ht (h.childCount_eq_zero ht (by simp [hcode, Code.Forks]))
      hfresh' hwaits (c := .waiting) rfl trivial
    rw [List.length_map] at hwellFormed
    refine ⟨hwellFormed, (h.sound.allocateChildren _ ?_).setCode ht'⟩
    intro x hx
    obtain ⟨y, hy, rfl⟩ := List.mem_map.mp hx
    have hy' := hfresh.2 y.1 (List.mem_map_of_mem hy)
    exact fun heq => hy' (heq ▸ (h.myBarrier_mem ht).1)
  | @nothing _ _ t ht hcode =>
    have hfinish := h.finish ht (by simp [hcode])
      (h.childCount_eq_zero ht (by simp [hcode, Code.Forks])) (f.refCount t)
    rwa [Forest.setRefCount_refCount] at hfinish
  | @resume _ _ t ht hcode hcount =>
    have hrefs := h.refCount_eq ht
    apply h.finish ht (by simp [hcode])
    rw [hcount, hcode, Code.waits] at hrefs
    omega
  | @continuation _ _ t ht hcode hcount =>
    have hrefs := h.refCount_eq ht
    have hfinish := h.finish ht (by simp [hcode]) (by omega) (f.refCount t)
    rwa [Forest.setRefCount_refCount] at hfinish
  | @call _ _ t item writes fed ht hcode hprocess =>
    have hne : t ≠ myBarrier := h.ne_myBarrier ht (by simp [hcode])
    refine ⟨h.wellFormed.setCode ht ?_ ?_, h.sound.setCode ⟨hne, hprocess⟩⟩
    · simp [hcode, Code.waits]
    · simp [hcode, Code.Forks]
  | @write _ _ t item writes fed ht hcode =>
    have hne : t ≠ myBarrier := h.ne_myBarrier ht (by simp [hcode])
    refine ⟨h.wellFormed.setCode ht ?_ ?_, h.sound.setCode hne⟩
    · simp [hcode, Code.waits]
    · simp [hcode, Code.Forks]
  | @add _ _ t b item fed ht hcode hb =>
    have hne : t ≠ myBarrier := h.ne_myBarrier ht (by simp [hcode])
    obtain ⟨hbarrier, hbarrierCode⟩ := h.myBarrier_mem ht
    have hforks : (f.code myBarrier).Forks := by simp [hbarrierCode, Code.Forks]
    have hb' : b ≠ myBarrier := fun heq => hb (heq ▸ hbarrier)
    have htb : t ≠ b := fun heq => hb (heq ▸ ht)
    have hcode' : (f.allocateAdditionalChildOf b myBarrier (.iteration item)).code t =
        .feeding (item :: fed) := (Function.update_of_ne htb _ _).trans hcode
    have hadd := h.wellFormed.allocateAdditionalChildOf hb hbarrier hforks
      (c := .iteration item) rfl
    refine ⟨hadd.setCode (Finset.mem_insert_of_mem ht) ?_ ?_, ?_⟩
    · simp [hcode', Code.waits]
    · simp [hcode', Code.Forks]
    · exact Forest.All.setCode (f := f.allocateAdditionalChildOf b myBarrier (.iteration item))
        (h.sound.allocate (some myBarrier) (.iteration item) hb') hne
  | @done _ _ t ht hcode =>
    have hfinish := h.finish ht (by simp [hcode])
      (h.childCount_eq_zero ht (by simp [hcode, Code.Forks])) (f.refCount t)
    rwa [Forest.setRefCount_refCount] at hfinish
  | ret ht hcode hcount =>
    have hrefs := h.refCount_eq ht
    rw [hcount, hcode, Code.waits] at hrefs
    exact ⟨h.wellFormed.destroy_root ht (by omega) 0,
      Forest.All.destroy (f := f.setRefCount myBarrier 0) h.sound myBarrier⟩

/-- Every state that is reached has the right counts. -/
theorem inv_of_run {items : List ι} (hrun : Relation.ReflTransGen (Step Process) (start items) s) :
    Inv Process s.tasks := by
  induction hrun with
  | refl => exact inv_start items
  | tail _ hstep ih => exact ih.step hstep

/-- As long as there is a task, one of them can take a step. -/
theorem Inv.exists_step (h : Inv Process s.tasks) (hne : s.tasks.live.Nonempty)
    (hprocess : ∀ t ∈ s.tasks.live, ∀ item, s.tasks.code t = .iteration item →
      ∃ writes fed, Process item writes fed) : ∃ s', Step Process s s' := by
  obtain ⟨f, ran⟩ := s
  replace h : Inv Process f := h
  -- a task without children has no reference but its own
  obtain ⟨t, ht, hchild⟩ := h.wellFormed.rooted.exists_childCount_eq_zero hne
  have ht' : t ∈ f.live := ht
  have hchild' : f.childCount t = 0 := hchild
  have hrefs := h.refCount_eq ht'
  cases hcode : f.code t with
  | barrier =>
    have hroot : t = myBarrier := by simpa [hcode, Code.Sound] using h.sound t ht'
    subst hroot
    refine ⟨_, .ret ht' hcode ?_⟩
    rw [hrefs, hchild', hcode, Code.waits]
  | range items =>
    by_cases hlen : maxArgSize < items.length
    · obtain ⟨ids, hids, hnodup, hfresh⟩ := f.exists_fresh 2
      obtain ⟨c, b, rfl⟩ := List.length_eq_two.mp hids
      refine ⟨_, .split ht' hcode hlen (hfresh c (by simp)) (hfresh b (by simp)) ?_⟩
      simpa [eq_comm] using hnodup
    · by_cases hnil : items = []
      · subst hnil
        exact ⟨_, .nothing ht' hcode⟩
      · obtain ⟨ids, hids, hfresh⟩ := f.exists_fresh items.length
        have hfst : (ids.zip items).map Prod.fst = ids := List.map_fst_zip hids.le
        have hsnd : (ids.zip items).map Prod.snd = items := List.map_snd_zip hids.ge
        have hcode' : f.code t = .range ((ids.zip items).map Prod.snd) := by rw [hsnd, hcode]
        refine ⟨_, .iterate ht' hcode' ?_ ?_ ?_⟩
        · rw [List.length_zip, hids]
          omega
        · intro hzip
          rw [hzip] at hsnd
          exact hnil hsnd.symm
        · rwa [hfst]
  | waiting =>
    refine ⟨_, .resume ht' hcode ?_⟩
    rw [hrefs, hchild', hcode, Code.waits]
  | continuation =>
    refine ⟨_, .continuation ht' hcode ?_⟩
    rw [hrefs, hchild', hcode, Code.waits]
  | iteration item =>
    obtain ⟨writes, fed, hbody⟩ := hprocess t ht' item hcode
    exact ⟨_, .call ht' hcode hbody⟩
  | running item writes fed => exact ⟨_, .write ht' hcode⟩
  | feeding fed =>
    cases fed with
    | nil => exact ⟨_, .done ht' hcode⟩
    | cons item fed =>
      obtain ⟨ids, hids, -, hfresh⟩ := f.exists_fresh 1
      obtain ⟨b, rfl⟩ := List.length_eq_one_iff.mp hids
      exact ⟨_, .add ht' hcode (hfresh b (by simp))⟩

/-- The items a task holds that no body has written for. -/
def Code.held : Code ι ω → Multiset ι
  | .barrier | .waiting | .continuation => 0
  | .range items => items
  | .iteration item => {item}
  | .running item _ _ => {item}
  | .feeding fed => fed

/-- The items no body has written for. -/
def State.held (s : State ι ω) : Multiset ι := s.tasks.codes.bind Code.held

/-- Without tasks no item is held. -/
theorem State.held_eq_zero (hlive : s.tasks.live = ∅) : s.held = 0 := by
  simp [held, Forest.codes, Forest.total, hlive]

/-- An item held by a task is held. -/
theorem State.mem_held {t : ℕ} (ht : t ∈ s.tasks.live) {item : ι}
    (hitem : item ∈ (s.tasks.code t).held) : item ∈ s.held :=
  Multiset.mem_bind.mpr ⟨_, Forest.mem_codes_iff.mpr ⟨t, ht, rfl⟩, hitem⟩

/-- A task hands the items it holds on. When its body has written, the item of the
body is replaced by the items it feeds. -/
theorem Code.Becomes.held {c : Code ι ω} {new : List (Code ι ω)} (h : c.Becomes Process new) :
    ((c.record.map Ran.item : List ι) : Multiset ι) + (new : Multiset (Code ι ω)).bind Code.held =
      c.held + (c.record.flatMap Ran.fed : List ι) := by
  cases h with
  | @split items hlen =>
    have happend := List.take_append_drop (items.length / 2) items
    simp [Code.record, Code.held, ← Multiset.cons_coe, Multiset.coe_add, happend]
  | @iterate items hne =>
    have hsingle : ∀ l : List ι,
        ((l.map (Code.iteration : ι → Code ι ω) : List (Code ι ω)) : Multiset (Code ι ω)).bind
          Code.held = (l : Multiset ι) := by
      intro l
      induction l with
      | nil => rfl
      | cons i l ih =>
        rw [List.map_cons, ← Multiset.cons_coe, Multiset.cons_bind, ih, ← Multiset.cons_coe,
          ← Multiset.singleton_add]
        rfl
    simp [Code.record, Code.held, ← Multiset.cons_coe, hsingle]
  | nothing | resume | continuation | done | ret => simp [Code.record, Code.held]
  | call | write => simp [Code.record, Code.held, ← Multiset.cons_coe, add_comm]
  | add => simp [Code.record, Code.held, ← Multiset.cons_coe, ← Multiset.singleton_add, add_comm]

/-- Two equations add up, with a common part left out. -/
theorem add_add_of_exchange {a c r i f n w g : Multiset ι} (h : a + (c + r) = i + f)
    (hexchange : w + n = c + g) : a + w + (n + r) = i + (f + g) := by
  calc a + w + (n + r) = a + r + (w + n) := by abel
    _ = a + (c + r) + g := by rw [hexchange]; abel
    _ = i + (f + g) := by rw [h]; abel

/-- No body has run at the start. -/
@[simp] theorem ran_start (items : List ι) : (start items : State ι ω).ran = [] := by
  cases items <;> rfl

/-- Without items there is no task. -/
theorem codes_start_nil : (start [] : State ι ω).tasks.codes = 0 := rfl

/-- With items there are the first range and the barrier that waits for it. -/
theorem codes_start_cons (item : ι) (items : List ι) :
    (start (item :: items) : State ι ω).tasks.codes =
      {.range (item :: items)} + {.barrier} := by
  have hbarrier : ((noTasks : Forest (Code ι ω)).allocate myBarrier none .barrier).live =
      {myBarrier} := rfl
  have hchild : (1 : ℕ) ∉
      ((noTasks : Forest (Code ι ω)).allocate myBarrier none .barrier).live := by
    rw [hbarrier]
    decide
  have hcodes : ((noTasks : Forest (Code ι ω)).allocate myBarrier none .barrier).codes =
      {.barrier} :=
    Forest.total_allocate (fun _ c => ({c} : Multiset (Code ι ω))) (Finset.notMem_empty _) none
      .barrier
  rw [start, Forest.codes_setRefCount, Forest.codes_allocateChild hchild, hcodes]

/-- The items of the bodies that have written, and those held by tasks, are the
initial items and the items fed so far. -/
theorem ran_add_held {items : List ι}
    (hrun : Relation.ReflTransGen (Step Process) (start items) s) :
    ((s.ran.map Ran.item : List ι) : Multiset ι) + s.held =
      items + (s.ran.flatMap Ran.fed : List ι) := by
  induction hrun with
  | refl =>
    cases items with
    | nil =>
      rw [State.held, codes_start_nil, ran_start]
      simp
    | cons item items =>
      rw [State.held, codes_start_cons, ran_start]
      simp [Code.held]
  | tail _ hstep ih =>
    obtain ⟨c, new, rest, hbecomes, hold, hnew, hran⟩ := hstep.codes
    rw [State.held, hold, Multiset.cons_bind] at ih
    rw [State.held, hnew, Multiset.add_bind, hran, List.map_append, List.flatMap_append,
      ← Multiset.coe_add, ← Multiset.coe_add]
    exact add_add_of_exchange ih hbecomes.held

/-- Every body on record has written and fed what it may. -/
theorem process_of_mem_ran {items : List ι}
    (hrun : Relation.ReflTransGen (Step Process) (start items) s) :
    ∀ r ∈ s.ran, Process r.item r.writes r.fed := by
  induction hrun with
  | refl => simp
  | @tail s s' hrun hstep ih =>
    obtain ⟨c, new, rest, -, hold, -, hran⟩ := hstep.codes
    intro r hr
    rw [hran] at hr
    rcases List.mem_append.mp hr with hr | hr
    · exact ih r hr
    · have hmem : c ∈ s.tasks.codes := hold ▸ Multiset.mem_cons_self c rest
      obtain ⟨t, ht, rfl⟩ := Forest.mem_codes_iff.mp hmem
      have hsound := (inv_of_run hrun).sound t ht
      cases hcode : s.tasks.code t with
      | running item writes fed =>
        rw [hcode] at hr hsound
        obtain rfl := List.mem_singleton.mp hr
        exact hsound.2
      | barrier | range | waiting | continuation | iteration | feeding =>
        rw [hcode] at hr
        cases hr

/-- `parallel_do` on any items, with any body. Whatever the order of the steps: every
body that has written did what it may on its item; these items and those still held
by tasks are the initial items and the items fed so far, each as often as it was given;
the count of a task is the number of its children and of its own waits, and the parent of
a task has not been freed. When `parallel_do` has returned, no task and no item is left. -/
theorem parallelDo_spec {items : List ι}
    (hrun : Relation.ReflTransGen (Step Process) (start items) s) :
    (∀ r ∈ s.ran, Process r.item r.writes r.fed) ∧
      ((s.ran.map Ran.item : List ι) : Multiset ι) + s.held =
        items + (s.ran.flatMap Ran.fed : List ι) ∧
      (∀ t ∈ s.tasks.live,
        s.tasks.refCount t = s.tasks.childCount t + (s.tasks.code t).waits ∧
        ∀ p, s.tasks.parent t = some p →
          p ∈ s.tasks.live ∧ (s.tasks.code p).waits < s.tasks.refCount p) ∧
      (s.Returned → s.tasks.live = ∅ ∧ s.held = 0) := by
  have hinv := inv_of_run hrun
  refine ⟨process_of_mem_ran hrun, ran_add_held hrun, ?_, ?_⟩
  · intro t ht
    refine ⟨hinv.refCount_eq ht, fun p hp => ?_⟩
    exact ⟨hinv.wellFormed.rooted.parent_mem t ht p hp, hinv.wellFormed.lt_refCount ht hp⟩
  · intro hreturned
    have hempty := hinv.wellFormed.rooted.live_eq_empty hreturned
    exact ⟨hempty, State.held_eq_zero hempty⟩

/-- A body that adds one to its item and feeds nothing, on the one item `7`: after six
steps `parallel_do` has returned. -/
theorem parallelDo_spec_single : ∃ s : State ℕ ℕ, s.ran = [⟨7, 8, []⟩] ∧
    ((s.ran.map Ran.item : List ℕ) : Multiset ℕ) + s.held =
      ([7] : List ℕ) + (s.ran.flatMap Ran.fed : List ℕ) ∧ s.tasks.live = ∅ ∧ s.held = 0 := by
  have hrun : Relation.ReflTransGen
      (Step fun item writes fed => writes = item + 1 ∧ fed = []) (start [7]) _ :=
    (((((Relation.ReflTransGen.refl.tail
      (@Step.iterate ℕ ℕ _ _ _ 1 [(2, 7)] (by decide) rfl (by decide) (by decide)
        (by decide))).tail
      (@Step.call ℕ ℕ _ _ _ 2 7 8 [] (by decide) rfl ⟨rfl, rfl⟩)).tail
      (@Step.write ℕ ℕ _ _ _ 2 7 8 [] (by decide) rfl)).tail
      (@Step.done ℕ ℕ _ _ _ 2 (by decide) rfl)).tail
      (@Step.resume ℕ ℕ _ _ _ 1 (by decide) rfl rfl)).tail
      (@Step.ret ℕ ℕ _ _ _ (by decide) rfl rfl)
  obtain ⟨-, hitems, -, hreturned⟩ := parallelDo_spec hrun
  obtain ⟨hlive, hheld⟩ := hreturned (by rw [State.Returned]; decide)
  exact ⟨_, rfl, hitems, hlive, hheld⟩

/-- The bodies as steps of a work list: the items not written for, and what has been
written. -/
def State.workList {α : Type*} (s : State ι (List α)) : WorkList.State ι α :=
  ⟨s.held, s.ran.flatMap Ran.writes⟩

/-- A step of a task is no step of the work list, or the processing of one item. -/
theorem Inv.workList {α : Type*} {Process : ι → List α → List ι → Prop} {s s' : State ι (List α)}
    (h : Inv Process s.tasks) (hstep : Step Process s s') :
    s'.workList = s.workList ∨ WorkList.Step Process s.workList s'.workList := by
  obtain ⟨c, new, rest, hbecomes, hold, hnew, hran⟩ := hstep.codes
  have hheld := hbecomes.held
  cases c with
  | running item writes fed =>
    right
    obtain ⟨t, ht, hcode⟩ := Forest.mem_codes_iff.mp (hold ▸ Multiset.mem_cons_self _ rest)
    have hprocess := (hcode ▸ h.sound t ht : Code.Sound Process t (.running item writes fed)).2
    cases hbecomes
    have hstep' : WorkList.Step Process
        ⟨item ::ₘ rest.bind Code.held, s.ran.flatMap Ran.writes⟩ _ := .run hprocess
    convert hstep' using 1
    · simp [State.workList, State.held, hold, Code.held]
    · simp [State.workList, State.held, hnew, hran, Code.held, Code.record]
  | barrier | range | waiting | continuation | iteration | feeding =>
    left
    simp only [Code.record, List.map_nil, Multiset.coe_nil, zero_add, List.flatMap_nil,
      add_zero] at hheld
    simp [State.workList, State.held, hold, hnew, hheld, hran, Code.record]

/-- The steps that a list of items costs from where they are fed. -/
def feedCost (cost : ι → ℕ) (fed : List ι) : ℕ := (fed.map fun i => cost i + 1).sum

/-- A bound for the steps a task and the tasks it makes take, when a body on an item
and all that it feeds take `cost` steps. -/
def Code.weight (cost : ι → ℕ) : Code ι ω → ℕ
  | .barrier | .waiting | .continuation => 1
  | .range items => max 1 (4 * items.length - 2) + (items.map cost).sum
  | .iteration item => cost item
  | .running _ _ fed => feedCost cost fed + 2
  | .feeding fed => feedCost cost fed + 1

/-- A bound for the steps that are left. -/
def State.weight (cost : ι → ℕ) (s : State ι ω) : ℕ := (s.tasks.codes.map (Code.weight cost)).sum

/-- A step makes a task lighter, if a body costs more than what it feeds. -/
theorem Code.Becomes.weight {c : Code ι ω} {new : List (Code ι ω)} (h : c.Becomes Process new)
    (cost : ι → ℕ)
    (hcost : ∀ item ∈ c.held, ∀ writes fed, Process item writes fed →
      feedCost cost fed + 3 ≤ cost item) :
    (new.map (Code.weight cost)).sum < c.weight cost := by
  cases h with
  | @split items hlen =>
    have happend := List.take_append_drop (items.length / 2) items
    have hsum : (items.map cost).sum = ((items.take (items.length / 2)).map cost).sum +
        ((items.drop (items.length / 2)).map cost).sum := by
      rw [← List.sum_append, ← List.map_append, happend]
    simp only [List.map_cons, List.map_nil, List.sum_cons, List.sum_nil, Code.weight,
      List.length_take, List.length_drop, hsum, maxArgSize] at hlen ⊢
    omega
  | @iterate items hne =>
    have hlen := List.length_pos_iff.mpr hne
    have hsum : (items.map (Code.weight cost ∘ (Code.iteration : ι → Code ι ω))).sum =
        (items.map cost).sum := rfl
    rw [List.map_cons, List.sum_cons, List.map_map, hsum, Code.weight, Code.weight]
    omega
  | nothing | resume | continuation | write | done | ret => simp [Code.weight]
  | @call item writes fed hprocess =>
    have hle := hcost item (by simp [Code.held]) writes fed hprocess
    simp only [List.map_cons, List.map_nil, List.sum_cons, List.sum_nil, Code.weight]
    omega
  | add =>
    simp only [List.map_cons, List.map_nil, List.sum_cons, List.sum_nil, Code.weight, feedCost]
    omega

/-- Every step lowers the bound. -/
theorem Step.weight {cost : ι → ℕ} (hstep : Step Process s s')
    (hcost : ∀ item ∈ s.held, ∀ writes fed, Process item writes fed →
      feedCost cost fed + 3 ≤ cost item) : s'.weight cost < s.weight cost := by
  obtain ⟨c, new, rest, hbecomes, hold, hnew, -⟩ := hstep.codes
  have hlt := hbecomes.weight cost fun item hitem =>
    hcost item (by simp [State.held, hold, hitem])
  rw [State.weight, State.weight, hold, hnew, Multiset.map_cons, Multiset.sum_cons,
    Multiset.map_add, Multiset.sum_add, Multiset.map_coe, Multiset.sum_coe]
  omega

/-- A run has at most as many steps as the bound at its start. -/
theorem length_le_weight (cost : ι → ℕ) (states : ℕ → State ι ω) {n : ℕ}
    (hsteps : ∀ k < n, Step Process (states k) (states (k + 1)))
    (hcost : ∀ k < n, ∀ item ∈ (states k).held, ∀ writes fed, Process item writes fed →
      feedCost cost fed + 3 ≤ cost item) : n ≤ (states 0).weight cost := by
  have hle : ∀ k ≤ n, k + (states k).weight cost ≤ (states 0).weight cost := by
    intro k
    induction k with
    | zero => simp
    | succ k ih =>
      intro hk
      have hlt := (hsteps k (by omega)).weight (hcost k (by omega))
      have hih := ih (by omega)
      omega
  have hlast := hle n le_rfl
  omega

end Kdtree.ParallelDo
