import Mathlib.Data.List.Basic

/-!
# Computations that may fail

A sequence of computations in `Except` returns exactly when each of them does,
and a loop over a list returns the list of the results.
-/

namespace Fallible

variable {ε α β : Type*}

/-- A sequence returns exactly when its first part does and its second part does
on what the first returned. -/
theorem bind_eq_ok_iff {x : Except ε α} {f : α → Except ε β} {b : β} :
    x.bind f = .ok b ↔ ∃ a, x = .ok a ∧ f a = .ok b := by
  cases x with
  | error e => simp [Except.bind]
  | ok a => simp [Except.bind]

/-- Two sequences end alike when the results of their first parts look alike, and their
second parts end alike on results that do. -/
theorem bind_congr_of_map {γ : Type*} {x x' : Except ε α} {view : α → γ} {f f' : α → Except ε β}
    (hx : x.map view = x'.map view) (hf : ∀ a a', view a = view a' → f a = f' a') :
    x.bind f = x'.bind f' := by
  cases x with
  | error e =>
    cases x' with
    | error e' => rw [Except.error.inj hx]; rfl
    | ok a' => cases hx
  | ok a =>
    cases x' with
    | error e' => cases hx
    | ok a' => exact hf a a' (Except.ok.inj hx)

/-- A sequence with its result viewed is a sequence. -/
theorem map_bind {γ : Type*} (x : Except ε α) (f : α → Except ε β) (view : β → γ) :
    (x.bind f).map view = x.bind fun a => (f a).map view := by
  cases x <;> rfl

/-- A loop returns when each of its rounds does. -/
theorem mapM_eq_ok {f : α → Except ε β} {g : α → β} {l : List α} (h : ∀ a ∈ l, f a = .ok (g a)) :
    l.mapM f = .ok (l.map g) := by
  induction l with
  | nil => rfl
  | cons a l ih =>
    rw [List.mapM_cons, h a List.mem_cons_self, ih fun b hb => h b (List.mem_cons_of_mem _ hb)]
    rfl

/-- A loop that fails has a round that fails in the same way. -/
theorem exists_error_of_mapM {e : ε} {f : α → Except ε β} {l : List α}
    (h : l.mapM f = .error e) : ∃ a ∈ l, f a = .error e := by
  induction l with
  | nil => cases h
  | cons a l ih =>
    rw [List.mapM_cons] at h
    cases hfa : f a with
    | error e' =>
      rw [hfa] at h
      obtain rfl : e' = e := Except.error.inj h
      exact ⟨a, List.mem_cons_self, hfa⟩
    | ok b =>
      cases htail : l.mapM f with
      | error e' =>
        rw [hfa, htail] at h
        obtain rfl : e' = e := Except.error.inj h
        obtain ⟨a', ha', hfa'⟩ := ih htail
        exact ⟨a', List.mem_cons_of_mem _ ha', hfa'⟩
      | ok bs =>
        rw [hfa, htail] at h
        cases h

/-- In a loop that returns, no round fails. -/
theorem exists_ok_of_mapM {f : α → Except ε β} {l : List α} {bs : List β}
    (h : l.mapM f = .ok bs) {a : α} (ha : a ∈ l) : ∃ b, f a = .ok b := by
  induction l generalizing bs with
  | nil => cases ha
  | cons a' l ih =>
    rw [List.mapM_cons] at h
    obtain ⟨b, hb, h⟩ := bind_eq_ok_iff.mp h
    obtain ⟨bs', hbs', -⟩ := bind_eq_ok_iff.mp h
    rcases List.mem_cons.mp ha with rfl | ha
    · exact ⟨b, hb⟩
    · exact ih hbs' ha

/-- A loop fails when a round does, with the only fault that the rounds can have. -/
theorem mapM_eq_error {e : ε} {f : α → Except ε β} {l : List α}
    (honly : ∀ a ∈ l, ∀ e', f a = .error e' → e' = e) (hfail : ∃ a ∈ l, f a = .error e) :
    l.mapM f = .error e := by
  cases hloop : l.mapM f with
  | error e' =>
    obtain ⟨a, ha, hfa⟩ := exists_error_of_mapM hloop
    rw [honly a ha e' hfa]
  | ok bs =>
    obtain ⟨a, ha, hfa⟩ := hfail
    obtain ⟨b, hb⟩ := exists_ok_of_mapM hloop ha
    rw [hfa] at hb
    cases hb

/-- A loop with a state that never fails computes a fold. -/
theorem foldlM_eq_ok {f : β → α → Except ε β} {g : β → α → β} {l : List α}
    (h : ∀ a ∈ l, ∀ b, f b a = .ok (g b a)) (b : β) : l.foldlM f b = .ok (l.foldl g b) := by
  induction l generalizing b with
  | nil => rfl
  | cons a l ih =>
    rw [List.foldlM_cons, h a List.mem_cons_self b]
    exact ih (fun a' ha' => h a' (List.mem_cons_of_mem _ ha')) _

/-- A loop that returns has a result for every round. -/
theorem length_of_mapM {f : α → Except ε β} {l : List α} {bs : List β}
    (h : l.mapM f = .ok bs) : bs.length = l.length := by
  induction l generalizing bs with
  | nil =>
    obtain rfl : [] = bs := Except.ok.inj h
    rfl
  | cons a l ih =>
    rw [List.mapM_cons] at h
    obtain ⟨b, -, h⟩ := bind_eq_ok_iff.mp h
    obtain ⟨bs', hbs', h⟩ := bind_eq_ok_iff.mp h
    obtain rfl := Except.ok.inj h
    rw [List.length_cons, List.length_cons, ih hbs']

/-- A loop that returns has the result of each round in its place. -/
theorem getElem?_of_mapM {f : α → Except ε β} {l : List α} {bs : List β} (h : l.mapM f = .ok bs)
    {i : ℕ} {a : α} (ha : l[i]? = some a) : ∃ b, f a = .ok b ∧ bs[i]? = some b := by
  induction l generalizing bs i with
  | nil => cases ha
  | cons a' l ih =>
    rw [List.mapM_cons] at h
    obtain ⟨b, hb, h⟩ := bind_eq_ok_iff.mp h
    obtain ⟨bs', hbs', h⟩ := bind_eq_ok_iff.mp h
    obtain rfl := Except.ok.inj h
    cases i with
    | zero =>
      obtain rfl := Option.some.inj ha
      exact ⟨b, hb, rfl⟩
    | succ i => exact ih hbs' ha

/-- A loop fails with the fault of the first round that fails. -/
theorem mapM_eq_error_iff {e : ε} {f : α → Except ε β} {l : List α} :
    l.mapM f = .error e ↔ ∃ before a after, l = before ++ a :: after ∧
      (∀ a' ∈ before, ∃ b, f a' = .ok b) ∧ f a = .error e := by
  constructor
  · intro h
    induction l with
    | nil => cases h
    | cons a l ih =>
      rw [List.mapM_cons] at h
      cases hfa : f a with
      | error e' =>
        rw [hfa] at h
        obtain rfl : e' = e := Except.error.inj h
        exact ⟨[], a, l, rfl, by simp, hfa⟩
      | ok b =>
        cases htail : l.mapM f with
        | ok bs =>
          rw [hfa, htail] at h
          cases h
        | error e' =>
          rw [hfa, htail] at h
          obtain rfl : e' = e := Except.error.inj h
          obtain ⟨before, a', after, rfl, hbefore, hfail⟩ := ih htail
          refine ⟨a :: before, a', after, rfl, ?_, hfail⟩
          intro x hx
          rcases List.mem_cons.mp hx with rfl | hx
          · exact ⟨b, hfa⟩
          · exact hbefore x hx
  · rintro ⟨before, a, after, rfl, hbefore, hfail⟩
    induction before with
    | nil =>
      rw [List.nil_append, List.mapM_cons, hfail]
      rfl
    | cons x before ih =>
      obtain ⟨b, hb⟩ := hbefore x List.mem_cons_self
      rw [List.cons_append, List.mapM_cons, hb,
        ih fun y hy => hbefore y (List.mem_cons_of_mem x hy)]
      rfl

end Fallible
