import Mathlib.Data.List.Infix
import Mathlib.Data.List.Chain

/-!
# Leftmost occurrences of a delimiter

A text is cut before the leftmost occurrence of a delimiter. When a delimiter is
put behind a text, that cut gives the text back unless the delimiter occurs
earlier, possibly across the seam. Two different first characters that never
stand next to each other in the text rule that out.
-/

namespace Delimited

variable {α : Type*}

/-- `Avoids x y s`: in `s`, the character `x` is never followed by `y`. -/
def Avoids (x y : α) (s : List α) : Prop := s.IsChain fun a b => ¬(a = x ∧ b = y)

instance [DecidableEq α] (x y : α) (s : List α) : Decidable (Avoids x y s) :=
  inferInstanceAs (Decidable (s.IsChain fun a b => ¬(a = x ∧ b = y)))

/-- A text that can be put behind any text that avoids a pair. -/
structure Joins (x y : α) (s : List α) : Prop where
  /-- The pair does not occur in the text. -/
  avoids : Avoids x y s
  /-- The text does not begin with the second character. -/
  head_ne : s.head? ≠ some y

instance [DecidableEq α] (x y : α) (s : List α) : Decidable (Joins x y s) :=
  decidable_of_iff (Avoids x y s ∧ s.head? ≠ some y) ⟨fun h => ⟨h.1, h.2⟩, fun h => ⟨h.1, h.2⟩⟩

/-- The pair does not come up at the seam. -/
theorem Avoids.append {x y : α} {s t : List α} (hs : Avoids x y s) (ht : Joins x y t) :
    Avoids x y (s ++ t) := by
  refine List.isChain_append.mpr ⟨hs, ht.avoids, ?_⟩
  rintro a - b hb ⟨-, rfl⟩
  exact ht.head_ne hb

/-- Texts that join can be put together. -/
theorem Joins.append {x y : α} {s t : List α} (hs : Joins x y s) (ht : Joins x y t) :
    Joins x y (s ++ t) := by
  refine ⟨hs.avoids.append ht, ?_⟩
  cases s with
  | nil => exact ht.head_ne
  | cons c s => exact hs.head_ne

/-- So can any number of them. -/
theorem Joins.flatMap {β : Type*} {x y : α} {f : β → List α} {l : List β}
    (hf : ∀ b ∈ l, Joins x y (f b)) : Joins x y (l.flatMap f) := by
  induction l with
  | nil => exact ⟨List.isChain_nil, by simp⟩
  | cons b l ih =>
    rw [List.flatMap_cons]
    exact (hf b List.mem_cons_self).append (ih fun b' hb' => hf b' (List.mem_cons_of_mem _ hb'))

/-- A text without the second character of a pair joins. -/
theorem Joins.of_notMem {x y : α} {s : List α} (h : y ∉ s) : Joins x y s := by
  induction s with
  | nil => exact ⟨List.isChain_nil, by simp⟩
  | cons c s ih =>
    rw [List.mem_cons, not_or] at h
    refine ⟨List.isChain_cons.mpr ⟨?_, (ih h.2).avoids⟩, ?_⟩
    · rintro b hb ⟨-, rfl⟩
      exact (ih h.2).head_ne hb
    · exact fun hc => h.1 (Option.some.inj hc).symm

variable [DecidableEq α]

/-- Cuts a text before the leftmost occurrence of a delimiter. If there is none,
the second part is empty. -/
def search (delim : List α) : List α → List α × List α
  | [] => ([], [])
  | c :: s =>
    if delim <+: c :: s then ([], c :: s)
    else (c :: (search delim s).1, (search delim s).2)

/-- `EndsAt delim s`: when the delimiter is put behind `s`, its first occurrence is there. -/
def EndsAt (delim s : List α) : Prop := search delim (s ++ delim) = (s, delim)

/-- `Absent delim s`: the delimiter does not occur in `s`. -/
def Absent (delim s : List α) : Prop := search delim s = (s, [])

/-- Nothing is lost in a cut. -/
theorem search_append (delim s : List α) : (search delim s).1 ++ (search delim s).2 = s := by
  induction s with
  | nil => rfl
  | cons c s ih =>
    rw [search]
    split_ifs
    · rfl
    · exact congrArg (c :: ·) ih

/-- Whatever follows the delimiter, the cut stays in front of it. -/
theorem EndsAt.search_eq {delim s : List α} (hdelim : delim ≠ []) (h : EndsAt delim s)
    (tail : List α) : search delim (s ++ (delim ++ tail)) = (s, delim ++ tail) := by
  induction s with
  | nil =>
    obtain ⟨c, d, rfl⟩ := List.exists_cons_of_ne_nil hdelim
    have hoccurs : c :: d <+: c :: (d ++ tail) := List.prefix_append (c :: d) tail
    rw [List.nil_append, List.cons_append, search, if_pos hoccurs]
  | cons c s ih =>
    rw [EndsAt, List.cons_append, search] at h
    split_ifs at h with hoccurs
    · simp at h
    · simp only [Prod.mk.injEq, List.cons.injEq, true_and] at h
      have hs : EndsAt delim s := Prod.ext h.1 h.2
      have hnot : ¬delim <+: c :: (s ++ (delim ++ tail)) := by
        intro hlong
        refine hoccurs (List.prefix_of_prefix_length_le hlong ?_ ?_)
        · exact ⟨tail, by simp⟩
        · simp only [List.length_cons, List.length_append]
          omega
      rw [List.cons_append, search, if_neg hnot, ih hs]

/-- Texts that end where the delimiter first occurs are determined by what they are
the beginning of. -/
theorem EndsAt.append_inj {delim s t s' t' : List α} (hdelim : delim ≠ []) (hs : EndsAt delim s)
    (ht : EndsAt delim t) (h : s ++ (delim ++ s') = t ++ (delim ++ t')) : s = t := by
  have hcut := congrArg (fun text => (search delim text).1) h
  simpa only [hs.search_eq hdelim, ht.search_eq hdelim] using hcut

/-- A delimiter whose first character does not occur in a text first occurs behind it. -/
theorem EndsAt.of_notMem {x : α} {d s : List α} (h : x ∉ s) : EndsAt (x :: d) s := by
  induction s with
  | nil => rw [EndsAt, List.nil_append, search, if_pos (List.prefix_refl _)]
  | cons c s ih =>
    rw [List.mem_cons, not_or] at h
    have hnot : ¬(x :: d) <+: c :: (s ++ x :: d) := fun hoccurs =>
      h.1 (List.cons_prefix_cons.mp hoccurs).1
    have htail : EndsAt (x :: d) s := ih h.2
    rw [EndsAt, List.cons_append, search, if_neg hnot, htail]

/-- A delimiter whose first two characters differ and do not stand next to each other
in a text first occurs behind the text. -/
theorem Avoids.endsAt {x y : α} {d s : List α} (hxy : x ≠ y) (h : Avoids x y s) :
    EndsAt (x :: y :: d) s := by
  induction s with
  | nil => rw [EndsAt, List.nil_append, search, if_pos (List.prefix_refl _)]
  | cons c s ih =>
    have hnot : ¬(x :: y :: d) <+: c :: (s ++ x :: y :: d) := by
      intro hoccurs
      obtain ⟨hx, hrest⟩ := List.cons_prefix_cons.mp hoccurs
      cases s with
      | nil => exact hxy (List.cons_prefix_cons.mp hrest).1.symm
      | cons c' s =>
        have hy := (List.cons_prefix_cons.mp hrest).1
        exact (List.isChain_cons_cons.mp h).1 ⟨hx.symm, hy.symm⟩
    have htail : EndsAt (x :: y :: d) s := ih h.tail
    rw [EndsAt, List.cons_append, search, if_neg hnot, htail]

/-- And it does not occur in the text. -/
theorem Avoids.absent {x y : α} {d s : List α} (h : Avoids x y s) : Absent (x :: y :: d) s := by
  induction s with
  | nil => rfl
  | cons c s ih =>
    have hnot : ¬(x :: y :: d) <+: c :: s := by
      intro hoccurs
      obtain ⟨hx, hrest⟩ := List.cons_prefix_cons.mp hoccurs
      cases s with
      | nil => simp at hrest
      | cons c' s =>
        have hy := (List.cons_prefix_cons.mp hrest).1
        exact (List.isChain_cons_cons.mp h).1 ⟨hx.symm, hy.symm⟩
    have htail : Absent (x :: y :: d) s := ih h.tail
    rw [Absent, search, if_neg hnot, htail]

end Delimited
