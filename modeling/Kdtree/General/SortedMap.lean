import Mathlib.Data.List.Pairwise
import Mathlib.Order.Lattice

/-!
# Maps kept as lists of entries in the order of their keys

An entry replaces the one with the same key or takes its place in the order.
Inserting the entries of a map one after the other rebuilds the map.
-/

/-- A map from keys to values: its entries, with growing keys. -/
@[ext] structure SortedMap (κ ν : Type*) [LinearOrder κ] where
  /-- The entries, in the order of their keys. -/
  entries : List (κ × ν)
  /-- The keys grow. -/
  sorted : entries.Pairwise fun a b => a.1 < b.1

namespace SortedMap

variable {κ ν : Type*} [LinearOrder κ]

/-- The map without entries. -/
def empty : SortedMap κ ν := ⟨[], .nil⟩

/-- Puts an entry into its place. -/
def insertEntry (k : κ) (v : ν) : List (κ × ν) → List (κ × ν)
  | [] => [(k, v)]
  | (k', v') :: l =>
    if k < k' then (k, v) :: (k', v') :: l
    else if k = k' then (k, v) :: l
    else (k', v') :: insertEntry k v l

/-- The keys after an insertion are the new one and the old ones. -/
theorem mem_insertEntry {k : κ} {v : ν} {l : List (κ × ν)} {e : κ × ν}
    (he : e ∈ insertEntry k v l) : e = (k, v) ∨ e ∈ l := by
  induction l with
  | nil => exact .inl (List.mem_singleton.mp he)
  | cons e' l ih =>
    rw [insertEntry] at he
    split_ifs at he
    · exact List.mem_cons.mp he
    · exact (List.mem_cons.mp he).imp id (List.mem_cons_of_mem _)
    · rcases List.mem_cons.mp he with rfl | he
      · exact .inr List.mem_cons_self
      · exact (ih he).imp id (List.mem_cons_of_mem _)

/-- An insertion keeps the keys in order. -/
theorem sorted_insertEntry {k : κ} {v : ν} {l : List (κ × ν)}
    (hl : l.Pairwise fun a b => a.1 < b.1) :
    (insertEntry k v l).Pairwise fun a b => a.1 < b.1 := by
  induction l with
  | nil => exact List.pairwise_singleton _ _
  | cons e l ih =>
    obtain ⟨he, hl'⟩ := List.pairwise_cons.mp hl
    rw [insertEntry]
    split_ifs with hlt heq
    · refine List.pairwise_cons.mpr ⟨fun b hb => ?_, hl⟩
      rcases List.mem_cons.mp hb with rfl | hb
      · exact hlt
      · exact hlt.trans (he b hb)
    · exact List.pairwise_cons.mpr ⟨fun b hb => heq ▸ he b hb, hl'⟩
    · refine List.pairwise_cons.mpr ⟨fun b hb => ?_, ih hl'⟩
      rcases mem_insertEntry hb with rfl | hb
      · exact lt_of_le_of_ne (not_lt.mp hlt) (Ne.symm heq)
      · exact he b hb

/-- Stores a value under a key. -/
def insert (m : SortedMap κ ν) (k : κ) (v : ν) : SortedMap κ ν :=
  ⟨insertEntry k v m.entries, sorted_insertEntry m.sorted⟩

/-- The value under a key, or a default. -/
def getD (m : SortedMap κ ν) (k : κ) (default : ν) : ν :=
  match m.entries.find? fun e => e.1 = k with
  | some e => e.2
  | none => default

/-- A key above all others goes to the end. -/
theorem insertEntry_of_forall_lt {k : κ} {v : ν} {l : List (κ × ν)} (h : ∀ e ∈ l, e.1 < k) :
    insertEntry k v l = l ++ [(k, v)] := by
  induction l with
  | nil => rfl
  | cons e l ih =>
    have he := h e List.mem_cons_self
    rw [insertEntry, if_neg he.not_gt, if_neg he.ne', ih fun e' he' =>
      h e' (List.mem_cons_of_mem _ he'), List.cons_append]

/-- Inserting the rest of the entries of a map in their order completes the map. -/
theorem foldl_insert_entries (m : SortedMap κ ν) {l : List (κ × ν)} (start : SortedMap κ ν)
    (h : start.entries ++ l = m.entries) : l.foldl (fun m' e => m'.insert e.1 e.2) start = m := by
  induction l generalizing start with
  | nil => exact SortedMap.ext (by simpa using h)
  | cons e l ih =>
    have hsorted := h ▸ m.sorted
    have hlt : ∀ e' ∈ start.entries, e'.1 < e.1 := fun e' he' =>
      (List.pairwise_append.mp hsorted).2.2 e' he' e List.mem_cons_self
    refine ih _ ?_
    simp only [SortedMap.insert, insertEntry_of_forall_lt hlt, ← h, List.append_assoc,
      List.singleton_append]

end SortedMap
