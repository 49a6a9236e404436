import Kdtree.General.Delimited

/-!
# Cutting a text at every delimiter

Where a delimiter first occurs, said without the search that finds it, and the
pieces of a text that is cut there, and again behind each cut. The pieces are
determined by the text, and put together again with the delimiter between them.
-/

namespace Delimited

variable {α : Type*}

/-- `FirstAt delim s n`: the first occurrence of the delimiter in the text is at
position `n`. -/
structure FirstAt (delim s : List α) (n : ℕ) : Prop where
  /-- The delimiter occurs there. -/
  occurs : delim <+: s.drop n
  /-- It does not occur earlier. -/
  first : ∀ m < n, ¬delim <+: s.drop m

/-- `Cuts delim s pieces`: these are the pieces of the text between the leftmost
delimiters that do not overlap. -/
inductive Cuts (delim : List α) : List α → List (List α) → Prop
  | last {s : List α} (habsent : ¬delim <:+: s) : Cuts delim s [s]
  | cut {p rest : List α} {pieces : List (List α)}
      (hfirst : FirstAt delim (p ++ (delim ++ rest)) p.length) (hrest : Cuts delim rest pieces) :
      Cuts delim (p ++ (delim ++ rest)) (p :: pieces)

/-- In front of and behind the first occurrence there is the rest of the text. -/
theorem FirstAt.exists_rest {delim s : List α} {n : ℕ} (hdelim : delim ≠ [])
    (h : FirstAt delim s n) : ∃ p rest, s = p ++ (delim ++ rest) ∧ p.length = n := by
  obtain ⟨rest, hrest⟩ := h.occurs
  have hlength := congrArg List.length hrest
  have := List.length_pos_iff.mpr hdelim
  rw [List.length_append, List.length_drop] at hlength
  exact ⟨s.take n, rest, by rw [hrest, List.take_append_drop], by rw [List.length_take]; omega⟩

/-- What follows the delimiter does not matter to where it first occurs. -/
theorem FirstAt.of_append {delim s tail : List α}
    (h : FirstAt delim (s ++ (delim ++ tail)) s.length) : FirstAt delim (s ++ delim) s.length := by
  refine ⟨by simp, fun m hm hoccurs => h.first m hm ?_⟩
  rw [← List.append_assoc, List.drop_append_of_le_length (by simp; omega)]
  exact hoccurs.trans (List.prefix_append _ _)

/-- There is always a last piece. -/
theorem Cuts.ne_nil {delim s : List α} {pieces : List (List α)} (h : Cuts delim s pieces) :
    pieces ≠ [] := by
  cases h <;> simp

/-- With the delimiter between them, the pieces are the text. -/
theorem Cuts.intercalate_eq {delim s : List α} {pieces : List (List α)} (h : Cuts delim s pieces) :
    delim.intercalate pieces = s := by
  induction h with
  | last _ => simp [List.intercalate]
  | @cut p rest pieces _ hrest ih =>
    obtain ⟨q, pieces, rfl⟩ := List.exists_cons_of_ne_nil hrest.ne_nil
    rw [← ih]
    simp [List.intercalate]

/-- At the beginning of every piece but the last, the delimiter first occurs behind
that piece. -/
theorem Cuts.firstAt {delim s : List α} {pieces before after : List (List α)} {p : List α}
    (h : Cuts delim s pieces) (hpieces : pieces = before ++ p :: after) (hafter : after ≠ []) :
    FirstAt delim (s.drop (before.flatMap fun q => q ++ delim).length) p.length := by
  induction h generalizing before with
  | last _ =>
    have hlength := congrArg List.length hpieces
    have := List.length_pos_iff.mpr hafter
    simp only [List.length_cons, List.length_nil, List.length_append] at hlength
    omega
  | @cut q rest pieces hfirst _ ih =>
    cases before with
    | nil =>
      obtain ⟨rfl, rfl⟩ := List.cons.inj hpieces
      exact hfirst
    | cons q' before =>
      obtain ⟨rfl, htail⟩ := List.cons.inj hpieces
      have hdrop : (q ++ (delim ++ rest)).drop
          ((q :: before).flatMap fun q => q ++ delim).length =
            rest.drop (before.flatMap fun q => q ++ delim).length := by
        rw [← List.append_assoc, List.flatMap_cons, List.length_append, List.drop_length_add_append]
      rw [hdrop]
      exact ih htail

/-- The last piece does not contain the delimiter. -/
theorem Cuts.last_absent {delim s : List α} {pieces before : List (List α)} {p : List α}
    (h : Cuts delim s pieces) (hpieces : pieces = before ++ [p]) : ¬delim <:+: p := by
  induction h generalizing before with
  | @last s habsent =>
    obtain rfl : s = p := by
      have := congrArg List.getLast? hpieces
      simpa using this
    exact habsent
  | @cut q rest pieces _ hrest ih =>
    cases before with
    | nil => exact absurd (List.cons.inj hpieces).2 hrest.ne_nil
    | cons q' before => exact ih (List.cons.inj hpieces).2

/-- A text has at most one piece more than characters. -/
theorem Cuts.length_le {delim s : List α} {pieces : List (List α)} (hdelim : delim ≠ [])
    (h : Cuts delim s pieces) : pieces.length ≤ s.length + 1 := by
  induction h with
  | last _ => simp
  | cut _ _ ih =>
    have := List.length_pos_iff.mpr hdelim
    simp only [List.length_cons, List.length_append]
    omega

/-- Cut at a single character, no piece contains it. -/
theorem Cuts.notMem {x : α} {s : List α} {pieces : List (List α)} (h : Cuts [x] s pieces) :
    ∀ p ∈ pieces, x ∉ p := by
  induction h with
  | last habsent =>
    intro p hp hx
    obtain rfl := List.mem_singleton.mp hp
    exact habsent ((List.singleton_infix_iff _ _).mpr hx)
  | @cut q rest pieces hfirst _ ih =>
    intro p hp hx
    rcases List.mem_cons.mp hp with rfl | hp
    · obtain ⟨before, after, rfl⟩ := List.mem_iff_append.mp hx
      exact hfirst.first before.length (by simp) (by simp)
    · exact ih p hp hx

variable [DecidableEq α]

/-- Cut at a single character, the pieces are those of `List.splitOn`. -/
theorem Cuts.eq_splitOn {x : α} {s : List α} {pieces : List (List α)} (h : Cuts [x] s pieces) :
    pieces = s.splitOn x := by
  rw [← h.intercalate_eq, List.splitOn_intercalate x h.notMem h.ne_nil]

instance (delim s : List α) (n : ℕ) : Decidable (FirstAt delim s n) :=
  decidable_of_iff (delim <+: s.drop n ∧ ∀ m < n, ¬delim <+: s.drop m)
    ⟨fun h => ⟨h.1, h.2⟩, fun h => ⟨h.1, h.2⟩⟩

/-- A text is cut in front of the first occurrence of the delimiter. -/
theorem FirstAt.search_eq {delim s : List α} {n : ℕ} (h : FirstAt delim s n) :
    search delim s = (s.take n, s.drop n) := by
  induction s generalizing n with
  | nil => simp [search]
  | cons c s ih =>
    cases n with
    | zero => rw [search, if_pos (by simpa using h.occurs), List.take_zero, List.drop_zero]
    | succ n =>
      have hnot : ¬delim <+: c :: s := h.first 0 (Nat.succ_pos n)
      have htail : FirstAt delim s n :=
        ⟨h.occurs, fun m hm => h.first (m + 1) (Nat.succ_lt_succ hm)⟩
      rw [search, if_neg hnot, ih htail, List.take_succ_cons, List.drop_succ_cons]

/-- A search that leaves a text behind the cut has found the first occurrence. -/
theorem firstAt_of_search {delim s : List α} (h : (search delim s).2 ≠ []) :
    FirstAt delim s (search delim s).1.length := by
  induction s with
  | nil => exact absurd rfl h
  | cons c s ih =>
    rw [search] at h ⊢
    split_ifs at h ⊢ with hoccurs
    · exact ⟨hoccurs, fun m hm => absurd hm (Nat.not_lt_zero m)⟩
    · have htail := ih h
      refine ⟨htail.occurs, fun m hm => ?_⟩
      cases m with
      | zero => exact hoccurs
      | succ m => exact htail.first m (Nat.lt_of_succ_lt_succ hm)

/-- The search finds nothing if and only if the delimiter does not occur. -/
theorem search_snd_eq_nil_iff {delim s : List α} (hdelim : delim ≠ []) :
    (search delim s).2 = [] ↔ ¬delim <:+: s := by
  induction s with
  | nil => simp [search, hdelim]
  | cons c s ih =>
    rw [search, List.infix_cons_iff]
    split_ifs with hoccurs
    · simp [hoccurs]
    · simpa [hoccurs] using ih

/-- A delimiter is absent if and only if it does not occur. -/
theorem absent_iff {delim s : List α} (hdelim : delim ≠ []) : Absent delim s ↔ ¬delim <:+: s := by
  rw [← search_snd_eq_nil_iff hdelim, Absent]
  constructor
  · intro h
    rw [h]
  · intro h
    have happend := search_append delim s
    rw [h, List.append_nil] at happend
    exact Prod.ext happend h

/-- A text ends where the delimiter first occurs in the text followed by the delimiter. -/
theorem endsAt_iff {delim s : List α} (hdelim : delim ≠ []) :
    EndsAt delim s ↔ FirstAt delim (s ++ delim) s.length := by
  constructor
  · intro h
    have hfound : (search delim (s ++ delim)).2 ≠ [] := by
      rw [h]
      exact hdelim
    have hfirst := firstAt_of_search hfound
    rwa [h] at hfirst
  · intro h
    rw [EndsAt, h.search_eq, List.take_left, List.drop_left]

/-- A piece that ends where the delimiter first occurs is cut off, whatever follows. -/
theorem Cuts.cons {delim p rest : List α} {pieces : List (List α)} (hdelim : delim ≠ [])
    (hends : EndsAt delim p) (hrest : Cuts delim rest pieces) :
    Cuts delim (p ++ (delim ++ rest)) (p :: pieces) := by
  have hsearch := hends.search_eq hdelim rest
  have hfound : (search delim (p ++ (delim ++ rest))).2 ≠ [] := by
    rw [hsearch]
    exact List.append_ne_nil_of_left_ne_nil hdelim _
  have hfirst := firstAt_of_search hfound
  rw [hsearch] at hfirst
  exact .cut hfirst hrest

/-- Pieces that were each followed by the delimiter come back, with an empty one behind
the last delimiter. -/
theorem cuts_flatMap {delim : List α} (hdelim : delim ≠ []) {pieces : List (List α)}
    (hpieces : ∀ p ∈ pieces, EndsAt delim p) :
    Cuts delim (pieces.flatMap fun p => p ++ delim) (pieces ++ [[]]) := by
  induction pieces with
  | nil => exact .last (by simpa using hdelim)
  | cons p pieces ih =>
    rw [List.flatMap_cons, List.append_assoc]
    exact Cuts.cons hdelim (hpieces p List.mem_cons_self)
      (ih fun q hq => hpieces q (List.mem_cons_of_mem _ hq))

/-- Every text can be cut. -/
theorem exists_cuts {delim : List α} (hdelim : delim ≠ []) (s : List α) :
    ∃ pieces, Cuts delim s pieces := by
  induction hn : s.length using Nat.strong_induction_on generalizing s with
  | _ n ih =>
    subst hn
    by_cases hfound : (search delim s).2 = []
    · exact ⟨[s], .last ((search_snd_eq_nil_iff hdelim).mp hfound)⟩
    · have hfirst := firstAt_of_search hfound
      obtain ⟨p, rest, rfl, hp⟩ := hfirst.exists_rest hdelim
      have := List.length_pos_iff.mpr hdelim
      obtain ⟨pieces, hpieces⟩ := ih rest.length (by simp only [List.length_append]; omega) rest rfl
      exact ⟨p :: pieces, .cut (hp ▸ hfirst) hpieces⟩

end Delimited
