import Mathlib.Data.List.Sort
import Mathlib.Data.List.NodupEquivFin
import Mathlib.Algebra.Order.Field.Basic
import Mathlib.Tactic.Linarith

/-!
# Order statistics of lists with ties

What a selection algorithm promises about the element it puts at a position,
expressed by counting: an element has rank `n` when at most `n` elements are
strictly below it and more than `n` are not above it. A rank determines the
value, so that any two algorithms meeting the promise agree on it.
-/

namespace OrderStatistics

variable {α K : Type*} [LinearOrder K]

/-- `out` is `l` rearranged so that the keys never decrease. -/
structure IsSorting (key : α → K) (l out : List α) : Prop where
  /-- No element is lost or invented. -/
  perm : out.Perm l
  /-- Earlier keys are at most later keys. -/
  sorted : out.Pairwise fun a b => key a ≤ key b

/-- `out` is `l` rearranged around position `n`: nothing before it is larger and
nothing after it is smaller. -/
structure IsSelection (key : α → K) (n : ℕ) (l out : List α) : Prop where
  /-- No element is lost or invented. -/
  perm : out.Perm l
  /-- Nothing before the position is larger. -/
  before : ∀ i a b, i < n → out[i]? = some a → out[n]? = some b → key a ≤ key b
  /-- Nothing after the position is smaller. -/
  after : ∀ i a b, n < i → out[i]? = some a → out[n]? = some b → key b ≤ key a

/-- `x` is the value that sorting puts at position `n`: at most `n` values are
below it and more than `n` are not above it. -/
structure HasRank (values : List K) (n : ℕ) (x : K) : Prop where
  /-- At most `n` values are smaller. -/
  below : values.countP (· < x) ≤ n
  /-- More than `n` values are at most `x`. -/
  upTo : n < values.countP (· ≤ x)

/-- Sorting rearranged elements sorts the elements. -/
theorem IsSorting.of_perm {key : α → K} {l l' out : List α} (h : IsSorting key l' out)
    (hperm : l'.Perm l) : IsSorting key l out :=
  ⟨h.perm.trans hperm, h.sorted⟩

/-- A sorting is a selection around each of its positions. -/
theorem IsSorting.isSelection {key : α → K} {l out : List α} (h : IsSorting key l out) (n : ℕ) :
    IsSelection key n l out := by
  have hle {i j : ℕ} {a b : α} (hij : i < j) (ha : out[i]? = some a) (hb : out[j]? = some b) :
      key a ≤ key b := by
    obtain ⟨hi, rfl⟩ := List.getElem?_eq_some_iff.mp ha
    obtain ⟨hj, rfl⟩ := List.getElem?_eq_some_iff.mp hb
    exact List.pairwise_iff_getElem.mp h.sorted i j hi hj hij
  exact ⟨h.perm, fun i a b hi ha hb => hle hi ha hb, fun i a b hi ha hb => hle hi hb ha⟩

/-- When the elements up to a position have keys up to `x`, the list has more
such elements than that position. -/
theorem lt_countP_of_forall_le {key : α → K} {l out : List α} {n : ℕ} {x : K} (hperm : out.Perm l)
    (hn : n < out.length) (h : ∀ i b, i ≤ n → out[i]? = some b → key b ≤ x) :
    n < (l.map key).countP (· ≤ x) := by
  rw [(hperm.symm.map key).countP_eq]
  have hall : ((out.take (n + 1)).map key).countP (· ≤ x) = n + 1 := by
    rw [List.countP_eq_length.mpr, List.length_map, List.length_take]
    · omega
    · intro y hy
      obtain ⟨b, hb, rfl⟩ := List.mem_map.mp hy
      obtain ⟨i, hi, rfl⟩ := List.mem_iff_getElem.mp hb
      rw [List.length_take] at hi
      simp only [List.getElem_take, decide_eq_true_eq]
      exact h i _ (by omega) (List.getElem?_eq_getElem (by omega))
  have hsub : ((out.take (n + 1)).map key).Sublist (out.map key) :=
    (List.take_sublist _ _).map key
  have := hsub.countP_le (p := (· ≤ x))
  omega

/-- The element a selection puts at its position has the rank of that position. -/
theorem IsSelection.hasRank {key : α → K} {l out : List α} {n : ℕ} (h : IsSelection key n l out)
    {a : α} (ha : out[n]? = some a) : HasRank (l.map key) n (key a) := by
  obtain ⟨hn, rfl⟩ := List.getElem?_eq_some_iff.mp ha
  have hperm : (l.map key).Perm (out.map key) := h.perm.symm.map key
  have hsplit : out.map key = (out.take n).map key ++ (out.drop n).map key := by
    rw [← List.map_append, List.take_append_drop]
  constructor
  · rw [hperm.countP_eq, hsplit, List.countP_append]
    have htake : ((out.take n).map key).countP (· < key out[n]) ≤ n := by
      refine List.countP_le_length.trans ?_
      simp
    have hdrop : ((out.drop n).map key).countP (· < key out[n]) = 0 := by
      rw [List.countP_eq_zero]
      intro x hx
      obtain ⟨b, hb, rfl⟩ := List.mem_map.mp hx
      obtain ⟨i, hi, rfl⟩ := List.mem_iff_getElem.mp hb
      rw [List.length_drop] at hi
      simp only [List.getElem_drop, decide_eq_true_eq, not_lt]
      rcases Nat.eq_zero_or_pos i with rfl | hpos
      · simp
      · exact h.after (n + i) _ _ (by omega) (List.getElem?_eq_getElem (by omega)) ha
    omega
  · apply lt_countP_of_forall_le h.perm hn
    intro i b hi hb
    rcases Nat.lt_or_ge i n with hlt | hge
    · exact h.before i _ _ hlt hb ha
    · obtain rfl : i = n := by omega
      rw [ha] at hb
      exact (congrArg key (Option.some.inj hb)).ge

/-- The element right after the one a selection puts at its position has at
least as many values up to it as its own position. -/
theorem IsSelection.lt_countP_next {key : α → K} {l out : List α} {n : ℕ}
    (h : IsSelection key n l out) {b : α} (hb : out[n + 1]? = some b) :
    n + 1 < (l.map key).countP (· ≤ key b) := by
  obtain ⟨hn, -⟩ := List.getElem?_eq_some_iff.mp hb
  have ha : out[n]? = some out[n] := List.getElem?_eq_getElem (by omega)
  have hab := h.after (n + 1) _ _ (by omega) hb ha
  apply lt_countP_of_forall_le h.perm hn
  intro i c hi hc
  rcases Nat.lt_trichotomy i n with hlt | rfl | hgt
  · exact (h.before i _ _ hlt hc ha).trans hab
  · rw [ha] at hc
    rwa [← Option.some.inj hc]
  · obtain rfl : i = n + 1 := by omega
    rw [hb] at hc
    exact (congrArg key (Option.some.inj hc)).ge

/-- A position determines the value of that rank. -/
theorem HasRank.unique {values : List K} {n : ℕ} {x y : K} (hx : HasRank values n x)
    (hy : HasRank values n y) : x = y := by
  have hle {x y : K} (hx : HasRank values n x) (hy : HasRank values n y) : y ≤ x := by
    by_contra hlt
    have hmono : values.countP (· ≤ x) ≤ values.countP (· < y) := by
      apply List.countP_mono_left
      intro z _ hz
      simp only [decide_eq_true_eq] at hz ⊢
      exact lt_of_le_of_lt hz (not_le.mp hlt)
    have := hx.upTo
    have := hy.below
    omega
  exact le_antisymm (hle hy hx) (hle hx hy)

/-- Values of increasing rank never decrease. -/
theorem HasRank.le {values : List K} {m n : ℕ} {x y : K} (hx : HasRank values m x)
    (hy : HasRank values n y) (hmn : m ≤ n) : x ≤ y := by
  by_contra hlt
  have hmono : values.countP (· ≤ y) ≤ values.countP (· < x) := by
    apply List.countP_mono_left
    intro z _ hz
    simp only [decide_eq_true_eq] at hz ⊢
    exact lt_of_le_of_lt hz (not_le.mp hlt)
  have := hx.below
  have := hy.upTo
  omega

/-- The values below a threshold, on it and above it make up the list. -/
theorem countP_lt_add_eq_add_gt (values : List K) (x : K) :
    values.countP (· < x) + values.countP (· = x) + values.countP (x < ·) = values.length := by
  induction values with
  | nil => rfl
  | cons v values ih =>
    rcases lt_trichotomy v x with h | rfl | h
    · simp [h, h.ne, h.not_gt]; omega
    · simp; omega
    · simp [h, h.ne', h.not_gt]; omega

/-- The values not above a threshold are those below it and those on it. -/
theorem countP_le_eq (values : List K) (x : K) :
    values.countP (· ≤ x) = values.countP (· < x) + values.countP (· = x) := by
  induction values with
  | nil => rfl
  | cons v values ih =>
    rcases lt_trichotomy v x with h | rfl | h
    · simp [h, h.ne, h.le]; omega
    · simp; omega
    · simp [h.ne', h.not_gt, h.not_ge]; omega

/-- A value of some rank is one of the values. -/
theorem HasRank.mem {values : List K} {n : ℕ} {x : K} (h : HasRank values n x) : x ∈ values := by
  by_contra hx
  have htie : values.countP (· = x) = 0 := by
    rw [List.countP_eq_zero]
    intro y hy
    simp only [decide_eq_true_eq]
    rintro rfl
    exact hx hy
  have := countP_le_eq values x
  have := h.below
  have := h.upTo
  omega

/-- The values in order. -/
def inOrder (values : List K) : List K := values.insertionSort (· ≤ ·)

/-- Ordering loses no value. -/
@[simp] theorem inOrder_length (values : List K) : (inOrder values).length = values.length :=
  List.length_insertionSort _ _

/-- The value at a position of the ordered list has the rank of that position. -/
theorem hasRank_inOrder {values : List K} {n : ℕ} {x : K} (h : (inOrder values)[n]? = some x) :
    HasRank values n x := by
  have hsort : IsSorting id values (inOrder values) :=
    ⟨List.perm_insertionSort _ _, List.pairwise_insertionSort _ _⟩
  simpa using (hsort.isSelection n).hasRank h

/-- The ordered list never decreases. -/
theorem inOrder_le {values : List K} {m n : ℕ} {x y : K} (hmn : m ≤ n)
    (hx : (inOrder values)[m]? = some x) (hy : (inOrder values)[n]? = some y) : x ≤ y :=
  (hasRank_inOrder hx).le (hasRank_inOrder hy) hmn

/-- Selects position `n` by sorting and reverses what lies above it: the
selection that puts the largest value right after the selected one. -/
def reverseAbove (key : α → K) (n : ℕ) (l : List α) : List α :=
  let sorted := l.insertionSort fun a b => key a ≤ key b
  sorted.take (n + 1) ++ (sorted.drop (n + 1)).reverse

/-- Sorting by a key with insertions. -/
theorem isSorting_insertionSort (key : α → K) (l : List α) :
    IsSorting key l (l.insertionSort fun a b => key a ≤ key b) := by
  have : Std.Total fun a b : α => key a ≤ key b := ⟨fun a b => le_total (key a) (key b)⟩
  have : IsTrans α fun a b => key a ≤ key b := ⟨fun _ _ _ => le_trans⟩
  exact ⟨List.perm_insertionSort _ _, List.pairwise_insertionSort _ _⟩

/-- Reversing what lies above a position leaves a selection around it. -/
theorem isSelection_reverseAbove (key : α → K) (n : ℕ) (l : List α) (hn : n < l.length) :
    IsSelection key n l (reverseAbove key n l) := by
  have hsort := isSorting_insertionSort key l
  have hlen : n < (l.insertionSort fun a b => key a ≤ key b).length := by
    rwa [List.length_insertionSort]
  unfold reverseAbove
  generalize (l.insertionSort fun a b => key a ≤ key b) = sorted at hsort hlen
  have hsel := hsort.isSelection n
  have htake : (sorted.take (n + 1)).length = n + 1 := by rw [List.length_take]; omega
  have hlow {i : ℕ} (hi : i ≤ n) :
      (sorted.take (n + 1) ++ (sorted.drop (n + 1)).reverse)[i]? = sorted[i]? := by
    rw [List.getElem?_append_left (by omega), List.getElem?_take, if_pos (by omega)]
  refine ⟨?_, ?_, ?_⟩
  · refine List.Perm.trans ?_ hsort.perm
    conv_rhs => rw [← List.take_append_drop (n + 1) sorted]
    exact (List.reverse_perm _).append_left _
  · intro i a b hi ha hb
    rw [hlow hi.le] at ha
    rw [hlow le_rfl] at hb
    exact hsel.before i a b hi ha hb
  · intro i a b hi ha hb
    rw [hlow le_rfl] at hb
    rw [List.getElem?_append_right (by omega)] at ha
    obtain ⟨j, hj⟩ := List.mem_iff_getElem?.mp (List.mem_reverse.mp (List.mem_of_getElem? ha))
    rw [List.getElem?_drop] at hj
    exact hsel.after (n + 1 + j) a b (by omega) hj hb

/-- Splitting at the middle of an odd number of values: at most half are below
the threshold and more than half are below or on it. -/
theorem HasRank.middle_counts {values : List K} {k : ℕ} {x : K} (h : HasRank values k x) :
    values.countP (· < x) ≤ k ∧ k < values.countP (· < x) + values.countP (· = x) := by
  refine ⟨h.below, ?_⟩
  rw [← countP_le_eq]
  exact h.upTo

/-- Splitting between two different values puts at least those up to the lower
one below the threshold. -/
theorem HasRank.lt_countP_of_lt {values : List K} {k : ℕ} {a x : K} (h : HasRank values k a)
    (hax : a < x) : k < values.countP (· < x) := by
  refine lt_of_lt_of_le h.upTo (List.countP_mono_left ?_)
  intro y _ hy
  simp only [decide_eq_true_eq] at hy ⊢
  exact lt_of_le_of_lt hy hax

/-- Splitting below a value of rank `k` leaves at most `k` values below the threshold or on it. -/
theorem HasRank.countP_le_of_lt {values : List K} {k : ℕ} {b x : K} (h : HasRank values k b)
    (hxb : x < b) : values.countP (· < x) + values.countP (· = x) ≤ k := by
  rw [← countP_le_eq]
  refine le_trans (List.countP_mono_left ?_) h.below
  intro y _ hy
  simp only [decide_eq_true_eq] at hy ⊢
  exact lt_of_le_of_lt hy hxb

/-- A value that more values lie up to than the rank of another is not below that. -/
theorem HasRank.le_of_lt_countP {values : List K} {k : ℕ} {a b : K} (h : HasRank values k a)
    (hb : k < values.countP (· ≤ b)) : a ≤ b := by
  by_contra hlt
  have hbelow := h.countP_le_of_lt (not_le.mp hlt)
  rw [← countP_le_eq] at hbelow
  omega

/-- What a reversed selection puts right after its position is the largest element. -/
theorem getElem?_reverseAbove_next (key : α → K) {n : ℕ} {l : List α} (hn : n + 1 < l.length) :
    (reverseAbove key n l)[n + 1]? =
      (l.insertionSort fun a b => key a ≤ key b)[l.length - 1]? := by
  have hlen : (l.insertionSort fun a b => key a ≤ key b).length = l.length :=
    List.length_insertionSort _ _
  unfold reverseAbove
  rw [List.getElem?_append_right (by rw [List.length_take]; omega), List.length_take, hlen,
    Nat.min_eq_left hn.le, Nat.sub_self, List.getElem?_reverse (by rw [List.length_drop]; omega),
    List.getElem?_drop, List.length_drop, hlen]
  congr 1
  omega

/-- The one middle value of an odd number of values, or the two of an even number. -/
def middleValues (values : List K) : List K :=
  ((inOrder values).drop ((values.length - 1) / 2)).take (2 - values.length % 2)

/-- The median, which is the mean of the middle values. -/
def medianValue [Field K] (values : List K) : K :=
  (middleValues values).sum / (middleValues values).length

end OrderStatistics
