import Kdtree.SplitPoint

/-!
# Dealing a segment to the two sides of a plane

The loop of `SplitSegments::generate` sends samples on the threshold to the two
sides in turn. Its sides are a permutation of the segment, they respect the
threshold, and their sizes are determined by the numbers of samples below the
threshold, on it and above it.
-/

namespace Kdtree

open OrderStatistics SplitSegments

variable {K : Type} [LinearOrder K]

/-- One round places one sample, on a side that its coefficient allows. -/
theorem deal_cases (samples : Samples K) (x : K) (d : ℕ) (dealt : Dealt) (sampleId : ℕ) :
    (samples.coeff sampleId d ≤ x ∧
      (deal samples x d dealt sampleId).sampleIdsLessThanThreshold =
        dealt.sampleIdsLessThanThreshold ++ [sampleId] ∧
      (deal samples x d dealt sampleId).sampleIdsGreaterThanThreshold =
        dealt.sampleIdsGreaterThanThreshold) ∨
    (x ≤ samples.coeff sampleId d ∧
      (deal samples x d dealt sampleId).sampleIdsLessThanThreshold =
        dealt.sampleIdsLessThanThreshold ∧
      (deal samples x d dealt sampleId).sampleIdsGreaterThanThreshold =
        dealt.sampleIdsGreaterThanThreshold ++ [sampleId]) := by
  rcases lt_trichotomy (samples.coeff sampleId d) x with h | h | h
  · left
    simp [deal, h, h.le]
  · cases hput : dealt.putInLessThanIfEqual with
    | true =>
      left
      simp [deal, h, hput]
    | false =>
      right
      simp [deal, h, hput]
  · right
    simp [deal, h, h.le, h.not_gt]

/-- After the loop, the less side has gained samples up to the threshold, the
greater side samples from the threshold on, and together they hold them all. -/
theorem foldl_deal (samples : Samples K) (x : K) (d : ℕ) (ids : List ℕ) (dealt : Dealt) :
    ∃ less greater,
      (ids.foldl (deal samples x d) dealt).sampleIdsLessThanThreshold =
        dealt.sampleIdsLessThanThreshold ++ less ∧
      (ids.foldl (deal samples x d) dealt).sampleIdsGreaterThanThreshold =
        dealt.sampleIdsGreaterThanThreshold ++ greater ∧
      (less ++ greater).Perm ids ∧ (∀ i ∈ less, samples.coeff i d ≤ x) ∧
      ∀ i ∈ greater, x ≤ samples.coeff i d := by
  induction ids generalizing dealt with
  | nil => exact ⟨[], [], by simp, by simp, .refl _, by simp, by simp⟩
  | cons sampleId ids ih =>
    obtain ⟨less, greater, hless, hgreater, hperm, hle, hge⟩ := ih (deal samples x d dealt sampleId)
    rw [List.foldl_cons, hless, hgreater]
    rcases deal_cases samples x d dealt sampleId with ⟨hx, h1, h2⟩ | ⟨hx, h1, h2⟩
    · refine ⟨sampleId :: less, greater, by simp [h1], by rw [h2], ?_, ?_, hge⟩
      · exact hperm.cons sampleId
      · simpa using ⟨hx, hle⟩
    · refine ⟨less, sampleId :: greater, by rw [h1], by simp [h2], ?_, hle, ?_⟩
      · exact List.perm_middle.trans (hperm.cons sampleId)
      · simpa using ⟨hx, hge⟩

/-- The sizes of the two sides after the loop: ties alternate, starting with the
side that is next. -/
theorem foldl_deal_length (samples : Samples K) (x : K) (d : ℕ) (ids : List ℕ) (dealt : Dealt) :
    (ids.foldl (deal samples x d) dealt).sampleIdsLessThanThreshold.length =
        dealt.sampleIdsLessThanThreshold.length + (ids.map (samples.coeff · d)).countP (· < x) +
          ((ids.map (samples.coeff · d)).countP (· = x) +
            dealt.putInLessThanIfEqual.toNat) / 2 ∧
      (ids.foldl (deal samples x d) dealt).sampleIdsGreaterThanThreshold.length =
        dealt.sampleIdsGreaterThanThreshold.length +
          (ids.map (samples.coeff · d)).countP (x < ·) +
          ((ids.map (samples.coeff · d)).countP (· = x) +
            (!dealt.putInLessThanIfEqual).toNat) / 2 := by
  induction ids generalizing dealt with
  | nil => cases h : dealt.putInLessThanIfEqual <;> simp
  | cons sampleId ids ih =>
    rw [List.foldl_cons]
    obtain ⟨h1, h2⟩ := ih (deal samples x d dealt sampleId)
    rw [h1, h2]
    rcases lt_trichotomy (samples.coeff sampleId d) x with h | h | h
    · simp [deal, h, h.ne, h.not_gt]
      omega
    · cases hput : dealt.putInLessThanIfEqual <;> simp [deal, h, hput] <;> omega
    · simp [deal, h, h.ne', h.not_gt]
      omega

/-- Dealing samples of which at most one lies on the threshold: it goes to the side whose
turn it is, and here that is the less side. -/
theorem foldl_deal_of_le_one (samples : Samples K) (x : K) (d : ℕ) (ids : List ℕ) (dealt : Dealt)
    (hone : ids.countP (fun i => samples.coeff i d = x) ≤ dealt.putInLessThanIfEqual.toNat) :
    (ids.foldl (deal samples x d) dealt).sampleIdsLessThanThreshold =
        dealt.sampleIdsLessThanThreshold ++ ids.filter (fun i => samples.coeff i d ≤ x) ∧
      (ids.foldl (deal samples x d) dealt).sampleIdsGreaterThanThreshold =
        dealt.sampleIdsGreaterThanThreshold ++ ids.filter (fun i => x < samples.coeff i d) := by
  induction ids generalizing dealt with
  | nil => simp
  | cons i ids ih =>
    rw [List.foldl_cons]
    rw [List.countP_cons] at hone
    rcases lt_trichotomy (samples.coeff i d) x with h | h | h
    · have hdeal : deal samples x d dealt i = { dealt with
          sampleIdsLessThanThreshold := dealt.sampleIdsLessThanThreshold ++ [i] } := by
        simp [deal, h]
      rw [hdeal]
      obtain ⟨hless, hgreater⟩ := ih { dealt with
        sampleIdsLessThanThreshold := dealt.sampleIdsLessThanThreshold ++ [i] } (by simp; omega)
      simp [hless, hgreater, h.le, h.not_gt]
    · cases hput : dealt.putInLessThanIfEqual with
      | false => simp [h, hput] at hone
      | true =>
        have hdeal : deal samples x d dealt i =
            ⟨dealt.sampleIdsLessThanThreshold ++ [i], dealt.sampleIdsGreaterThanThreshold,
              false⟩ := by
          simp [deal, h, hput]
        rw [hdeal]
        obtain ⟨hless, hgreater⟩ := ih ⟨dealt.sampleIdsLessThanThreshold ++ [i],
          dealt.sampleIdsGreaterThanThreshold, false⟩ (by simp [h, hput] at hone ⊢; exact hone)
        simp [hless, hgreater, h]
    · have hdeal : deal samples x d dealt i = { dealt with
          sampleIdsGreaterThanThreshold := dealt.sampleIdsGreaterThanThreshold ++ [i] } := by
        simp [deal, h, h.not_gt]
      rw [hdeal]
      obtain ⟨hless, hgreater⟩ := ih { dealt with
        sampleIdsGreaterThanThreshold := dealt.sampleIdsGreaterThanThreshold ++ [i] }
        (by simp; omega)
      simp [hless, hgreater, h, h.not_ge]

/-- Of consecutive samples, those that come first. -/
theorem filter_range'_eq_left {a m p : ℕ} (hp : p ≤ m) {P : ℕ → Bool}
    (hP : ∀ i, a ≤ i → i < a + m → (P i ↔ i < a + p)) :
    (List.range' a m).filter P = List.range' a p := by
  obtain ⟨q, rfl⟩ := Nat.exists_eq_add_of_le hp
  have hfirst : (List.range' a p).filter P = List.range' a p := by
    rw [List.filter_eq_self]
    intro i hi
    rw [List.mem_range'_1] at hi
    exact (hP i hi.1 (by omega)).mpr hi.2
  have hlast : (List.range' (a + p) q).filter P = [] := by
    rw [List.filter_eq_nil_iff]
    intro i hi
    rw [List.mem_range'_1] at hi
    rw [hP i (by omega) (by omega)]
    omega
  rw [← List.range'_append_1, List.filter_append, hfirst, hlast, List.append_nil]

/-- Of consecutive samples, those that come last. -/
theorem filter_range'_eq_right {a m p : ℕ} (hp : p ≤ m) {P : ℕ → Bool}
    (hP : ∀ i, a ≤ i → i < a + m → (P i ↔ a + p ≤ i)) :
    (List.range' a m).filter P = List.range' (a + p) (m - p) := by
  obtain ⟨q, rfl⟩ := Nat.exists_eq_add_of_le hp
  have hfirst : (List.range' a p).filter P = [] := by
    rw [List.filter_eq_nil_iff]
    intro i hi
    rw [List.mem_range'_1] at hi
    rw [hP i hi.1 (by omega)]
    omega
  have hlast : (List.range' (a + p) q).filter P = List.range' (a + p) q := by
    rw [List.filter_eq_self]
    intro i hi
    rw [List.mem_range'_1] at hi
    exact (hP i (by omega) (by omega)).mpr hi.1
  rw [← List.range'_append_1, List.filter_append, hfirst, hlast, List.nil_append,
    Nat.add_sub_cancel_left]

variable [Field K]

/-- The two sides of a plane hold the samples of the segment, each on a side that
its coefficient allows. -/
theorem SplitSegments.generate_spec (segment : Segment K) (p : Point K) (d : ℕ) :
    ((generate segment p d).segmentLessThanThreshold.sampleIdsInSegment ++
        (generate segment p d).segmentGreaterThanThreshold.sampleIdsInSegment).Perm
      segment.sampleIdsInSegment ∧
    (∀ i ∈ (generate segment p d).segmentLessThanThreshold.sampleIdsInSegment,
      segment.samples.coeff i d ≤ p.getValueAt d) ∧
    ∀ i ∈ (generate segment p d).segmentGreaterThanThreshold.sampleIdsInSegment,
      p.getValueAt d ≤ segment.samples.coeff i d := by
  obtain ⟨less, greater, hless, hgreater, hperm, hle, hge⟩ :=
    foldl_deal segment.samples (p.getValueAt d) d segment.sampleIdsInSegment ⟨[], [], true⟩
  simp only [List.nil_append] at hless hgreater
  simp only [generate, hless, hgreater]
  exact ⟨hperm, hle, hge⟩

/-- The less side takes the samples below the threshold and the odd ones on it. -/
theorem SplitSegments.generate_less_length (segment : Segment K) (p : Point K) (d : ℕ) :
    (generate segment p d).segmentLessThanThreshold.sampleIdsInSegment.length =
      (segment.keys d).countP (· < p.getValueAt d) +
        ((segment.keys d).countP (· = p.getValueAt d) + 1) / 2 := by
  have h := (foldl_deal_length segment.samples (p.getValueAt d) d segment.sampleIdsInSegment
    ⟨[], [], true⟩).1
  simpa [generate, Segment.keys] using h

/-- The greater side takes the samples above the threshold and the even ones on it. -/
theorem SplitSegments.generate_greater_length (segment : Segment K) (p : Point K) (d : ℕ) :
    (generate segment p d).segmentGreaterThanThreshold.sampleIdsInSegment.length =
      (segment.keys d).countP (p.getValueAt d < ·) +
        (segment.keys d).countP (· = p.getValueAt d) / 2 := by
  have h := (foldl_deal_length segment.samples (p.getValueAt d) d segment.sampleIdsInSegment
    ⟨[], [], true⟩).2
  simpa [generate, Segment.keys] using h

end Kdtree
