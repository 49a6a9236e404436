import Kdtree.Selectors
import Kdtree.General.Fallible

/-!
# The value of the split point

Only the coefficient of the split point in the split dimension matters to the
tree. Both splitting methods read it off the values of the segment: sorting gives
the median, and selection gives the median of an odd number of values. For an
even number, the second selection may move the upper of the two middle values.
-/

namespace Kdtree

open OrderStatistics

variable {K : Type}

/-- The coefficients of a segment in one dimension. -/
def Segment.keys (segment : Segment K) (d : ℕ) : List K :=
  segment.sampleIdsInSegment.map fun sampleId => segment.samples.coeff sampleId d

/-- The same coefficients, each with the sample it belongs to. -/
def Segment.values (segment : Segment K) (d : ℕ) : List (ValueInSegment K) :=
  segment.sampleIdsInSegment.map fun sampleId => ⟨segment.samples.coeff sampleId d, sampleId, d⟩

/-- There is one key for each sample -/
@[simp] theorem Segment.keys_length (segment : Segment K) (d : ℕ) :
    (segment.keys d).length = segment.sampleIdsInSegment.length := by
  simp [keys]

/-- and one value. -/
@[simp] theorem Segment.values_length (segment : Segment K) (d : ℕ) :
    (segment.values d).length = segment.sampleIdsInSegment.length := by
  simp [values]

/-- Forgetting the samples leaves the coefficients. -/
theorem Segment.map_value_values (segment : Segment K) (d : ℕ) :
    (segment.values d).map ValueInSegment.value = segment.keys d := by
  simp [keys, values]

/-- A point of a segment has one coefficient for each dimension. -/
@[simp] theorem Segment.getPoint_length (segment : Segment K) (sampleId : ℕ) :
    (segment.getPoint sampleId).coefficients.length = segment.samples.cols := by
  simp [getPoint, getNumDimensions]

/-- The constructor of `ValueInSegment` accepts every id of the segment. -/
theorem getValuesInSegment_eq (segment : Segment K) (d : ℕ) :
    getValuesInSegment segment d = .ok (segment.values d) := by
  refine Fallible.mapM_eq_ok fun sampleId hsampleId => ?_
  rw [ValueInSegment.create, if_pos hsampleId]

/-- The point read off the middle value has a coefficient for each dimension. -/
theorem getPoint_length_of_read {segment : Segment K} {values : List (ValueInSegment K)}
    {index : ℕ} {p : Point K}
    (h : (do return segment.getPoint (← valueAt values index).sampleId) = Except.ok p) :
    p.coefficients.length = segment.samples.cols := by
  obtain ⟨v, -, h⟩ := Fallible.bind_eq_ok_iff.mp h
  obtain rfl := Except.ok.inj h
  exact segment.getPoint_length _

variable [Field K]

/-- The coefficient of a point that is given by a function. -/
theorem getValueAt_map_range (f : ℕ → K) {n j : ℕ} (hj : j < n) :
    Point.getValueAt ⟨(List.range n).map f⟩ j = f j := by
  simp [Point.getValueAt, List.getD_eq_getElem?_getD, hj]

/-- The coefficients of a point of a segment are the entries of its row. -/
theorem Segment.getPoint_getValueAt (segment : Segment K) (sampleId : ℕ) {d : ℕ}
    (hd : d < segment.samples.cols) :
    (segment.getPoint sampleId).getValueAt d = segment.samples.coeff sampleId d := by
  exact getValueAt_map_range _ hd

/-- The midpoint has the mean of the two coefficients in each dimension. -/
theorem Point.average_getValueAt (point1 point2 : Point K) {d : ℕ}
    (hd : d < point1.coefficients.length) :
    (Point.average point1 point2).getValueAt d =
      (point1.getValueAt d + point2.getValueAt d) / 2 := by
  exact getValueAt_map_range _ hd

/-- What a rearrangement of the values of a segment holds at a position: a value
that the row of its sample gives back. -/
theorem valueAt_of_perm {segment : Segment K} {d n : ℕ} {out : List (ValueInSegment K)}
    (hperm : out.Perm (segment.values d)) (hn : n < segment.sampleIdsInSegment.length)
    (hd : d < segment.samples.cols) :
    ∃ v, valueAt out n = .ok v ∧ out[n]? = some v ∧ v.value ∈ segment.keys d ∧
      (segment.getPoint v.sampleId).getValueAt d = v.value := by
  have hlen : n < out.length := by rwa [hperm.length_eq, Segment.values_length]
  have hget : out[n]? = some out[n] := List.getElem?_eq_getElem hlen
  obtain ⟨sampleId, hid, heq⟩ := List.mem_map.mp (hperm.mem_iff.mp (List.getElem_mem hlen))
  refine ⟨out[n], by rw [valueAt, hget], hget, ?_, ?_⟩
  · rw [← heq]
    exact List.mem_map_of_mem hid
  · rw [← heq]
    exact segment.getPoint_getValueAt sampleId hd

/-- The point read off the two middle values has a coefficient for each dimension. -/
theorem average_length_of_reads {segment : Segment K} {values : List (ValueInSegment K)}
    {lower upper : ℕ} {p : Point K}
    (h : (do
      let point1 := segment.getPoint (← valueAt values lower).sampleId
      let point2 := segment.getPoint (← valueAt values upper).sampleId
      return Point.average point1 point2) = Except.ok p) :
    p.coefficients.length = segment.samples.cols := by
  obtain ⟨v, -, h⟩ := Fallible.bind_eq_ok_iff.mp h
  obtain ⟨w, -, h⟩ := Fallible.bind_eq_ok_iff.mp h
  obtain rfl := Except.ok.inj h
  simp [Point.average]

variable [LinearOrder K]

/-- The threshold of the sorting method: the middle value, or the mean of the two
values that sorting puts in the middle. -/
structure IsMedian (values : List K) (x : K) : Prop where
  /-- The middle value of an odd number of values. -/
  odd : values.length % 2 = 1 → HasRank values (values.length / 2) x
  /-- The two middle values of an even number of values. -/
  even : values.length % 2 = 0 → ∃ a b, HasRank values (values.length / 2 - 1) a ∧
    HasRank values (values.length / 2) b ∧ x = (a + b) / 2

/-- The threshold of either method: for an even number of values, the upper of
the two averaged values is known not to lie below the upper middle value. -/
structure IsThreshold (values : List K) (x : K) : Prop where
  /-- The middle value of an odd number of values. -/
  odd : values.length % 2 = 1 → HasRank values (values.length / 2) x
  /-- The lower middle value and some value from the upper half. -/
  even : values.length % 2 = 0 → ∃ a b, HasRank values (values.length / 2 - 1) a ∧
    b ∈ values ∧ values.length / 2 < values.countP (· ≤ b) ∧ x = (a + b) / 2

/-- A median is a threshold. -/
theorem IsMedian.isThreshold {values : List K} {x : K} (h : IsMedian values x) :
    IsThreshold values x := by
  refine ⟨h.odd, fun heven => ?_⟩
  obtain ⟨a, b, ha, hb, hx⟩ := h.even heven
  exact ⟨a, b, ha, hb.mem, hb.upTo, hx⟩

/-- Ranks determine the median. -/
theorem IsMedian.eq_medianValue {values : List K} {x : K} (hne : values ≠ [])
    (h : IsMedian values x) : x = medianValue values := by
  have hpos : 0 < values.length := List.length_pos_iff.mpr hne
  have hdrop {n : ℕ} {y : K} (hn : n < values.length) (hy : HasRank values n y) :
      (inOrder values).drop n = y :: (inOrder values).drop (n + 1) := by
    have hlt : n < (inOrder values).length := by rwa [inOrder_length]
    rw [List.drop_eq_getElem_cons hlt,
      (hasRank_inOrder (List.getElem?_eq_getElem hlt)).unique hy]
  rcases Nat.mod_two_eq_zero_or_one values.length with heven | hodd
  · obtain ⟨a, b, ha, hb, hx⟩ := h.even heven
    have hlower : (values.length - 1) / 2 = values.length / 2 - 1 := by omega
    have hupper : values.length / 2 - 1 + 1 = values.length / 2 := by omega
    have hmiddle : middleValues values = [a, b] := by
      rw [middleValues, heven, hlower, hdrop (by omega) ha, hupper, hdrop (by omega) hb]
      rfl
    simp [medianValue, hmiddle, hx]
  · have hindex : (values.length - 1) / 2 = values.length / 2 := by omega
    have hmiddle : middleValues values = [x] := by
      rw [middleValues, hodd, hindex, hdrop (by omega) (h.odd hodd)]
      rfl
    simp [medianValue, hmiddle]

omit [Field K] in
/-- A selection of the values of a segment puts the right rank at its position. -/
theorem hasRank_of_isSelection {segment : Segment K} {d n : ℕ} {out : List (ValueInSegment K)}
    (h : IsSelection ValueInSegment.value n (segment.values d) out) {v : ValueInSegment K}
    (hv : out[n]? = some v) : HasRank (segment.keys d) n v.value := by
  rw [← segment.map_value_values]
  exact h.hasRank hv

/-- A point of a split has a coefficient for each dimension. -/
theorem getSplitPoint_length {std : StdAlgorithms K} {segment : Segment K}
    {splittingMethod : SplittingMethod} {d : ℕ} {p : Point K}
    (h : getSplitPoint std segment splittingMethod d = .ok p) :
    p.coefficients.length = segment.samples.cols := by
  cases splittingMethod with
  | median =>
    obtain ⟨values, -, h⟩ := Fallible.bind_eq_ok_iff.mp h
    dsimp only at h
    split at h
    · exact average_length_of_reads h
    · exact getPoint_length_of_read h
  | medianOfMedian =>
    obtain ⟨values, -, h⟩ := Fallible.bind_eq_ok_iff.mp h
    dsimp only at h
    split at h
    · exact average_length_of_reads h
    · exact getPoint_length_of_read h

/-- The split point found by sorting has the median as its coefficient. -/
theorem median_spec (std : StdAlgorithms K) {segment : Segment K} {d : ℕ}
    (hne : segment.sampleIdsInSegment ≠ []) (hd : d < segment.samples.cols) :
    ∃ p, getSplitPoint std segment .median d = .ok p ∧
      IsMedian (segment.keys d) (p.getValueAt d) := by
  have hpos := List.length_pos_iff.mpr hne
  have hsort := std.sort_spec (segment.values d)
  obtain ⟨upper, hat, hget, -, hvalue⟩ := valueAt_of_perm hsort.perm
    (show segment.sampleIdsInSegment.length / 2 < _ by omega) hd
  have hupper := hasRank_of_isSelection (hsort.isSelection _) hget
  simp only [getSplitPoint, median, getValuesInSegment_eq, bind, Except.bind,
    Segment.values_length]
  rcases Nat.mod_two_eq_zero_or_one segment.sampleIdsInSegment.length with heven | hodd
  · obtain ⟨lower, hat', hget', -, hvalue'⟩ := valueAt_of_perm hsort.perm
      (show segment.sampleIdsInSegment.length / 2 - 1 < _ by omega) hd
    have hlower := hasRank_of_isSelection (hsort.isSelection _) hget'
    rw [if_pos heven, hat, hat']
    refine ⟨_, rfl, fun h => ?_, fun _ => ?_⟩
    · rw [segment.keys_length] at h
      omega
    · rw [segment.keys_length]
      refine ⟨lower.value, upper.value, hlower, hupper, ?_⟩
      rw [Point.average_getValueAt _ _ (by simpa using hd), hvalue, hvalue']
  · rw [if_neg (by omega), hat]
    refine ⟨_, rfl, fun _ => ?_, fun h => ?_⟩
    · rw [segment.keys_length, hvalue]
      exact hupper
    · rw [segment.keys_length] at h
      omega

/-- For an odd number of values one selection finds the median. -/
theorem medianOfMedian_odd (std : StdAlgorithms K) {segment : Segment K} {d : ℕ}
    (hodd : segment.sampleIdsInSegment.length % 2 = 1) (hd : d < segment.samples.cols) :
    ∃ p, getSplitPoint std segment .medianOfMedian d = .ok p ∧
      IsMedian (segment.keys d) (p.getValueAt d) := by
  have hsel := std.nthElement_spec (segment.sampleIdsInSegment.length / 2) (segment.values d)
    (by rw [segment.values_length]; omega)
  obtain ⟨upper, hat, hget, -, hvalue⟩ := valueAt_of_perm hsel.perm
    (show segment.sampleIdsInSegment.length / 2 < _ by omega) hd
  simp only [getSplitPoint, medianOfMedianScorer, getValuesInSegment_eq, bind, Except.bind,
    Segment.values_length]
  rw [if_neg (by omega), hat]
  refine ⟨_, rfl, fun _ => ?_, fun h => ?_⟩
  · rw [segment.keys_length, hvalue]
    exact hasRank_of_isSelection hsel hget
  · rw [segment.keys_length] at h
    omega

/-- For an even number of values both positions are read after the second
selection, which was made around the lower one. -/
theorem medianOfMedian_even (std : StdAlgorithms K) {segment : Segment K} {d : ℕ}
    (heven : segment.sampleIdsInSegment.length % 2 = 0) (hne : segment.sampleIdsInSegment ≠ [])
    (hd : d < segment.samples.cols) :
    ∃ p lower upper out, getSplitPoint std segment .medianOfMedian d = .ok p ∧
      out = std.nthElement (segment.sampleIdsInSegment.length / 2 - 1)
        (std.nthElement (segment.sampleIdsInSegment.length / 2) (segment.values d)) ∧
      IsSelection ValueInSegment.value (segment.sampleIdsInSegment.length / 2 - 1)
        (segment.values d) out ∧
      out[segment.sampleIdsInSegment.length / 2 - 1]? = some lower ∧
      out[segment.sampleIdsInSegment.length / 2]? = some upper ∧
      p.getValueAt d = (lower.value + upper.value) / 2 := by
  have hpos := List.length_pos_iff.mpr hne
  have hfirst := std.nthElement_spec (segment.sampleIdsInSegment.length / 2) (segment.values d)
    (by rw [segment.values_length]; omega)
  have hsecond := std.nthElement_spec (segment.sampleIdsInSegment.length / 2 - 1)
    (std.nthElement (segment.sampleIdsInSegment.length / 2) (segment.values d))
    (by rw [hfirst.perm.length_eq, segment.values_length]; omega)
  have hsel : IsSelection ValueInSegment.value (segment.sampleIdsInSegment.length / 2 - 1)
      (segment.values d) _ := ⟨hsecond.perm.trans hfirst.perm, hsecond.before, hsecond.after⟩
  obtain ⟨lower, hat, hget, -, hvalue⟩ := valueAt_of_perm hsel.perm
    (show segment.sampleIdsInSegment.length / 2 - 1 < _ by omega) hd
  obtain ⟨upper, hat', hget', -, hvalue'⟩ := valueAt_of_perm hsel.perm
    (show segment.sampleIdsInSegment.length / 2 < _ by omega) hd
  refine ⟨Point.average (segment.getPoint lower.sampleId) (segment.getPoint upper.sampleId),
    lower, upper, _, ?_, rfl, hsel, hget, hget', ?_⟩
  · simp only [getSplitPoint, medianOfMedianScorer, getValuesInSegment_eq, bind, Except.bind,
      Segment.values_length]
    rw [if_pos heven, hat, hat']
    rfl
  · rw [Point.average_getValueAt _ _ (by simpa using hd), hvalue, hvalue']

/-- Either splitting method succeeds on a segment with a sample, and its split
point has a threshold as its coefficient. -/
theorem getSplitPoint_spec (std : StdAlgorithms K) {segment : Segment K} {d : ℕ}
    (splittingMethod : SplittingMethod) (hne : segment.sampleIdsInSegment ≠ [])
    (hd : d < segment.samples.cols) :
    ∃ p, getSplitPoint std segment splittingMethod d = .ok p ∧
      IsThreshold (segment.keys d) (p.getValueAt d) := by
  cases splittingMethod with
  | median =>
    obtain ⟨p, hp, hmedian⟩ := median_spec std hne hd
    exact ⟨p, hp, hmedian.isThreshold⟩
  | medianOfMedian =>
    rcases Nat.mod_two_eq_zero_or_one segment.sampleIdsInSegment.length with heven | hodd
    · obtain ⟨p, lower, upper, out, hp, -, hsel, hlower, hupper, hx⟩ :=
        medianOfMedian_even std heven hne hd
      have hpos := List.length_pos_iff.mpr hne
      have hnext : segment.sampleIdsInSegment.length / 2 - 1 + 1 =
          segment.sampleIdsInSegment.length / 2 := by omega
      refine ⟨p, hp, fun h => ?_, fun _ => ?_⟩
      · rw [segment.keys_length] at h
        omega
      · rw [segment.keys_length]
        refine ⟨lower.value, upper.value, hasRank_of_isSelection hsel hlower, ?_, ?_, hx⟩
        · rw [← segment.map_value_values]
          exact List.mem_map_of_mem (hsel.perm.mem_iff.mp (List.mem_of_getElem? hupper))
        · have hup := hsel.lt_countP_next (show out[_ + 1]? = some upper by rwa [hnext])
          rwa [segment.map_value_values, hnext] at hup
    · obtain ⟨p, hp, hmedian⟩ := medianOfMedian_odd std hodd hd
      exact ⟨p, hp, hmedian.isThreshold⟩

end Kdtree
