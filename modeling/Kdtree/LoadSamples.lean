import Kdtree.KDTreeIO

/-!
# Loading samples

What `loadSamples` makes of lines whose fields are missing, empty or not numbers.
Splitting leaves out empty fields, the first line decides the number of columns,
and no row is checked against it. The matrix holds the fields of the lines only if
every line has as many fields as the first and none of them is empty.
-/

namespace Kdtree

open Delimited

/-- The faults that are exceptions of the program, and not operations that the language
leaves undefined. -/
def Fault.isException : Fault → Bool
  | .sampleIdNotInSegment => true
  | .queryAndKdTreeDimensionsDontMatch => true
  | .noSamplesInInputFile => true
  | .invalidArgument => true
  | .outOfRange => false
  | .divisionByZero => false
  | .nullSplit => false
  | .intOverflow => false
  | .outOfFuel => false

/-- The fields of a line between its commas, the empty ones among them. -/
def fields (line : Text) : List Text := line.splitOn ','

variable {K : Type}

variable [Zero K]

/-- A matrix holds the fields of the lines: one row for each line, one column for each
field, and the number of each field in its place. -/
structure IsTable (stod : Text → Option K) (lines : List Text) (samples : Samples K) : Prop where
  /-- Each line is a row. -/
  rows_eq : samples.rows = lines.length
  /-- Each field of a line has a column. -/
  fields_length : ∀ line ∈ lines, (fields line).length = samples.cols
  /-- Each entry is the number in its field. -/
  coeff_eq : ∀ i j line field, lines[i]? = some line → (fields line)[j]? = some field →
    stod field = some (samples.coeff i j)

/-- Loading the lines throws an exception or returns the table of their fields. -/
def LoadsFaithfully (stod : Text → Option K) (lines : List Text) : Prop :=
  (∃ fault, loadSamplesWith stod lines = .error fault ∧ fault.isException) ∨
    ∃ samples, loadSamplesWith stod lines = .ok samples ∧ IsTable stod lines samples

/-- Splitting a line gives its fields without the empty ones. -/
theorem split_line (line : Text) :
    Util.split line ",".toList false = .ok ((fields line).filter fun field => field ≠ []) := by
  obtain ⟨pieces, hpieces⟩ := exists_cuts (show [','] ≠ [] by simp) line
  have hsplit := Util.split_eq_filter (by simp) hpieces false
  simp only [Bool.false_or] at hsplit
  rw [fields, ← hpieces.eq_splitOn]
  exact hsplit

/-- A line of numbers between commas is read as these numbers. -/
theorem parseLine_intercalate {K : Type} [Field K] {tokens : List Text} {row : List K}
    (htokens : tokens ≠ []) (hcomma : ∀ token ∈ tokens, token ≠ [] ∧ ',' ∉ token)
    (hrow : tokens.mapM stod = .ok row) : parseLine (",".toList.intercalate tokens) = .ok row := by
  have hfields : fields (",".toList.intercalate tokens) = tokens :=
    List.splitOn_intercalate ',' (fun token htoken => (hcomma token htoken).2) htokens
  have hkept : tokens.filter (fun field => field ≠ []) = tokens := by
    apply List.filter_eq_self.mpr
    intro token htoken
    exact decide_eq_true (hcomma token htoken).1
  rw [parseLine, parseLineWith, split_line, hfields, hkept]
  exact hrow

/-- A line with a single number is read as that number. -/
theorem parseLine_single {K : Type} [Field K] {text : Text} {x : K} (hne : text ≠ [])
    (hcomma : ',' ∉ text) (hnumber : stod text = .ok x) : parseLine text = .ok [x] := by
  have hrow : [text].mapM stod = .ok [x] := by
    simp only [List.mapM_cons, List.mapM_nil, hnumber]
    rfl
  have hparse := parseLine_intercalate (by simp) (by simpa using ⟨hne, hcomma⟩) hrow
  simpa [List.intercalate] using hparse

section Parsing

omit [Zero K]

variable {stod : Text → Option K}

/-- Reading a number fails only by an exception. -/
theorem readNumber_error {token : Text} {fault : Fault}
    (h : readNumber stod token = .error fault) : fault = .invalidArgument := by
  unfold readNumber at h
  cases htoken : stod token with
  | none =>
    rw [htoken] at h
    exact (Except.error.inj h).symm
  | some x =>
    rw [htoken] at h
    cases h

/-- The numbers of a line are those of its fields that are not empty. -/
theorem parseLineWith_eq (line : Text) : parseLineWith stod line =
    ((fields line).filter fun field => field ≠ []).mapM (readNumber stod) := by
  rw [parseLineWith, split_line]
  rfl

/-- A line fails only by an exception. -/
theorem parseLineWith_error {line : Text} {fault : Fault}
    (h : parseLineWith stod line = .error fault) : fault = .invalidArgument := by
  rw [parseLineWith_eq] at h
  obtain ⟨token, -, htoken⟩ := Fallible.exists_error_of_mapM h
  exact readNumber_error htoken

/-- A line with a field that is neither empty nor a number fails. -/
theorem parseLineWith_throws {line field : Text} (hfield : field ∈ fields line) (hne : field ≠ [])
    (hstod : stod field = none) : parseLineWith stod line = .error .invalidArgument := by
  rw [parseLineWith_eq]
  refine Fallible.mapM_eq_error (fun token _ fault => readNumber_error)
    ⟨field, List.mem_filter.mpr ⟨hfield, decide_eq_true hne⟩, ?_⟩
  rw [readNumber, hstod]
  rfl

end Parsing

variable {stod : Text → Option K} {lines : List Text}

/-- The numbers in the fields of a line that are not empty. -/
def rowOf (stod : Text → Option K) (line : Text) : List K :=
  ((fields line).filter fun field => field ≠ []).map fun field => (stod field).getD 0

/-- The numbers of a line without a field that is not a number. -/
theorem parseLineWith_eq_rowOf {line : Text}
    (hnumbers : ∀ field ∈ fields line, field ≠ [] → stod field ≠ none) :
    parseLineWith stod line = .ok (rowOf stod line) := by
  rw [parseLineWith_eq]
  refine Fallible.mapM_eq_ok fun field hfield => ?_
  obtain ⟨hmem, hne⟩ := List.mem_filter.mp hfield
  obtain ⟨x, hx⟩ := Option.ne_none_iff_exists'.mp (hnumbers field hmem (of_decide_eq_true hne))
  rw [readNumber, hx]
  rfl

/-- A field that is neither empty nor a number makes loading throw an exception. -/
theorem loadSamplesWith_throws
    (h : ∃ line ∈ lines, ∃ field ∈ fields line, field ≠ [] ∧ stod field = none) :
    loadSamplesWith stod lines = .error .invalidArgument := by
  obtain ⟨line, hline, field, hfield, hne, hstod⟩ := h
  have hloop : lines.mapM (parseLineWith stod) = .error .invalidArgument :=
    Fallible.mapM_eq_error (fun line _ fault => parseLineWith_error)
      ⟨line, hline, parseLineWith_throws hfield hne hstod⟩
  rw [loadSamplesWith, hloop]
  rfl

/-- If all fields are numbers or empty, the first line decides the number of columns.
The counters must not overflow, and no line may have fewer numbers. -/
theorem loadSamplesWith_cons {first : Text} {rest : List Text}
    (hnumbers : ∀ line ∈ first :: rest, ∀ field ∈ fields line, field ≠ [] → stod field ≠ none) :
    loadSamplesWith stod (first :: rest) =
      if (first :: rest).length < 2 ^ 31 ∧ (rowOf stod first).length < 2 ^ 31 then
        if ∀ line ∈ first :: rest, (rowOf stod first).length ≤ (rowOf stod line).length then
          .ok ⟨(first :: rest).length, (rowOf stod first).length,
            fun i j => (((first :: rest).map (rowOf stod)).getD i []).getD j 0⟩
        else .error .outOfRange
      else .error .intOverflow := by
  have hloop : (first :: rest).mapM (parseLineWith stod) =
      .ok ((first :: rest).map (rowOf stod)) :=
    Fallible.mapM_eq_ok fun line hline => parseLineWith_eq_rowOf (hnumbers line hline)
  have hcount : ((first :: rest).map (rowOf stod)).length = (first :: rest).length :=
    List.length_map ..
  have hread :
      (∀ item ∈ (first :: rest).map (rowOf stod), (rowOf stod first).length ≤ item.length) ↔
      ∀ line ∈ first :: rest, (rowOf stod first).length ≤ (rowOf stod line).length :=
    List.forall_mem_map
  rw [loadSamplesWith, hloop, ← hcount]
  rw [List.map_cons] at hread ⊢
  by_cases hrows : (rowOf stod first :: rest.map (rowOf stod)).length < 2 ^ 31
  · by_cases hcols : (rowOf stod first).length < 2 ^ 31
    · rw [if_pos ⟨hrows, hcols⟩]
      simp only [KDTree.toInt32, if_pos hrows, if_pos hcols, bind, Except.bind]
      exact if_congr hread rfl rfl
    · rw [if_neg fun h => hcols h.2]
      simp only [KDTree.toInt32, if_pos hrows, if_neg hcols, bind, Except.bind]
  · rw [if_neg fun h => hrows h.1]
    simp only [KDTree.toInt32, if_neg hrows, bind, Except.bind]

/-- A line has as many numbers as fields if and only if no field is empty. -/
theorem rowOf_length_eq_iff {line : Text} :
    (rowOf stod line).length = (fields line).length ↔ [] ∉ fields line := by
  rw [rowOf, List.length_map, List.length_filter_eq_length_iff]
  constructor
  · intro h hempty
    exact absurd rfl (of_decide_eq_true (h [] hempty))
  · intro h field hfield
    exact decide_eq_true fun hempty => h (hempty ▸ hfield)

/-- A line has no more numbers than fields. -/
theorem rowOf_length_le (line : Text) : (rowOf stod line).length ≤ (fields line).length := by
  rw [rowOf, List.length_map]
  exact List.length_filter_le _ _

/-- In a line without empty fields, every number stands where its field does. -/
theorem rowOf_getD {line field : Text} (hline : [] ∉ fields line) {j : ℕ}
    (hfield : (fields line)[j]? = some field) :
    (rowOf stod line).getD j 0 = (stod field).getD 0 := by
  have hkept : (fields line).filter (fun field => decide (field ≠ [])) = fields line :=
    List.filter_eq_self.mpr fun field' hfield' =>
      decide_eq_true fun hempty => hline (hempty ▸ hfield')
  rw [rowOf, hkept, List.getD_eq_getElem?_getD, List.getElem?_map, hfield]
  rfl

/-- Lines without empty fields, all of one length, are loaded as a table. -/
theorem isTable_of_fields {n : ℕ}
    (hnumbers : ∀ line ∈ lines, ∀ field ∈ fields line, field ≠ [] → stod field ≠ none)
    (hfields : ∀ line ∈ lines, (fields line).length = n ∧ [] ∉ fields line) :
    IsTable stod lines
      ⟨lines.length, n, fun i j => ((lines.map (rowOf stod)).getD i []).getD j 0⟩ := by
  refine ⟨rfl, fun line hline => (hfields line hline).1, fun i j line field hline hfield => ?_⟩
  have hmem := List.mem_of_getElem? hline
  have hrow : (lines.map (rowOf stod)).getD i [] = rowOf stod line := by
    rw [List.getD_eq_getElem?_getD, List.getElem?_map, hline]
    rfl
  have hempty := (hfields line hmem).2
  have hfieldMem := List.mem_of_getElem? hfield
  obtain ⟨x, hx⟩ := Option.ne_none_iff_exists'.mp
    (hnumbers line hmem field hfieldMem fun hnil => hempty (hnil ▸ hfieldMem))
  dsimp only
  rw [hrow, rowOf_getD hempty hfield, hx]
  rfl

/-- Loading lines throws an exception or returns the table of their fields if and only
if some field is neither empty nor a number, or all lines have the same number of
fields, none of them is empty, and the counters can hold the numbers of lines and fields. -/
theorem loadsFaithfully_iff (stod : Text → Option K) (lines : List Text) :
    LoadsFaithfully stod lines ↔
      (∃ line ∈ lines, ∃ field ∈ fields line, field ≠ [] ∧ stod field = none) ∨
      lines.length < 2 ^ 31 ∧ ∃ numFields < 2 ^ 31,
        ∀ line ∈ lines, (fields line).length = numFields ∧ [] ∉ fields line := by
  by_cases hthrows : ∃ line ∈ lines, ∃ field ∈ fields line, field ≠ [] ∧ stod field = none
  · exact ⟨fun _ => .inl hthrows, fun _ => .inl ⟨_, loadSamplesWith_throws hthrows, rfl⟩⟩
  rw [or_iff_right hthrows]
  have hnumbers : ∀ line ∈ lines, ∀ field ∈ fields line, field ≠ [] → stod field ≠ none :=
    fun line hline field hfield hne hnone => hthrows ⟨line, hline, field, hfield, hne, hnone⟩
  cases lines with
  | nil =>
    exact ⟨fun _ => ⟨by decide, 0, by decide, by simp⟩,
      fun _ => .inl ⟨.noSamplesInInputFile, rfl, rfl⟩⟩
  | cons first rest =>
    rw [LoadsFaithfully, loadSamplesWith_cons hnumbers]
    constructor
    · rintro (⟨fault, h, hexception⟩ | ⟨samples, h, htable⟩)
      · split_ifs at h <;> obtain rfl := Except.error.inj h <;> cases hexception
      · split_ifs at h with hcounters hread
        obtain rfl := Except.ok.inj h
        refine ⟨hcounters.1, (rowOf stod first).length, hcounters.2, fun line hline => ?_⟩
        have hlength : (fields line).length = (rowOf stod first).length :=
          htable.fields_length line hline
        have hle := hread line hline
        rw [← hlength] at hle
        exact ⟨hlength, rowOf_length_eq_iff.mp (le_antisymm (rowOf_length_le line) hle)⟩
    · rintro ⟨hrows, numFields, hcols, hfields⟩
      have hlength : ∀ line ∈ first :: rest, (rowOf stod line).length = numFields := by
        intro line hline
        obtain ⟨hcount, hempty⟩ := hfields line hline
        rw [rowOf_length_eq_iff.mpr hempty, hcount]
      have hread :
          ∀ line ∈ first :: rest, (rowOf stod first).length ≤ (rowOf stod line).length := by
        intro line hline
        rw [hlength first List.mem_cons_self, hlength line hline]
      rw [if_pos ⟨hrows, (hlength first List.mem_cons_self).trans_lt hcols⟩, if_pos hread,
        hlength first List.mem_cons_self]
      exact .inr ⟨_, rfl, isTable_of_fields hnumbers hfields⟩

/-- A line with an empty field is loaded as if the field were not there, and a line with
fewer fields than the first is read past its end. -/
theorem loadSamples_shifts_fields :
    (∃ samples, loadSamplesWith (Decimal.parse : Text → Option ℚ) ["1,,2".toList, "3,4".toList] =
      .ok samples ∧ samples.cols = 2 ∧ samples.coeff 0 1 = 2 ∧
      (fields "1,,2".toList)[1]? = some [] ∧ (fields "1,,2".toList).length = 3) ∧
    (loadSamplesWith (Decimal.parse : Text → Option ℚ) ["1,2".toList, "3".toList] =
      .error .outOfRange) ∧
    ¬LoadsFaithfully (Decimal.parse : Text → Option ℚ) ["1,,2".toList, "3,4".toList] := by
  have hshort : ["1,2".toList, "3".toList].mapM (parseLineWith Decimal.parse) =
      (.ok [[1, 2], [3]] : Except Fault (List (List ℚ))) := by decide +kernel
  have hempty : ["1,,2".toList, "3,4".toList].mapM (parseLineWith Decimal.parse) =
      (.ok [[1, 2], [3, 4]] : Except Fault (List (List ℚ))) := by decide +kernel
  have hload : loadSamplesWith (Decimal.parse : Text → Option ℚ) ["1,,2".toList, "3,4".toList] =
      .ok ⟨2, 2, fun i j => ([[1, 2], [3, 4]].getD i []).getD j 0⟩ := by
    rw [loadSamplesWith, hempty]
    rfl
  have hfields : (fields "1,,2".toList).length = 3 := by decide
  refine ⟨⟨_, hload, rfl, rfl, by decide, hfields⟩, ?_, ?_⟩
  · rw [loadSamplesWith, hshort]
    rfl
  · rintro (⟨fault, h, -⟩ | ⟨samples, h, htable⟩)
    · rw [hload] at h
      cases h
    · obtain rfl := Except.ok.inj (hload.symm.trans h)
      exact absurd (hfields.symm.trans (htable.fields_length _ List.mem_cons_self)) (by decide)

end Kdtree
