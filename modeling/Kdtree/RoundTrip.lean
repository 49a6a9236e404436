import Kdtree.KDTreeIO
import Kdtree.Stored

/-!
# Reading back the text of a node

At each level of nesting, the separators of that level begin with two characters
that do not stand next to each other in anything inside, so the text splits
where it was put together. What is read back has the same shape, with every
coefficient replaced by the number that was printed for it.
-/

namespace Kdtree

open Delimited

section Separators

/-- A character that numbers are printed with. -/
def IsNumeric (c : Char) : Prop := c.isDigit ∨ c = '-' ∨ c = '.'

instance : DecidablePred IsNumeric := fun c =>
  inferInstanceAs (Decidable (c.isDigit ∨ c = '-' ∨ c = '.'))

/-- Integers do not interfere with pairs whose second character is not numeric. -/
theorem joins_toStringInt {x y : Char} (hy : ¬IsNumeric y) (n : ℤ) : Joins x y (toStringInt n) :=
  .of_notMem fun hmem => hy (((Decimal.ofInt_chars n).2 y hmem).imp id .inl)

/-- An entry can be read back if its parts avoid the first two characters of the key
separator, and the item avoids those of the item separator. -/
theorem separable_of_avoids {a b c d : Char} {kv item key value : Text} (hab : a ≠ b) (hcd : c ≠ d)
    (hkey : key ≠ [] ∧ Avoids a b key) (hvalue : value ≠ [] ∧ Avoids a b value)
    (hitem : Avoids c d (key ++ a :: b :: kv ++ value)) :
    Util.Separable (a :: b :: kv) (c :: d :: item) (key, value) where
  key_ne_nil := hkey.1
  value_ne_nil := hvalue.1
  key_endsAt := hkey.2.endsAt hab
  value_absent := hvalue.2.absent
  item_endsAt := hitem.endsAt hcd

/-- The text of a map joins when all its parts do. -/
theorem joins_convertMapToString {x y : Char} {m : TextMap} {kv item : Text}
    (hkv : Joins x y kv) (hitem : Joins x y item)
    (hm : ∀ e ∈ m.entries, Joins x y e.1 ∧ Joins x y e.2) :
    Joins x y (Util.convertMapToString m kv item) :=
  .flatMap fun e he => (((hm e he).1.append hkv).append (hm e he).2).append hitem

/-- The text of a map with an entry is not empty. -/
theorem convertMapToString_ne_nil {m : TextMap} {kv item : Text} (hitem : item ≠ [])
    (hm : m.entries ≠ []) : Util.convertMapToString m kv item ≠ [] := by
  obtain ⟨e, l, hl⟩ := List.exists_cons_of_ne_nil hm
  rw [Util.convertMapToString, hl, List.flatMap_cons]
  exact List.append_ne_nil_of_left_ne_nil (List.append_ne_nil_of_right_ne_nil _ hitem) _

end Separators

variable {K : Type} [Field K] [LinearOrder K] [FloorRing K]

/-- Floating values do not interfere with pairs whose second character is not numeric. -/
theorem joins_toStringDouble {x y : Char} (hy : ¬IsNumeric y) (c : K) :
    Joins x y (toStringDouble c) :=
  .of_notMem fun hmem => hy ((Decimal.fixed_chars 6 c).2 y hmem)

/-! ### Points -/

/-- The point that is read back. -/
def Point.printed (point : Point K) : Point K := ⟨point.coefficients.map Kdtree.printed⟩

/-- The text of a point joins when its separator does. -/
theorem Point.joins_toString {x y : Char} (hy : ¬IsNumeric y) (hsep : Joins x y ";p;".toList)
    (point : Point K) : Joins x y point.toString := by
  refine .flatMap fun s hs => ?_
  obtain ⟨c, -, rfl⟩ := List.mem_map.mp hs
  exact (joins_toStringDouble hy c).append hsep

/-- The text of a point with a coefficient is not empty. -/
theorem Point.toString_ne_nil {point : Point K} (hpoint : point.coefficients ≠ []) :
    point.toString ≠ [] := by
  obtain ⟨c, l, hl⟩ := List.exists_cons_of_ne_nil hpoint
  rw [Point.toString, Util.convertVectorToString, hl, List.map_cons, List.flatMap_cons]
  exact List.append_ne_nil_of_left_ne_nil (List.append_ne_nil_of_right_ne_nil _ (by decide)) _

/-- A point is read back from its text. -/
theorem Point.fromString_toString (point : Point K) :
    Point.fromString point.toString = .ok point.printed := by
  have hpieces : ∀ s ∈ point.coefficients.map toStringDouble,
      s ≠ [] ∧ EndsAt ";p;".toList s := by
    intro s hs
    obtain ⟨c, -, rfl⟩ := List.mem_map.mp hs
    exact ⟨(Decimal.fixed_chars 6 c).1,
      Avoids.endsAt (by decide) (joins_toStringDouble (y := 'p') (by decide) c).avoids⟩
  have hread : (point.coefficients.map toStringDouble).mapM (stod (K := K)) =
      .ok (point.coefficients.map Kdtree.printed) := by
    rw [List.mapM_map]
    exact Fallible.mapM_eq_ok fun c _ => stod_toStringDouble c
  simp only [Point.fromString, Point.toString,
    Util.convertStringToVector_convertVectorToString (by decide) hpieces, hread, bind, Except.bind,
    pure, Except.pure, Point.printed]

/-! ### Bounds -/

/-- The bounds that are read back. -/
def Bounds.printed (bounds : Bounds K) : Bounds K :=
  ⟨bounds.maxPoint.printed, bounds.minPoint.printed⟩

/-- Both corners have a coefficient. -/
def Bounds.HasCoefficients (bounds : Bounds K) : Prop :=
  bounds.maxPoint.coefficients ≠ [] ∧ bounds.minPoint.coefficients ≠ []

/-- The keys of bounds in order. -/
theorem Bounds.toMap_entries (bounds : Bounds K) : bounds.toMap.entries =
    [("maxPoint".toList, bounds.maxPoint.toString),
      ("minPoint".toList, bounds.minPoint.toString)] :=
  rfl

/-- The text of bounds joins when everything but its numbers does. -/
theorem Bounds.joins_toString {x y : Char} (hy : ¬IsNumeric y)
    (hlits : ∀ s ∈ [";p;", ":bounds:", ";bounds;", "maxPoint", "minPoint"], Joins x y s.toList)
    (bounds : Bounds K) : Joins x y bounds.toString := by
  simp only [List.forall_mem_cons, List.not_mem_nil, false_implies, implies_true,
    and_true] at hlits
  obtain ⟨hp, hkv, hitem, hmax, hmin⟩ := hlits
  refine joins_convertMapToString hkv hitem ?_
  rw [Bounds.toMap_entries]
  simp only [List.forall_mem_cons, List.not_mem_nil, false_implies, implies_true, and_true]
  exact ⟨⟨hmax, Point.joins_toString hy hp _⟩, hmin, Point.joins_toString hy hp _⟩

/-- Bounds are read back from their text. -/
theorem Bounds.fromString_toString {bounds : Bounds K} (hbounds : bounds.HasCoefficients) :
    Bounds.fromString bounds.toString = .ok bounds.printed := by
  have hentry {key : Text} {point : Point K} (hkey : key ≠ [] ∧ Avoids ':' 'b' key ∧
      Avoids ';' 'b' key) (hpoint : point.coefficients ≠ []) :
      Util.Separable ":bounds:".toList ";bounds;".toList (key, point.toString) :=
    separable_of_avoids (by decide) (by decide) ⟨hkey.1, hkey.2.1⟩
      ⟨Point.toString_ne_nil hpoint, (Point.joins_toString (by decide) (by decide) point).avoids⟩
      ((hkey.2.2.append (by decide)).append (Point.joins_toString (by decide) (by decide) point))
  have hseparable : ∀ e ∈ bounds.toMap.entries,
      Util.Separable ":bounds:".toList ";bounds;".toList e := by
    rw [Bounds.toMap_entries]
    simp only [List.forall_mem_cons, List.not_mem_nil, false_implies, implies_true, and_true]
    exact ⟨hentry (by decide) hbounds.1, hentry (by decide) hbounds.2⟩
  have hmax : bounds.toMap.at "maxPoint".toList = bounds.maxPoint.toString := rfl
  have hmin : bounds.toMap.at "minPoint".toList = bounds.minPoint.toString := rfl
  simp only [Bounds.fromString, Bounds.toString, bind, Except.bind, hmax, hmin,
    Util.convertStringToMap_convertMapToString (by decide) (by decide) hseparable,
    Point.fromString_toString, pure, Except.pure, Bounds.printed]

/-! ### Splits -/

/-- The split that is read back. -/
def Split.printed (split : Split K) : Split K where
  splitDimension := split.splitDimension
  splitPoint := split.splitPoint.printed
  leftBounds := split.leftBounds.printed
  rightBounds := split.rightBounds.printed

/-- All five points have a coefficient. -/
structure Split.HasCoefficients (split : Split K) : Prop where
  /-- The split point has one. -/
  splitPoint : split.splitPoint.coefficients ≠ []
  /-- Both corners of the left bounds have one. -/
  leftBounds : split.leftBounds.HasCoefficients
  /-- Both corners of the right bounds have one. -/
  rightBounds : split.rightBounds.HasCoefficients

/-- The keys of a split in order. -/
theorem Split.toMap_entries (split : Split K) : split.toMap.entries =
    [("leftBounds".toList, split.leftBounds.toString),
      ("rightBounds".toList, split.rightBounds.toString),
      ("splitDimension".toList, toStringInt split.splitDimension),
      ("splitPoint".toList, split.splitPoint.toString)] :=
  rfl

/-- The text of bounds with coefficients is not empty. -/
theorem Bounds.toString_ne_nil (bounds : Bounds K) : bounds.toString ≠ [] :=
  convertMapToString_ne_nil (by decide) (by rw [Bounds.toMap_entries]; exact List.cons_ne_nil _ _)

/-- The text of a split joins when everything but its numbers does. -/
theorem Split.joins_toString {x y : Char} (hy : ¬IsNumeric y)
    (hlits : ∀ s ∈ [";p;", ":bounds:", ";bounds;", "maxPoint", "minPoint", ":split:", ";split;",
      "leftBounds", "rightBounds", "splitDimension", "splitPoint"], Joins x y s.toList)
    (split : Split K) : Joins x y split.toString := by
  have hbounds (bounds : Bounds K) : Joins x y bounds.toString :=
    Bounds.joins_toString hy (fun s hs => hlits s (List.mem_append_left [":split:", ";split;",
      "leftBounds", "rightBounds", "splitDimension", "splitPoint"] hs)) bounds
  simp only [List.forall_mem_cons, List.not_mem_nil, false_implies, implies_true,
    and_true] at hlits
  obtain ⟨hp, -, -, -, -, hkv, hitem, hleft, hright, hdimension, hpoint⟩ := hlits
  refine joins_convertMapToString hkv hitem ?_
  rw [Split.toMap_entries]
  simp only [List.forall_mem_cons, List.not_mem_nil, false_implies, implies_true, and_true]
  exact ⟨⟨hleft, hbounds _⟩, ⟨hright, hbounds _⟩, ⟨hdimension, joins_toStringInt hy _⟩, hpoint,
    Point.joins_toString hy hp _⟩

/-- A split is read back from its text. -/
theorem Split.fromString_toString {split : Split K} (hsplit : split.HasCoefficients) :
    Split.fromString split.toString = .ok split.printed := by
  have hentry {key value : Text} (hkey : key ≠ [] ∧ Avoids ':' 's' key ∧ Avoids ';' 's' key)
      (hvalue : value ≠ [] ∧ Joins ':' 's' value ∧ Joins ';' 's' value) :
      Util.Separable ":split:".toList ";split;".toList (key, value) :=
    separable_of_avoids (by decide) (by decide) ⟨hkey.1, hkey.2.1⟩
      ⟨hvalue.1, hvalue.2.1.avoids⟩ ((hkey.2.2.append (by decide)).append hvalue.2.2)
  have hbounds (bounds : Bounds K) : bounds.toString ≠ [] ∧ Joins ':' 's' bounds.toString ∧
      Joins ';' 's' bounds.toString :=
    ⟨bounds.toString_ne_nil, bounds.joins_toString (by decide) (by decide),
      bounds.joins_toString (by decide) (by decide)⟩
  have hseparable : ∀ e ∈ split.toMap.entries,
      Util.Separable ":split:".toList ";split;".toList e := by
    rw [Split.toMap_entries]
    simp only [List.forall_mem_cons, List.not_mem_nil, false_implies, implies_true, and_true]
    exact ⟨hentry (by decide) (hbounds _), hentry (by decide) (hbounds _),
      hentry (by decide) ⟨(Decimal.ofInt_chars _).1, joins_toStringInt (by decide) _,
        joins_toStringInt (by decide) _⟩,
      hentry (by decide) ⟨Point.toString_ne_nil hsplit.splitPoint,
        Point.joins_toString (by decide) (by decide) _,
        Point.joins_toString (by decide) (by decide) _⟩⟩
  have hdimension : split.toMap.at "splitDimension".toList =
      toStringInt split.splitDimension := rfl
  have hpoint : split.toMap.at "splitPoint".toList = split.splitPoint.toString := rfl
  have hleft : split.toMap.at "leftBounds".toList = split.leftBounds.toString := rfl
  have hright : split.toMap.at "rightBounds".toList = split.rightBounds.toString := rfl
  simp only [Split.fromString, Split.toString, bind, Except.bind, hdimension, hpoint, hleft, hright,
    Util.convertStringToMap_convertMapToString (by decide) (by decide) hseparable,
    stol_toStringInt, Point.fromString_toString, Bounds.fromString_toString hsplit.leftBounds,
    Bounds.fromString_toString hsplit.rightBounds, pure, Except.pure, Split.printed,
    Int.toNat_natCast]

/-! ### Nodes -/

/-- The node that is read back. -/
def Node.printed : Node K → Node K
  | .empty id => .empty id
  | .internal id split => .internal id split.printed
  | .leaf id sampleId => .leaf id sampleId

/-- A split, if the node has one, has coefficients in all its points. -/
def Node.HasCoefficients (node : Node K) : Prop := ∀ split ∈ node.getSplit, split.HasCoefficients

/-- The keys of a node in order. A node without a split has `n` in its place. -/
theorem Node.toMap_entries (node : Node K) : node.toMap.entries =
    [("id".toList, toStringInt node.getId), ("sampleId".toList, toStringInt node.getSampleId),
      ("split".toList, node.getSplit.elim "n".toList Split.toString),
      ("type".toList, toStringInt node.getType.toInt)] :=
  rfl

/-- The text of a split is not empty. -/
theorem Split.toString_ne_nil (split : Split K) : split.toString ≠ [] :=
  convertMapToString_ne_nil (by decide) (by rw [Split.toMap_entries]; exact List.cons_ne_nil _ _)

/-- The text of a node does not contain the beginning of the record marker. -/
theorem Node.avoids_toString (node : Node K) : Avoids 'b' 'G' node.toString := by
  refine (joins_convertMapToString (by decide) (by decide) ?_).avoids
  rw [Node.toMap_entries]
  simp only [List.forall_mem_cons, List.not_mem_nil, false_implies, implies_true, and_true]
  refine ⟨⟨by decide, joins_toStringInt (by decide) _⟩,
    ⟨by decide, joins_toStringInt (by decide) _⟩, ⟨by decide, ?_⟩,
    by decide, joins_toStringInt (by decide) _⟩
  cases node.getSplit with
  | none => exact show Joins 'b' 'G' "n".toList by decide
  | some split => exact split.joins_toString (by decide) (by decide)

/-- All entries in the text of a node can be read back. -/
theorem Node.separable {node : Node K} : ∀ e ∈ node.toMap.entries,
    Util.Separable ":no:".toList ";no;".toList e := by
  have hnumber {key : Text} (hkey : key ≠ [] ∧ Avoids ':' 'n' key ∧ Avoids ';' 'n' key) (n : ℤ) :
      Util.Separable ":no:".toList ";no;".toList (key, toStringInt n) :=
    separable_of_avoids (by decide) (by decide) ⟨hkey.1, hkey.2.1⟩
      ⟨(Decimal.ofInt_chars n).1, (joins_toStringInt (by decide) n).avoids⟩
      ((hkey.2.2.append (by decide)).append (joins_toStringInt (by decide) n))
  rw [Node.toMap_entries]
  simp only [List.forall_mem_cons, List.not_mem_nil, false_implies, implies_true, and_true]
  refine ⟨hnumber (by decide) _, hnumber (by decide) _, ?_, hnumber (by decide) _⟩
  cases node.getSplit with
  | none =>
    exact show Util.Separable _ _ ("split".toList, "n".toList) from
      separable_of_avoids (by decide) (by decide) (by decide) (by decide) (by decide)
  | some split =>
    have hkey : Avoids ';' 'n' ("split".toList ++ ":no:".toList) := by decide
    exact separable_of_avoids (by decide) (by decide) (by decide)
      ⟨split.toString_ne_nil, (split.joins_toString (by decide) (by decide)).avoids⟩
      (hkey.append (split.joins_toString (by decide) (by decide)))

/-- A node is read back from its text. -/
theorem Node.fromString_toString {node : Node K} (hnode : node.HasCoefficients) :
    Node.fromString node.toString = .ok node.printed := by
  have htype : node.toMap.at "type".toList = toStringInt node.getType.toInt := rfl
  have hid : node.toMap.at "id".toList = toStringInt node.getId := rfl
  have hsampleId : node.toMap.at "sampleId".toList = toStringInt node.getSampleId := rfl
  have hsplit : node.toMap.at "split".toList = node.getSplit.elim "n".toList Split.toString := rfl
  simp only [Node.fromString, Node.toString, bind, Except.bind, htype, hid, hsampleId, hsplit,
    Util.convertStringToMap_convertMapToString (by decide) (by decide) node.separable,
    stol_toStringInt]
  cases node with
  | empty id => rfl
  | internal id split =>
    have hread := Split.fromString_toString (hnode split rfl)
    simp only [Node.getSplit, Option.elim, hread, pure, Except.pure]
    rfl
  | leaf id sampleId => rfl

end Kdtree
