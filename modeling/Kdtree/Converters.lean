import Kdtree.Util

/-!
# Splitting and joining texts

`Util::split` finds the leftmost delimiters that do not overlap and loses no text.
The converters undo each other as soon as every separator first occurs where it
was written, which separators that begin and end alike do not guarantee by
themselves.
-/

namespace Kdtree

open Delimited

namespace Util

/-- Splitting returns pieces that give the text when they are joined with the
delimiter. In the text from the beginning of each piece but the last, the delimiter
first occurs at the end of that piece; the last piece does not contain it. Without
the empty pieces the result is the same list with the empty pieces removed. -/
theorem split_cuts_leftmost (s : Text) {delim : Text} (hdelim : delim ≠ []) :
    ∃ pieces : List Text, split s delim true = .ok pieces ∧
      split s delim false = .ok (pieces.filter fun p => p ≠ []) ∧
      pieces ≠ [] ∧ delim.intercalate pieces = s ∧
      (∀ before p after, pieces = before ++ p :: after → after ≠ [] →
        FirstAt delim (s.drop (before.flatMap fun q => q ++ delim).length) p.length) ∧
      ∀ before p, pieces = before ++ [p] → ¬delim <:+: p := by
  obtain ⟨pieces, hpieces⟩ := exists_cuts hdelim s
  have hkept := split_eq_filter hdelim hpieces true
  have hdropped := split_eq_filter hdelim hpieces false
  simp only [Bool.true_or, List.filter_true, Bool.false_or] at hkept hdropped
  refine ⟨pieces, hkept, hdropped, hpieces.ne_nil, hpieces.intercalate_eq, ?_, ?_⟩
  · intro before p after heq hafter
    exact hpieces.firstAt heq hafter
  · intro before p heq
    exact hpieces.last_absent heq

/-- Splitting at a delimiter that overlaps itself and stands at the end of the text. -/
theorem split_dashes :
    ∃ pieces : List Text, split "a---b--".toList "--".toList true = .ok pieces ∧
      split "a---b--".toList "--".toList false = .ok (pieces.filter fun p => p ≠ []) ∧
      pieces ≠ [] ∧ "--".toList.intercalate pieces = "a---b--".toList ∧
      (∀ before p after, pieces = before ++ p :: after → after ≠ [] →
        FirstAt "--".toList
          ("a---b--".toList.drop (before.flatMap fun q => q ++ "--".toList).length) p.length) ∧
      ∀ before p, pieces = before ++ [p] → ¬"--".toList <:+: p :=
  split_cuts_leftmost "a---b--".toList (by decide)

/-- Each separator of an entry first occurs where the entry was given it. -/
structure WrittenApart (kvSeparator itemSeparator : Text) (entry : Text × Text) : Prop where
  /-- The key is not empty. -/
  key_ne_nil : entry.1 ≠ []
  /-- The value is not empty. -/
  value_ne_nil : entry.2 ≠ []
  /-- The first key separator of the item is directly behind the key. -/
  key_first : FirstAt kvSeparator (entry.1 ++ (kvSeparator ++ entry.2)) entry.1.length
  /-- The value has no key separator. -/
  value_absent : ¬kvSeparator <:+: entry.2
  /-- The first item separator of the item is directly behind the value. -/
  item_first : FirstAt itemSeparator (entry.1 ++ kvSeparator ++ entry.2 ++ itemSeparator)
    (entry.1 ++ kvSeparator ++ entry.2).length

/-- Such an entry is read back. -/
theorem WrittenApart.separable {kvSeparator itemSeparator : Text} {entry : Text × Text}
    (hkv : kvSeparator ≠ []) (hitem : itemSeparator ≠ [])
    (h : WrittenApart kvSeparator itemSeparator entry) :
    Separable kvSeparator itemSeparator entry where
  key_ne_nil := h.key_ne_nil
  value_ne_nil := h.value_ne_nil
  key_endsAt := (endsAt_iff hkv).mpr h.key_first.of_append
  value_absent := (absent_iff hkv).mpr h.value_absent
  item_endsAt := (endsAt_iff hitem).mpr h.item_first

/-- A vector of non-empty strings comes back from its text if the separator first occurs
behind each of them. A map comes back from its text if the separators of its entries
first occur where they were written; every item then splits into a key and a value. -/
theorem converters_inverse :
    (∀ (itemSeparator : Text) (data : List Text), itemSeparator ≠ [] →
      (∀ s ∈ data, s ≠ [] ∧ FirstAt itemSeparator (s ++ itemSeparator) s.length) →
      convertStringToVector (convertVectorToString data itemSeparator) itemSeparator =
        .ok data) ∧
    ∀ (kvSeparator itemSeparator : Text) (m : TextMap), kvSeparator ≠ [] → itemSeparator ≠ [] →
      (∀ entry ∈ m.entries, WrittenApart kvSeparator itemSeparator entry) →
      convertStringToMap (convertMapToString m kvSeparator itemSeparator) kvSeparator
        itemSeparator = .ok m ∧
      ∃ items, split (convertMapToString m kvSeparator itemSeparator) itemSeparator false =
          .ok items ∧
        ∀ item ∈ items, ∃ key value, split item kvSeparator false = .ok [key, value] := by
  constructor
  · intro itemSeparator data hitem hdata
    exact convertStringToVector_convertVectorToString hitem fun s hs =>
      ⟨(hdata s hs).1, (endsAt_iff hitem).mpr (hdata s hs).2⟩
  · intro kvSeparator itemSeparator m hkv hitem hm
    have hseparable : ∀ e ∈ m.entries, Separable kvSeparator itemSeparator e :=
      fun e he => (hm e he).separable hkv hitem
    refine ⟨convertStringToMap_convertMapToString hkv hitem hseparable, _,
      split_convertMapToString hitem hseparable, fun item hitem' => ?_⟩
    obtain ⟨e, he, rfl⟩ := List.mem_map.mp hitem'
    exact ⟨e.1, e.2, split_item hkv (hseparable e he).key_ne_nil (hseparable e he).value_ne_nil
      (hseparable e he).key_endsAt (hseparable e he).value_absent⟩

/-- A vector and a map whose contents end with a character of the separators. -/
theorem converters_inverse_semicolons :
    convertStringToVector (convertVectorToString ["a;".toList, "b".toList] ";p;".toList)
        ";p;".toList = .ok ["a;".toList, "b".toList] ∧
      convertStringToMap (convertMapToString (SortedMap.empty.insert "k".toList "x;".toList)
        ":no:".toList ";no;".toList) ":no:".toList ";no;".toList =
          .ok (SortedMap.empty.insert "k".toList "x;".toList) := by
  refine ⟨converters_inverse.1 _ _ (by decide) (by decide), (converters_inverse.2 _ _ _
    (by decide) (by decide) fun entry hentry => ?_).1⟩
  obtain rfl := List.mem_singleton.mp hentry
  exact ⟨by decide, by decide, by decide, by decide, by decide⟩

end Util

end Kdtree
