import Kdtree.Segment
import Kdtree.General.Decimal
import Kdtree.General.Cuts
import Kdtree.General.Fallible
import Kdtree.General.SortedMap
import Mathlib.Data.Char
import Mathlib.Data.List.Lex

/-!
# Text, numbers and the converters of `Util.h`

A text is its list of characters. The converters put a separator behind every
item and split at the separators again; splitting drops empty pieces, and an
item that does not have a key and a value is read past its end.
-/

namespace Kdtree

open Delimited

/-- A `std::string`. -/
abbrev Text := List Char

/-- `std::map<string, string>`. -/
abbrev TextMap := SortedMap Text Text

/-- `m[key]`, which is empty for a key that has not been stored. -/
def TextMap.at (m : TextMap) (key : Text) : Text := m.getD key []

section Numbers

/-- `std::to_string` of an integer. -/
def toStringInt (n : ℤ) : Text := Decimal.ofInt n

/-- `std::stol`, and `std::stoi`, on text whose number fits the type: for other numbers they
throw `std::out_of_range`, and no number is out of range here. -/
def stol (s : Text) : Except Fault ℤ := (Decimal.parseInt s).elim (.error .invalidArgument) .ok

variable {K : Type} [Field K]

/-- `std::stod` on decimal text, with or without an exponent, in exact arithmetic. It also
reads hexadecimal text, infinities and `nan`, throws `std::out_of_range` for numbers that do
not fit a `double`, and tells `-0` from `0`; here such text is no number, no number is out of
range, and there is one zero. -/
def stod (s : Text) : Except Fault K := (Decimal.parse s).elim (.error .invalidArgument) .ok

/-- Reading an integer that was printed as a number. -/
theorem stod_toStringInt (n : ℤ) : stod (toStringInt n) = .ok (n : K) := by
  rw [stod, toStringInt, Decimal.parse_ofInt]
  rfl

variable [LinearOrder K] [FloorRing K]

/-- `std::to_string` of a floating value, which has six decimals. -/
def toStringDouble (x : K) : Text := Decimal.fixed 6 x

/-- The number whose text that is. -/
def printed (x : K) : K := Decimal.rounded 6 x

/-- Reading an integer that was printed. -/
theorem stol_toStringInt (n : ℤ) : stol (toStringInt n) = .ok n := by
  rw [stol, toStringInt, Decimal.parseInt_ofInt]
  rfl

/-- Reading a floating value that was printed. -/
theorem stod_toStringDouble (x : K) : stod (toStringDouble x) = .ok (printed x) := by
  rw [stod, toStringDouble, Decimal.parse_fixed (by decide)]
  rfl

end Numbers

namespace Util

/-- The loop of `Util::split`, for at most `fuel` rounds. `substart` is the text
that is left. -/
def splitLoop (delim : Text) (keepEmpty : Bool) : ℕ → Text → Except Fault (List Text)
  | 0, _ => .error .outOfFuel
  | fuel + 1, substart => do
    let (temp, subend) := search delim substart
    let result := if keepEmpty || temp ≠ [] then [temp] else []
    if subend = [] then
      return result
    else
      return result ++ (← splitLoop delim keepEmpty fuel (subend.drop delim.length))

/-- `Util::split`. The loop advances in each round, so it does not run out of rounds. -/
def split (s delim : Text) (keepEmpty : Bool) : Except Fault (List Text) :=
  if delim = [] then .ok [s] else splitLoop delim keepEmpty (s.length + 1) s

/-- `Util::convertMapToString`. -/
def convertMapToString (dict : TextMap) (kvSeparator itemSeparator : Text) : Text :=
  dict.entries.flatMap fun p => p.1 ++ kvSeparator ++ p.2 ++ itemSeparator

/-- One round of the loop in `Util::convertStringToMap`. -/
def storeItem (kvSeparator : Text) (mapToReturn : TextMap) (item : Text) :
    Except Fault TextMap := do
  match ← split item kvSeparator false with
  | key :: value :: _ => return mapToReturn.insert key value
  | _ => throw .outOfRange

/-- `Util::convertStringToMap`. -/
def convertStringToMap (inputString kvSeparator itemSeparator : Text) : Except Fault TextMap := do
  let items ← split inputString itemSeparator false
  items.foldlM (storeItem kvSeparator) .empty

/-- `Util::convertVectorToString`. -/
def convertVectorToString (data : List Text) (itemSeparator : Text) : Text :=
  data.flatMap fun s => s ++ itemSeparator

/-- `Util::convertStringToVector`. -/
def convertStringToVector (inputString itemSeparator : Text) : Except Fault (List Text) :=
  split inputString itemSeparator false

/-- The loop finds the pieces between the leftmost delimiters, and leaves out the
empty ones unless it is told to keep them. -/
theorem splitLoop_eq_filter {delim s : Text} {pieces : List Text} (hdelim : delim ≠ [])
    (hpieces : Cuts delim s pieces) (keepEmpty : Bool) {fuel : ℕ} (hfuel : pieces.length ≤ fuel) :
    splitLoop delim keepEmpty fuel s =
      .ok (pieces.filter fun p => keepEmpty || decide (p ≠ [])) := by
  induction hpieces generalizing fuel with
  | @last s habsent =>
    obtain ⟨fuel, rfl⟩ : ∃ k, fuel = k + 1 := ⟨fuel - 1, by simp at hfuel; omega⟩
    have hsearch : search delim s = (s, []) := (absent_iff hdelim).mpr habsent
    rw [splitLoop, hsearch, List.filter_singleton, cond_eq_ite]
    rfl
  | @cut p rest pieces hfirst hrest ih =>
    obtain ⟨fuel, rfl⟩ : ∃ k, fuel = k + 1 := ⟨fuel - 1, by simp at hfuel; omega⟩
    have htail := ih (show pieces.length ≤ fuel by simpa using hfuel)
    have hne : delim ++ rest ≠ [] := List.append_ne_nil_of_left_ne_nil hdelim _
    rw [splitLoop, hfirst.search_eq, List.take_left, List.drop_left, List.filter_cons]
    simp only [hne, if_false, List.drop_left, htail, bind, Except.bind, pure, Except.pure]
    split_ifs <;> rfl

/-- Splitting a text gives its pieces, or those that are not empty. -/
theorem split_eq_filter {delim s : Text} {pieces : List Text} (hdelim : delim ≠ [])
    (hpieces : Cuts delim s pieces) (keepEmpty : Bool) :
    split s delim keepEmpty = .ok (pieces.filter fun p => keepEmpty || decide (p ≠ [])) := by
  rw [split, if_neg hdelim]
  exact splitLoop_eq_filter hdelim hpieces keepEmpty (hpieces.length_le hdelim)

/-- Converting a vector to text and back. -/
theorem convertStringToVector_convertVectorToString {delim : Text} (hdelim : delim ≠ [])
    {data : List Text} (hdata : ∀ s ∈ data, s ≠ [] ∧ EndsAt delim s) :
    convertStringToVector (convertVectorToString data delim) delim = .ok data := by
  have hcuts := cuts_flatMap hdelim fun s hs => (hdata s hs).2
  have hkept : data.filter (fun s => decide (s ≠ [])) = data :=
    List.filter_eq_self.mpr fun s hs => decide_eq_true (hdata s hs).1
  rw [convertStringToVector, convertVectorToString, split_eq_filter hdelim hcuts,
    List.filter_append]
  simp only [Bool.false_or, hkept, ne_eq, not_true_eq_false, decide_false, List.filter_singleton,
    cond_false, List.append_nil]

/-- An item is taken apart into its key and its value. -/
theorem split_item {delim key value : Text} (hdelim : delim ≠ []) (hkey : key ≠ [])
    (hvalue : value ≠ []) (hends : EndsAt delim key) (habsent : Absent delim value) :
    split (key ++ delim ++ value) delim false = .ok [key, value] := by
  have hcuts : Cuts delim (key ++ delim ++ value) [key, value] := by
    rw [List.append_assoc]
    exact Cuts.cons hdelim hends (.last ((absent_iff hdelim).mp habsent))
  rw [split_eq_filter hdelim hcuts]
  simp [hkey, hvalue]

/-- What an entry must satisfy to be read back: neither part is empty, and each
separator first occurs where the entry was given it. -/
structure Separable (kvSeparator itemSeparator : Text) (entry : Text × Text) : Prop where
  /-- The key is not empty. -/
  key_ne_nil : entry.1 ≠ []
  /-- The value is not empty. -/
  value_ne_nil : entry.2 ≠ []
  /-- The key ends at the first key separator. -/
  key_endsAt : EndsAt kvSeparator entry.1
  /-- The value has no key separator. -/
  value_absent : Absent kvSeparator entry.2
  /-- The item ends at the first item separator. -/
  item_endsAt : EndsAt itemSeparator (entry.1 ++ kvSeparator ++ entry.2)

/-- The text of a map splits into its items. -/
theorem split_convertMapToString {kvSeparator itemSeparator : Text} (hitem : itemSeparator ≠ [])
    {m : TextMap} (hm : ∀ e ∈ m.entries, Separable kvSeparator itemSeparator e) :
    split (convertMapToString m kvSeparator itemSeparator) itemSeparator false =
      .ok (m.entries.map fun e => e.1 ++ kvSeparator ++ e.2) := by
  have htext : convertMapToString m kvSeparator itemSeparator = convertVectorToString
      (m.entries.map fun e => e.1 ++ kvSeparator ++ e.2) itemSeparator := by
    simp only [convertMapToString, convertVectorToString, List.flatMap_map]
  rw [htext]
  refine convertStringToVector_convertVectorToString hitem fun s hs => ?_
  obtain ⟨e, he, rfl⟩ := List.mem_map.mp hs
  exact ⟨List.append_ne_nil_of_right_ne_nil _ (hm e he).value_ne_nil, (hm e he).item_endsAt⟩

/-- The loop over the items stores their entries. -/
theorem foldlM_storeItem {kvSeparator itemSeparator : Text} (hkv : kvSeparator ≠ [])
    {l : List (Text × Text)} (hl : ∀ e ∈ l, Separable kvSeparator itemSeparator e)
    (start : TextMap) :
    (l.map fun e => e.1 ++ kvSeparator ++ e.2).foldlM (storeItem kvSeparator) start =
      .ok (l.foldl (fun m e => m.insert e.1 e.2) start) := by
  rw [List.foldlM_map]
  refine Fallible.foldlM_eq_ok (fun e he m => ?_) start
  simp only [storeItem, split_item hkv (hl e he).key_ne_nil (hl e he).value_ne_nil
    (hl e he).key_endsAt (hl e he).value_absent, bind, Except.bind, pure, Except.pure]

/-- Converting a map to text and back. -/
theorem convertStringToMap_convertMapToString {kvSeparator itemSeparator : Text}
    (hkv : kvSeparator ≠ []) (hitem : itemSeparator ≠ []) {m : TextMap}
    (hm : ∀ e ∈ m.entries, Separable kvSeparator itemSeparator e) :
    convertStringToMap (convertMapToString m kvSeparator itemSeparator) kvSeparator itemSeparator =
      .ok m := by
  have hrebuilt := m.foldl_insert_entries .empty (l := m.entries) rfl
  simp only [convertStringToMap, split_convertMapToString hitem hm, bind, Except.bind,
    foldlM_storeItem hkv hm, hrebuilt]

end Util

end Kdtree
