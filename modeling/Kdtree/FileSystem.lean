import Kdtree.Util

/-!
# Files

What the programs read from files and write to them. A file that cannot be opened
reads as if it were empty, and writing to it does nothing; both only print a message.
Lines are read as `getline` does: a newline ends a line, and the last line may go
without.
-/

namespace Kdtree

/-- The files of a machine. Different paths are different files, and a file that was
written can be read. -/
structure FileSystem where
  /-- What a file holds, if there is one that can be opened for reading. -/
  content : Text → Option Text
  /-- Whether a path can be opened for writing. -/
  writable : Text → Bool

/-- Opens a path for writing, and writes. -/
def FileSystem.store (files : FileSystem) (path data : Text) : FileSystem :=
  if files.writable path then
    { files with content := Function.update files.content path (some data) }
  else files

/-- `Util::readBinaryFile`. -/
def Util.readBinaryFile (files : FileSystem) (filename : Text) : Text :=
  (files.content filename).getD []

/-- `Util::writeBinaryFile`. -/
def Util.writeBinaryFile (files : FileSystem) (filename data : Text) : FileSystem :=
  files.store filename data

/-- `Util::writeStringVector`. -/
def Util.writeStringVector (files : FileSystem) (fileName : Text) (data : List Text) :
    FileSystem :=
  files.store fileName (data.flatMap fun l => l ++ "\n".toList)

/-- `std::getline`: the next line, and the text behind its newline. It fails when no
character is left. -/
def getline (inputFile : Text) : Option (Text × Text) :=
  if inputFile = [] then none
  else some (inputFile.takeWhile (· ≠ '\n'), (inputFile.dropWhile (· ≠ '\n')).drop 1)

/-- A line that was read was not at the end of the text. -/
theorem length_lt_of_getline {inputFile line rest : Text}
    (h : getline inputFile = some (line, rest)) : rest.length < inputFile.length := by
  unfold getline at h
  split_ifs at h with hempty
  obtain ⟨-, rfl⟩ := Prod.mk.inj (Option.some.inj h)
  have hpos := List.length_pos_iff.mpr hempty
  have hdrop := (List.dropWhile_suffix (l := inputFile) (· ≠ '\n')).length_le
  rw [List.length_drop]
  omega

/-- The loop of `loadStringVector`. -/
def getlines (inputFile : Text) : List Text :=
  match _hline : getline inputFile with
  | none => []
  | some (line, rest) => line :: getlines rest
termination_by inputFile.length
decreasing_by exact length_lt_of_getline _hline

/-- `KDTreeIO::loadStringVector`. -/
def loadStringVector (files : FileSystem) (inputFilePath : Text) : List Text :=
  match files.content inputFilePath with
  | some inputFile => getlines inputFile
  | none => []

/-- Nothing is read from an empty text. -/
theorem getlines_nil : getlines [] = [] := by
  rw [getlines]
  rfl

/-- A line is read up to its newline. -/
theorem getlines_append {line : Text} (hline : '\n' ∉ line) (rest : Text) :
    getlines (line ++ ("\n".toList ++ rest)) = line :: getlines rest := by
  have hkept : ∀ c ∈ line, (decide (c ≠ '\n')) = true := fun c hc =>
    decide_eq_true fun heq => hline (heq ▸ hc)
  have hnext : getline (line ++ ("\n".toList ++ rest)) = some (line, rest) := by
    rw [getline, if_neg (by simp), List.takeWhile_append_of_pos hkept,
      List.dropWhile_append_of_pos hkept]
    simp
  rw [getlines]
  split
  next heq => rw [hnext] at heq; cases heq
  next line' rest' heq =>
    rw [hnext] at heq
    obtain ⟨rfl, rfl⟩ := Prod.mk.inj (Option.some.inj heq)
    rfl

/-- Lines that were written are read back. -/
theorem getlines_flatMap {lines : List Text} (hlines : ∀ line ∈ lines, '\n' ∉ line) :
    getlines (lines.flatMap fun l => l ++ "\n".toList) = lines := by
  induction lines with
  | nil => exact getlines_nil
  | cons line lines ih =>
    rw [List.flatMap_cons, List.append_assoc, getlines_append (hlines line List.mem_cons_self),
      ih fun l hl => hlines l (List.mem_cons_of_mem _ hl)]

namespace FileSystem

variable (files : FileSystem)

/-- Writing to a path leaves all other files alone. -/
theorem content_store_of_ne {path other : Text} (data : Text) (hother : other ≠ path) :
    (files.store path data).content other = files.content other := by
  unfold store
  split_ifs
  · exact Function.update_of_ne hother _ _
  · rfl

/-- What was written is there. -/
theorem content_store_self {path : Text} (data : Text) (hwritable : files.writable path) :
    (files.store path data).content path = some data := by
  rw [store, if_pos hwritable]
  exact Function.update_self _ _ _

end FileSystem

end Kdtree
