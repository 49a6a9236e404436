import Kdtree.Explorer
import Kdtree.Util

/-!
# The model file

The text form of points, bounds, splits and nodes, each inside the next with
separators of its own, and the file the records of all slots are written to.
Compression and the file system are parameters: what is read is what was written.
-/

namespace Kdtree

variable {K : Type} [Field K]

/-- `Point::fromString`. -/
def Point.fromString (objectStr : Text) : Except Fault (Point K) := do
  let pieces ← Util.convertStringToVector objectStr ";p;".toList
  return ⟨← pieces.mapM stod⟩

/-- `Bounds::fromString`. -/
def Bounds.fromString (objectStr : Text) : Except Fault (Bounds K) := do
  let m ← Util.convertStringToMap objectStr ":bounds:".toList ";bounds;".toList
  let maxPoint ← Point.fromString (m.at "maxPoint".toList)
  let minPoint ← Point.fromString (m.at "minPoint".toList)
  return ⟨maxPoint, minPoint⟩

/-- `Split::fromString`, for a split dimension that is not negative and that the `double` it
is kept in holds exactly: the source stores any other one as that `double`. -/
def Split.fromString (objectStr : Text) : Except Fault (Split K) := do
  let m ← Util.convertStringToMap objectStr ":split:".toList ";split;".toList
  let splitDimension ← stol (m.at "splitDimension".toList)
  let point ← Point.fromString (m.at "splitPoint".toList)
  let leftBounds ← Bounds.fromString (m.at "leftBounds".toList)
  let rightBounds ← Bounds.fromString (m.at "rightBounds".toList)
  return ⟨splitDimension.toNat, point, leftBounds, rightBounds⟩

/-- The numbers of the enumeration `NodeType`. -/
def NodeType.toInt : NodeType → ℤ
  | .empty => 0
  | .internal => 1
  | .leaf => 2

/-- `Node::fromString`. Every type other than `0` and `1` is read as a leaf. -/
def Node.fromString (objectStr : Text) : Except Fault (Node K) := do
  let m ← Util.convertStringToMap objectStr ":no:".toList ";no;".toList
  let typeInt ← stol (m.at "type".toList)
  if typeInt = 0 then
    let id ← stol (m.at "id".toList)
    return .empty id.toNat
  else if typeInt = 1 then
    let split ← Split.fromString (m.at "split".toList)
    let id ← stol (m.at "id".toList)
    return .internal id.toNat split
  else
    let sampleId ← stol (m.at "sampleId".toList)
    let id ← stol (m.at "id".toList)
    return .leaf id.toNat sampleId

/-- Compression, of which only the round trip is known. -/
structure Gzip where
  /-- `Util::compress`. -/
  compress : Text → Text
  /-- `Util::decompress`. -/
  decompress : Text → Text
  /-- What was compressed is decompressed. -/
  decompress_compress : ∀ data, decompress (compress data) = data

/-- The text behind every record of the file. -/
def recordMarker : Text := "bGh88wY3vm2sebBYc".toList

/-- `compressAndWriteStringVector`: the bytes of the file. -/
def compressAndWriteStringVector (gzip : Gzip) (stringVector : List Text) : Text :=
  gzip.compress (stringVector.flatMap fun s => s ++ recordMarker)

/-- `decompressAndLoadStringVector`, on the bytes of the file. -/
def decompressAndLoadStringVector (gzip : Gzip) (inputFile : Text) : Except Fault (List Text) :=
  Util.split (gzip.decompress inputFile) recordMarker false

/-- One round of the loop in `convertStringVectorToKDTree`. -/
def insertRecord (kdTree : KDTree K) (record : Text × ℕ) : Except Fault (KDTree K) := do
  let (nodeString, nodeId) := record
  match ← Node.fromString nodeString with
  | .empty _ => return kdTree.insertEmptyNode nodeId
  | .internal _ split => return kdTree.insertInternalNode nodeId split
  | .leaf _ sampleId => return kdTree.insertLeafNode nodeId sampleId

/-- `convertStringVectorToKDTree`. The slot of a node is the position of its record. -/
def convertStringVectorToKDTree (stringVector : List Text) : Except Fault (KDTree K) :=
  stringVector.zipIdx.foldlM insertRecord (.create stringVector.length)

/-- `KDTreeIO::load`. -/
def load (gzip : Gzip) (modelFile : Text) : Except Fault (KDTree K) := do
  convertStringVectorToKDTree (← decompressAndLoadStringVector gzip modelFile)

section Lines

variable {K : Type}

/-- One call of a function that reads numbers in the place of `stod`, and throws where
it gives `none`. -/
def readNumber (stod : Text → Option K) (token : Text) : Except Fault K :=
  (stod token).elim (.error .invalidArgument) .ok

/-- The numbers in one line, with any function in the place of `stod`. -/
def parseLineWith (stod : Text → Option K) (line : Text) : Except Fault (List K) := do
  (← Util.split line ",".toList false).mapM (readNumber stod)

/-- `KDTreeIO::loadSamples` on the lines of the file, with any function in the place of
`stod`. The first line decides the number of dimensions; a shorter line is read past
its end. -/
def loadSamplesWith [Zero K] (stod : Text → Option K) (lines : List Text) :
    Except Fault (Samples K) := do
  match ← lines.mapM (parseLineWith stod) with
  | [] => throw .noSamplesInInputFile
  | first :: rest =>
    let items := first :: rest
    let numDimensions := first.length
    -- The two loops that copy the items count their rounds in an `int`.
    let _ ← KDTree.toInt32 items.length
    let _ ← KDTree.toInt32 numDimensions
    if ∀ item ∈ items, numDimensions ≤ item.length then
      return ⟨items.length, numDimensions, fun i j => (items.getD i []).getD j 0⟩
    else throw .outOfRange

end Lines

/-- The numbers in one line of decimal numbers. -/
def parseLine (line : Text) : Except Fault (List K) := parseLineWith Decimal.parse line

/-- `KDTreeIO::loadSamples` on lines of decimal numbers. -/
def loadSamples (lines : List Text) : Except Fault (Samples K) :=
  loadSamplesWith Decimal.parse lines

variable [LinearOrder K] [FloorRing K]

/-- `Point::toString`. -/
def Point.toString (point : Point K) : Text :=
  Util.convertVectorToString (point.coefficients.map toStringDouble) ";p;".toList

/-- The map that `Bounds::toString` fills. -/
def Bounds.toMap (bounds : Bounds K) : TextMap :=
  (SortedMap.empty.insert "maxPoint".toList bounds.maxPoint.toString).insert
    "minPoint".toList bounds.minPoint.toString

/-- `Bounds::toString`. -/
def Bounds.toString (bounds : Bounds K) : Text :=
  Util.convertMapToString bounds.toMap ":bounds:".toList ";bounds;".toList

/-- The map that `Split::toString` fills. -/
def Split.toMap (split : Split K) : TextMap :=
  (((SortedMap.empty.insert "splitDimension".toList (toStringInt split.splitDimension)).insert
    "splitPoint".toList split.splitPoint.toString).insert
    "leftBounds".toList split.leftBounds.toString).insert
    "rightBounds".toList split.rightBounds.toString

/-- `Split::toString`. -/
def Split.toString (split : Split K) : Text :=
  Util.convertMapToString split.toMap ":split:".toList ";split;".toList

/-- The map that `Node::toString` fills. -/
def Node.toMap (node : Node K) : TextMap :=
  (((SortedMap.empty.insert "type".toList (toStringInt node.getType.toInt)).insert
    "id".toList (toStringInt node.getId)).insert
    "sampleId".toList (toStringInt node.getSampleId)).insert
    "split".toList (node.getSplit.elim "n".toList Split.toString)

/-- `Node::toString`. -/
def Node.toString (node : Node K) : Text :=
  Util.convertMapToString node.toMap ":no:".toList ";no;".toList

/-- `convertKDTreeToStringVector`. -/
def convertKDTreeToStringVector (kdTree : KDTree K) : Except Fault (List Text) :=
  (List.range kdTree.numNodes).mapM fun i => do return (← kdTree.lookup i).toString

/-- `KDTreeIO::write`: the bytes of the file. -/
def write (gzip : Gzip) (kdTree : KDTree K) : Except Fault Text := do
  return compressAndWriteStringVector gzip (← convertKDTreeToStringVector kdTree)

end Kdtree
