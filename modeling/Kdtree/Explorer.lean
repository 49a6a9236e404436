import Kdtree.Tree
import Mathlib.Order.WithBot
import Mathlib.Order.TypeTags

/-!
# The nearest neighbor search

`KDTreeExplorer::findNearestNeighbor`, one round of its loop at a time. The best
distance starts at infinity, which lies above every number. Reads outside the
node array or the matrix and the missing split of a node are faults.
-/

namespace Kdtree

/-- The best sample found so far, and the squared distance to it. -/
structure NearestNeighbor (K : Type) where
  /-- The row of the sample. -/
  sampleId : ℤ
  /-- The sample itself. -/
  point : Point K
  /-- Its squared distance to the query, or infinity before a leaf was visited. -/
  squaredDistance : WithTop K

/-- The local variables of the search loop. -/
structure Search (K : Type) where
  /-- The stack, its top first. -/
  nodesToExplore : List (Node K)
  /-- The best sample found so far. -/
  currentNearestNeighbor : NearestNeighbor K

/-- A lookup in the node array that must find a node. -/
def KDTree.lookup {K : Type} (tree : KDTree K) (nodeId : ℕ) : Except Fault (Node K) :=
  match tree.getNode nodeId with
  | some node => .ok node
  | none => .error .outOfRange

variable {K : Type} [Field K] [LinearOrder K]

/-- A row of the sample matrix under an id that may not be one. -/
def Samples.row (samples : Samples K) (sampleId : ℤ) : Except Fault (Point K) :=
  if 0 ≤ sampleId ∧ sampleId < samples.rows then
    .ok ((Segment.ofSamples samples).getPoint sampleId.toNat)
  else .error .outOfRange

/-- What a leaf does to the best sample. -/
def visitLeaf (samples : Samples K) (query : Point K) (sampleId : ℤ)
    (currentNearestNeighbor : NearestNeighbor K) : Except Fault (NearestNeighbor K) := do
  let point ← samples.row sampleId
  let distanceFromPoint := Point.squaredDistance point query
  if distanceFromPoint < currentNearestNeighbor.squaredDistance then
    return ⟨sampleId, point, distanceFromPoint⟩
  else
    return currentNearestNeighbor

/-- The children of an internal node that are worth exploring, in the order in
which they come off the stack. -/
def childrenToExplore (left right : Node K) (distances : K × K) (currentDistance : WithTop K) :
    List (Node K) :=
  let insertLeftNode : Bool := distances.1 ≤ currentDistance
  let insertRightNode : Bool := distances.2 ≤ currentDistance
  if insertLeftNode && insertRightNode then
    if distances.1 < distances.2 then [left, right] else [right, left]
  else if insertLeftNode then [left]
  else if insertRightNode then [right]
  else []

/-- One round of the search loop, on the node that was popped. -/
def exploreNode (samples : Samples K) (kdTree : KDTree K) (query : Point K) (node : Node K)
    (search : Search K) : Except Fault (Search K) :=
  match node.getType with
  | .leaf => do
    let nearest ← visitLeaf samples query node.getSampleId search.currentNearestNeighbor
    return { search with currentNearestNeighbor := nearest }
  | _ => do
    let nodeId := node.getId
    let leftNodeToExplore ← kdTree.lookup (KDTree.leftNodeId nodeId)
    let rightNodeToExplore ← kdTree.lookup (KDTree.rightNodeId nodeId)
    let split ← node.getSplit.elim (.error .nullSplit) .ok
    let distances := split.getDistancesFromSplits query
    return { search with
      nodesToExplore := childrenToExplore leftNodeToExplore rightNodeToExplore distances
        search.currentNearestNeighbor.squaredDistance ++ search.nodesToExplore }

/-- The search loop, for at most `fuel` rounds. -/
def exploreLoop (samples : Samples K) (kdTree : KDTree K) (query : Point K) :
    ℕ → Search K → Except Fault (NearestNeighbor K)
  | 0, _ => .error .outOfFuel
  | fuel + 1, search =>
    match search.nodesToExplore with
    | [] => .ok search.currentNearestNeighbor
    | node :: rest => do
      let search ← exploreNode samples kdTree query node { search with nodesToExplore := rest }
      exploreLoop samples kdTree query fuel search

/-- `KDTreeExplorer::findNearestNeighbor`. -/
def findNearestNeighbor (fuel : ℕ) (samples : Samples K) (kdTree : KDTree K) (query : Point K) :
    Except Fault (NearestNeighbor K) := do
  let segment := Segment.ofSamples samples
  if segment.getNumDimensions ≠ query.coefficients.length then
    throw .queryAndKdTreeDimensionsDontMatch
  let point ← samples.row 0
  let rootNode ← kdTree.lookup 0
  exploreLoop samples kdTree query fuel ⟨[rootNode], ⟨0, point, ⊤⟩⟩

end Kdtree
