import Kdtree.KDTreeHandler
import Kdtree.Reload

/-!
# Loading any model file, and saving it again

The text of a model file may come from anywhere. Loading returns exactly when every
record can be read, and then the array has one slot for each record; the id that a
record gives for itself is not used. A loaded tree can be saved, and from then on
loading and saving change nothing more.
-/

namespace Kdtree

variable {K : Type} [Field K]

/-- The node of a record, in the slot of the record. -/
def Node.withId (id : ℕ) : Node K → Node K
  | .empty _ => .empty id
  | .internal _ split => .internal id split
  | .leaf _ sampleId => .leaf id sampleId

omit [Field K] in
/-- A node has the id it was given. -/
@[simp] theorem Node.getId_withId (id : ℕ) (node : Node K) : (node.withId id).getId = id := by
  cases node <;> rfl

/-- The array of the nodes of all records. -/
def KDTree.ofRecords (nodes : List (Node K)) : KDTree K :=
  (nodes.zipIdx.map fun p => p.1.withId p.2).foldl insert (.create nodes.length)

omit [Field K] in
/-- The array has a slot for every record. -/
@[simp] theorem KDTree.numNodes_ofRecords (nodes : List (Node K)) :
    (ofRecords nodes).numNodes = nodes.length := by
  rw [ofRecords, numNodes_foldl_insert, numNodes_create]

omit [Field K] in
/-- The slots of the array are the positions of the records. -/
theorem KDTree.getNode_ofRecords (nodes : List (Node K)) (id : ℕ) :
    (ofRecords nodes).getNode id = (nodes[id]?).map (Node.withId id) := by
  have hids : (nodes.zipIdx.map fun p => p.1.withId p.2).map Node.getId =
      List.range nodes.length := by
    rw [List.map_map]
    have hcomp : (Node.getId ∘ fun p : Node K × ℕ => p.1.withId p.2) = Prod.snd := by
      funext p
      exact Node.getId_withId p.2 p.1
    rw [hcomp, List.zipIdx_map_snd, List.range_eq_range']
  by_cases hid : id < nodes.length
  · have hmem : nodes[id].withId id ∈ nodes.zipIdx.map fun p => p.1.withId p.2 := by
      refine List.mem_map.mpr ⟨(nodes[id], id), ?_, rfl⟩
      rw [List.mem_zipIdx_iff_getElem?]
      exact List.getElem?_eq_getElem hid
    have hget := getNode_foldl_insert_of_mem (create nodes.length)
      (hids ▸ List.nodup_range) hmem
    rw [Node.getId_withId] at hget
    rw [ofRecords, hget, List.getElem?_eq_getElem hid, Option.map_some]
  · have hnotMem : id ∉ (nodes.zipIdx.map fun p => p.1.withId p.2).map Node.getId := by
      rw [hids, List.mem_range]
      exact hid
    rw [ofRecords, getNode_foldl_insert_of_notMem _ hnotMem, getNode_create, if_neg hid,
      List.getElem?_eq_none (not_lt.mp hid), Option.map_none]

/-- The loop reads the records in order, and stores each in the slot of its position. -/
theorem foldlM_insertRecord (records : List Text) (first : ℕ) (kdTree : KDTree K) :
    (records.zipIdx first).foldlM insertRecord kdTree =
      (records.mapM Node.fromString).map fun nodes =>
        ((nodes.zipIdx first).map fun p => p.1.withId p.2).foldl KDTree.insert kdTree := by
  induction records generalizing first kdTree with
  | nil => rfl
  | cons s records ih =>
    rw [List.zipIdx_cons, List.foldlM_cons, List.mapM_cons]
    cases hs : (Node.fromString s : Except Fault (Node K)) with
    | error fault =>
      have hround : insertRecord kdTree (s, first) = .error fault := by
        simp only [insertRecord, hs, bind, Except.bind]
      rw [hround]
      rfl
    | ok node =>
      have hround : insertRecord kdTree (s, first) = .ok (kdTree.insert (node.withId first)) := by
        simp only [insertRecord, hs, bind, Except.bind]
        cases node <;> rfl
      rw [hround]
      change (records.zipIdx (first + 1)).foldlM insertRecord
        (kdTree.insert (node.withId first)) = _
      rw [ih]
      cases records.mapM (Node.fromString (K := K)) <;> rfl

/-- Loading the records of a file: the faults are those of the records, in order. -/
theorem convertStringVectorToKDTree_eq (records : List Text) :
    convertStringVectorToKDTree (K := K) records =
      (records.mapM Node.fromString).map KDTree.ofRecords := by
  rw [convertStringVectorToKDTree, foldlM_insertRecord]
  cases hnodes : records.mapM (Node.fromString (K := K)) with
  | error fault => rfl
  | ok nodes =>
    have hlength := Fallible.length_of_mapM hnodes
    simp only [Except.map, KDTree.ofRecords, hlength]

/-- Loading any text as a model file. The records are what lies between the markers,
without the empty ones. If all of them can be read, the tree has one slot for each, and
the slot holds the node of the record at that position, whatever id the record gives
for itself. Otherwise loading fails as the first record that cannot be read does. -/
theorem load_spec (gzip : Gzip) (modelFile : Text) : ∃ pieces records : List Text,
    Delimited.Cuts recordMarker (gzip.decompress modelFile) pieces ∧
    records = pieces.filter (· ≠ []) ∧
    (∀ kdTree : KDTree K, load gzip modelFile = .ok kdTree ↔
      ∃ nodes, records.mapM Node.fromString = .ok nodes ∧ kdTree.numNodes = records.length ∧
        ∀ id, kdTree.getNode id = (nodes[id]?).map (Node.withId id)) ∧
    ∀ fault, load (K := K) gzip modelFile = .error fault ↔
      ∃ before s after, records = before ++ s :: after ∧
        (∀ s' ∈ before, ∃ node : Node K, Node.fromString s' = .ok node) ∧
        Node.fromString (K := K) s = .error fault := by
  have hmarker : recordMarker ≠ [] := by decide
  obtain ⟨pieces, hcuts⟩ := Delimited.exists_cuts hmarker (gzip.decompress modelFile)
  have hsplit := Util.split_eq_filter hmarker hcuts false
  have hload : load (K := K) gzip modelFile =
      ((pieces.filter (· ≠ [])).mapM Node.fromString).map KDTree.ofRecords := by
    simp only [load, decompressAndLoadStringVector, hsplit, bind, Except.bind, Bool.false_or,
      convertStringVectorToKDTree_eq]
  refine ⟨pieces, _, hcuts, rfl, ?_, ?_⟩
  · intro kdTree
    rw [hload]
    cases hnodes : (pieces.filter (· ≠ [])).mapM (Node.fromString (K := K)) with
    | error fault =>
      simp [Except.map]
    | ok nodes =>
      have hlength := Fallible.length_of_mapM hnodes
      constructor
      · intro h
        obtain rfl := Except.ok.inj h
        refine ⟨nodes, rfl, ?_, KDTree.getNode_ofRecords nodes⟩
        rw [KDTree.numNodes_ofRecords, hlength]
      · rintro ⟨nodes', hnodes', hnum, hget⟩
        obtain rfl := Except.ok.inj hnodes'
        refine congrArg Except.ok (KDTree.ext ?_ ?_)
        · rw [KDTree.numNodes_ofRecords, hlength, hnum]
        · intro id
          rw [KDTree.getNode_ofRecords, hget]
  · intro fault
    rw [hload, ← Fallible.mapM_eq_error_iff]
    cases (pieces.filter (· ≠ [])).mapM (Node.fromString (K := K)) <;> simp [Except.map]

variable [LinearOrder K] [FloorRing K]

section Printing

variable [IsStrictOrderedRing K]

/-- A number that has been printed and read is printed as it is, -/
theorem printed_printed (x : K) : printed (printed x) = printed x := Decimal.rounded_rounded 6 x

/-- and so is a point, -/
theorem Point.printed_printed (point : Point K) : point.printed.printed = point.printed := by
  simp [printed, Function.comp_def, Kdtree.printed_printed]

/-- a split -/
theorem Split.printed_printed (split : Split K) : split.printed.printed = split.printed := by
  simp [printed, Bounds.printed, Point.printed_printed]

/-- and a node. -/
theorem Node.printed_printed (node : Node K) : node.printed.printed = node.printed := by
  cases node <;> simp [printed, Split.printed_printed]

/-- A tree that has been read back is read back as it is. -/
theorem KDTree.printed_printed (kdTree : KDTree K) : kdTree.printed.printed = kdTree.printed := by
  apply KDTree.ext
  · rw [numNodes_printed]
  · intro id
    by_cases hid : id < kdTree.numNodes
    · have hid' : id < kdTree.printed.numNodes := by rwa [numNodes_printed]
      rw [getNode_printed _ hid', nodeAt, getNode_printed _ hid, Option.getD_some,
        Node.printed_printed]
    · have hid' : kdTree.printed.numNodes ≤ id := by rwa [numNodes_printed, ← not_lt]
      rw [getNode_printed_of_le _ hid', getNode_printed_of_le _ (not_lt.mp hid)]

end Printing

/-- A point that has been printed and read has as many coefficients. -/
theorem Point.printed_ne_nil {point : Point K} (h : point.coefficients ≠ []) :
    point.printed.coefficients ≠ [] := by
  rw [printed]
  exact List.map_eq_nil_iff.not.mpr h

/-- No box loses its coefficients when its node is printed and read. -/
theorem Node.HasCoefficients.printed {node : Node K} (h : node.HasCoefficients) :
    node.printed.HasCoefficients := by
  cases node with
  | empty id => exact h
  | leaf id sampleId => exact h
  | internal id split =>
    intro split' hsplit'
    obtain rfl : split.printed = split' := Option.some.inj hsplit'
    have hsplit := h split rfl
    exact ⟨Point.printed_ne_nil hsplit.splitPoint,
      ⟨Point.printed_ne_nil hsplit.leftBounds.1, Point.printed_ne_nil hsplit.leftBounds.2⟩,
      ⟨Point.printed_ne_nil hsplit.rightBounds.1, Point.printed_ne_nil hsplit.rightBounds.2⟩⟩

/-- A tree that can be written can be written again once it has been read. -/
theorem KDTree.Writable.printed {kdTree : KDTree K} (h : kdTree.Writable) :
    kdTree.printed.Writable := by
  intro id hid
  rw [numNodes_printed] at hid
  obtain ⟨node, hnode, hcoefficients⟩ := h id hid
  refine ⟨node.printed, ?_, hcoefficients.printed⟩
  rw [getNode_printed _ hid, nodeAt, hnode, Option.getD_some]

/-- A query depends on the model file only through the tree that is loaded from it. -/
theorem queryKDTree_congr (sqrt : K → K) (gzip : Gzip) {modelFile modelFile' : Text}
    (h : load (K := K) gzip modelFile = load gzip modelFile') (fuel : ℕ)
    (inputSampleDataset queriesFile : List Text) :
    queryKDTree sqrt gzip fuel inputSampleDataset modelFile queriesFile =
      queryKDTree sqrt gzip fuel inputSampleDataset modelFile' queriesFile := by
  simp only [queryKDTree, h]

variable [IsStrictOrderedRing K]

/-- Saving what was loaded, from any text that loads as a tree whose splits have all
their points. The saved file is loaded as the tree with printed splits; saving that
tree and loading it gives the same tree, so both saved files answer all queries alike.
If the loaded tree had been written by the program, already the first of these trees is
the loaded one, and all three files answer alike. -/
theorem write_load (gzip : Gzip) {modelFile : Text} {kdTree : KDTree K}
    (hload : load gzip modelFile = .ok kdTree)
    (hcoefficients : ∀ id node, kdTree.getNode id = some node → node.HasCoefficients) :
    ∃ saved savedAgain,
      write gzip kdTree = .ok saved ∧ load gzip saved = .ok kdTree.printed ∧
      write gzip kdTree.printed = .ok savedAgain ∧
      load gzip savedAgain = .ok kdTree.printed ∧
      (∀ sqrt fuel inputSampleDataset queriesFile,
        queryKDTree (K := K) sqrt gzip fuel inputSampleDataset savedAgain queriesFile =
          queryKDTree sqrt gzip fuel inputSampleDataset saved queriesFile) ∧
      ∀ original : KDTree K, original.Writable → write gzip original = .ok modelFile →
        kdTree.printed = kdTree ∧ ∀ sqrt fuel inputSampleDataset queriesFile,
          queryKDTree (K := K) sqrt gzip fuel inputSampleDataset saved queriesFile =
            queryKDTree sqrt gzip fuel inputSampleDataset modelFile queriesFile := by
  have hwritable : kdTree.Writable := by
    obtain ⟨pieces, records, -, -, hok, -⟩ := load_spec (K := K) gzip modelFile
    obtain ⟨nodes, hnodes, hnum, hget⟩ := (hok kdTree).mp hload
    intro id hid
    have hid' : id < nodes.length := by
      rw [Fallible.length_of_mapM hnodes]
      omega
    have hnode := hget id
    rw [List.getElem?_eq_getElem hid', Option.map_some] at hnode
    exact ⟨_, hnode, hcoefficients id _ hnode⟩
  obtain ⟨saved, hsaved, hloadSaved⟩ := hwritable.load_write gzip
  obtain ⟨savedAgain, hsavedAgain, hloadAgain⟩ := hwritable.printed.load_write gzip
  rw [kdTree.printed_printed] at hloadAgain
  refine ⟨saved, savedAgain, hsaved, hloadSaved, hsavedAgain, hloadAgain, ?_, ?_⟩
  · intro sqrt
    exact queryKDTree_congr sqrt gzip (hloadAgain.trans hloadSaved.symm)
  · intro original horiginal hwrite
    obtain ⟨modelFile', hwrite', hload'⟩ := horiginal.load_write gzip
    obtain rfl : modelFile = modelFile' := Except.ok.inj (hwrite.symm.trans hwrite')
    obtain rfl : kdTree = original.printed := Except.ok.inj (hload.symm.trans hload')
    have hsame := original.printed_printed
    refine ⟨hsame, ?_⟩
    intro sqrt
    rw [hsame] at hloadSaved
    exact queryKDTree_congr sqrt gzip (hloadSaved.trans hload.symm)

/-- A record of a type that the program does not write, with an id that is not its
position. -/
def foreignFile : Text := "id:no:5;no;type:no:7;no;sampleId:no:3;no;bGh88wY3vm2sebBYc".toList

/-- The node of that record. -/
def foreignNode : Node ℚ := .leaf 5 3

/-- Its one record is loaded into slot 0, with the id of that slot. -/
theorem load_foreignFile : load .stored foreignFile = .ok (KDTree.ofRecords [foreignNode]) := by
  have hnodes : (decompressAndLoadStringVector .stored foreignFile).bind
      (List.mapM (Node.fromString (K := ℚ))) = .ok [foreignNode] := by decide +kernel
  obtain ⟨records, hrecords, hnodes⟩ := Fallible.bind_eq_ok_iff.mp hnodes
  simp only [load, hrecords, bind, Except.bind, convertStringVectorToKDTree_eq, hnodes]
  rfl

/-- That file is not one of the program, but it can be loaded and saved. -/
theorem write_load_foreignFile : ∃ saved savedAgain,
    write .stored (KDTree.ofRecords [foreignNode]) = .ok saved ∧
    load .stored saved = .ok (KDTree.ofRecords [foreignNode]).printed ∧
    write .stored (KDTree.ofRecords [foreignNode]).printed = .ok savedAgain ∧
    load .stored savedAgain = .ok (KDTree.ofRecords [foreignNode]).printed := by
  have hcoefficients : ∀ id node, (KDTree.ofRecords [foreignNode]).getNode id = some node →
      node.HasCoefficients := by
    intro id node hnode
    rw [KDTree.getNode_ofRecords] at hnode
    obtain ⟨node', hmem, rfl⟩ := Option.map_eq_some_iff.mp hnode
    obtain rfl := List.mem_singleton.mp (List.mem_of_getElem? hmem)
    intro split hsplit
    cases hsplit
  obtain ⟨saved, savedAgain, h₁, h₂, h₃, h₄, -, -⟩ :=
    write_load .stored load_foreignFile hcoefficients
  exact ⟨saved, savedAgain, h₁, h₂, h₃, h₄⟩

end Kdtree
