import Deltacat.Compute.CompactorV2.UniformDeltas

/-!
# The changes of a bucket

Uniform deltas are read into one file each, and the files are cut at the buckets. What a
bucket gets of them replays as the bucket's part of all entries (`replayInOrder_filesIn`).
-/

namespace Deltacat.Compute.CompactorV2

open Deltacat.Library Deltacat.Storage Deltacat.Utils

section Files

variable {Value : Type} {all : Table String Value} {bucket : Row String Value → ℕ}
  (merging : Merging bucket)

/-- What a file that is no delete puts, at its position. -/
def fileAt (file : DeltaFileEnvelope Value) : ℕ × Change (Row String Value) :=
  (file.streamPosition, .put file.table.rows)

/-- A file with the entries of an annotated delta. -/
structure FileOf (read : FileReader Value) (all : Table String Value) (merging : Merging bucket)
    (annotated : Compactor.DeltaAnnotated) (file : DeltaFileEnvelope Value) : Prop where
  isRead : readDeltaFileEnvelopes read annotated = .ok (some [file])
  fileIndex : file.fileIndex = 0
  notDelete : file.deltaType ≠ .delete
  part : PartOf all file.table
  refines : Refines merging (fileAt file) (entryChanges read annotated)

/-- Files of one delta are read as one. -/
theorem exists_fileOf {read : FileReader Value} {annotated : Compactor.DeltaAnnotated}
    (sameTypes : SameTypesIn read.SameTypes all) (annotates : Annotates read all annotated) :
    ∃ file, FileOf read all merging annotated file := by
  rcases annotates.ofDelta with ⟨streamPosition, deltaType, notDelete, ofLabel⟩
  have aligned := annotated.aligned
  have someTable : annotated.entries.map read.table ≠ [] := by simpa using annotates.nonempty
  have parts : ∀ table ∈ annotated.entries.map read.table, PartOf all table := by
    intro table tableMem
    rcases List.mem_map.mp tableMem with ⟨entry, entryMem, rfl⟩
    exact annotates.parts entry entryMem
  rcases concatTables_parts read.concat sameTypes someTable parts with
    ⟨table, isTable, part, areRows⟩
  rw [List.flatMap_map] at areRows
  refine ⟨⟨streamPosition, 0, deltaType, table⟩, ?_, rfl, notDelete, part, ?_⟩
  · unfold readDeltaFileEnvelopes
    cases areLabels : annotated.annotations with
    | nil =>
        rw [areLabels] at aligned
        exact absurd (List.eq_nil_of_length_eq_zero aligned.symm) annotates.nonempty
    | cons first rest =>
        rw [areLabels] at ofLabel aligned
        have isFirst := ofLabel first List.mem_cons_self
        simp only [List.length_map, aligned, ne_eq, not_true_eq_false, if_false, isFirst.1,
          isFirst.2, if_neg (not_not.mpr ofLabel), isTable, deltaFileEnvelopeOf]
        rfl
  · have arePuts : entryChanges read annotated =
        (annotated.entries.map fun entry => (read.table entry).rows).map fun batch =>
          (streamPosition, .put batch) := by
      have ofEntries : annotated.entries =
          (annotated.entries.zip annotated.annotations).map Prod.fst :=
        (List.map_fst_zip annotated.aligned.ge).symm
      rw [ofEntries, entryChanges, Compactor.DeltaAnnotated.tagged, List.map_map, List.map_map,
        List.map_map]
      apply List.map_congr_left
      intro pair pairMem
      have isPosition := (ofLabel pair.2 (List.of_mem_zip pairMem).2).1
      simp [entryPut, isPosition]
    rw [arePuts, fileAt, areRows]
    exact Refines.puts List.flatMap_def.symm

theorem exists_filesOf {read : FileReader Value} {uniformDeltas : List Compactor.DeltaAnnotated}
    (sameTypes : SameTypesIn read.SameTypes all)
    (annotates : ∀ annotated ∈ uniformDeltas, Annotates read all annotated) :
    ∃ files, List.Forall₂ (FileOf read all merging) uniformDeltas files := by
  induction uniformDeltas with
  | nil => exact ⟨[], List.Forall₂.nil⟩
  | cons annotated uniformDeltas ih =>
      rcases exists_fileOf merging sameTypes (annotates annotated List.mem_cons_self) with
        ⟨file, isFile⟩
      rcases ih fun other otherMem => annotates other (List.mem_cons_of_mem _ otherMem) with
        ⟨files, areFiles⟩
      exact ⟨file :: files, List.Forall₂.cons isFile areFiles⟩

end Files

section Buckets

variable {Value : Type} {params : BucketingParams Value} {numBuckets : ℕ} [NeZero numBuckets]
  {all : Table String Value} {file : DeltaFileEnvelope Value}

/-- The part of a file in a bucket has the rows of the bucket. -/
theorem fileIn_eq (hasKeys : params.primaryKeys ≠ []) (hbIdx : Fin numBuckets) (hbTaskIndex : ℕ) :
    let rows := file.table.rows.filter fun row =>
      hashBucketOf params.hashing params.primaryKeys numBuckets row = hbIdx
    (rows = [] ∧ fileIn params hbIdx hbTaskIndex file = none) ∨
      (rows ≠ [] ∧ ∃ table, table.columnNames = file.table.columnNames ∧ table.rows = rows ∧
        fileIn params hbIdx hbTaskIndex file =
          some ⟨file.streamPosition, file.fileIndex, file.deltaType, table⟩) := by
  intro rows
  let items := itemsIn (file.table.rows.attach.zip
    (bucketsOf params numBuckets hbTaskIndex file.table)) hbIdx
  have areRows : items.map Subtype.val = rows := by
    simp only [items]
    rw [map_val_itemsIn, bucketsOf, if_neg hasKeys, rowsIn_map]
  by_cases isEmpty : items = []
  · left
    refine ⟨by rw [← areRows, isEmpty]; rfl, ?_⟩
    rw [fileIn, partIn, if_pos isEmpty]
    rfl
  · right
    refine ⟨by rwa [← areRows, ne_eq, List.map_eq_nil_iff], tableOf file.table items, rfl,
      areRows, ?_⟩
    rw [fileIn, partIn, if_neg isEmpty]
    rfl

/-- A file in a bucket is part of one of the files. -/
theorem mem_filesIn (hasKeys : params.primaryKeys ≠ []) {hbIdx : Fin numBuckets}
    {files : List (DeltaFileEnvelope Value)} {part : DeltaFileEnvelope Value}
    (partMem : part ∈ filesIn params hbIdx (files.map fun file => [file])) :
    ∃ file ∈ files, part.fileIndex = file.fileIndex ∧ part.deltaType = file.deltaType ∧
      part.table.columnNames = file.table.columnNames ∧ part.table.rows ⊆ file.table.rows := by
  rw [filesIn, List.zipIdx_map, List.flatMap_map] at partMem
  rcases List.mem_flatMap.mp partMem with ⟨task, taskMem, partMem⟩
  rcases task with ⟨file, hbTaskIndex⟩
  have fileMem : file ∈ files := List.fst_mem_of_mem_zipIdx taskMem
  have isPart : fileIn params hbIdx hbTaskIndex file = some part := by simpa using partMem
  rcases fileIn_eq hasKeys hbIdx hbTaskIndex with ⟨_, noFile⟩ | ⟨_, table, columns, rows, isFile⟩
  · rw [noFile] at isPart
    cases isPart
  · rw [isFile] at isPart
    cases isPart
    exact ⟨file, fileMem, rfl, rfl, columns, rows ▸ List.filter_subset_self _⟩

variable {merging : Merging (bucketIndex params.hashing params.primaryKeys numBuckets :
  Row String Value → ℕ)}

theorem fileIn_refines (hasKeys : params.primaryKeys ≠ []) (hbIdx : Fin numBuckets)
    (hbTaskIndex : ℕ) :
    Refines merging ((fileAt file).1, (fileAt file).2.within
        (bucketIndex params.hashing params.primaryKeys numBuckets) hbIdx)
      ((fileIn params hbIdx hbTaskIndex file).toList.map fileAt) := by
  have sameRows : (file.table.rows.filter fun row =>
      bucketIndex params.hashing params.primaryKeys numBuckets row = hbIdx.val) =
      file.table.rows.filter fun row =>
        hashBucketOf params.hashing params.primaryKeys numBuckets row = hbIdx := by
    apply List.filter_congr
    intro row _
    rw [Bool.eq_iff_iff, decide_eq_true_iff, decide_eq_true_iff]
    exact Fin.ext_iff.symm
  have isPut : (fileAt file).2.within
      (bucketIndex params.hashing params.primaryKeys numBuckets) hbIdx =
      .put (file.table.rows.filter fun row =>
        hashBucketOf params.hashing params.primaryKeys numBuckets row = hbIdx) := by
    rw [← sameRows]
    rfl
  rw [isPut]
  rcases fileIn_eq hasKeys hbIdx hbTaskIndex with ⟨noRows, noFile⟩ | ⟨_, table, _, areRows, isFile⟩
  · rw [noRows, noFile]
    exact @Refines.puts _ _ _ merging _ [] [] rfl
  · rw [← areRows, isFile]
    exact Refines.refl _

/-- Cutting files at the buckets is cutting their changes. -/
theorem replayInOrder_filesIn (hasKeys : params.primaryKeys ≠ []) (hbIdx : Fin numBuckets)
    (bag : List (Row String Value)) (before : List (ℕ × Change (Row String Value)))
    (files : List (DeltaFileEnvelope Value)) :
    replayInOrder merging bag
        (before ++ (filesIn params hbIdx (files.map fun file => [file])).map fileAt) =
      replayInOrder merging bag (before ++ (files.map fileAt).map fun change =>
        (change.1, change.2.within (bucketIndex params.hashing params.primaryKeys numBuckets)
          hbIdx)) := by
  have areParts : (filesIn params hbIdx (files.map fun file => [file])).map fileAt =
      (files.zipIdx.map fun task =>
        (fileIn params hbIdx task.2 task.1).toList.map fileAt).flatten := by
    rw [filesIn, List.zipIdx_map, List.flatMap_map, List.map_flatMap, ← List.flatMap_def]
    congr 1
  have areFiles : files.map fileAt = files.zipIdx.map fun task => fileAt task.1 := by
    have forget := List.zipIdx_map_fst 0 files
    nth_rewrite 1 [← forget]
    rw [List.map_map]
    rfl
  rw [areParts, areFiles, List.map_map]
  apply replayInOrder_append
  rw [List.forall₂_map_left_iff, List.forall₂_map_right_iff, List.forall₂_same]
  exact fun task _ => fileIn_refines hasKeys hbIdx task.2

end Buckets

section Changes

variable {Value : Type}

/-- Files without indices are sorted by their positions. -/
theorem sortDfEnvelopes_eq {files : List (DeltaFileEnvelope Value)}
    (noIndices : ∀ file ∈ files, file.fileIndex = 0) :
    sortDfEnvelopes files =
      files.insertionSort fun left right => left.streamPosition ≤ right.streamPosition := by
  let key := fun file : DeltaFileEnvelope Value => toLex (file.streamPosition, file.fileIndex)
  have isSorted : (sortDfEnvelopes files).Pairwise fun left right => key left ≤ key right :=
    pairwise_insertionSort_key key files
  have filtered : ∀ bound, (sortDfEnvelopes files).filter (·.streamPosition = bound) =
      files.filter (·.streamPosition = bound) := by
    intro bound
    have sameFilter : ∀ others : List (DeltaFileEnvelope Value), others ⊆ files →
        others.filter (·.streamPosition = bound) = others.filter (key · = toLex (bound, 0)) := by
      intro others isSubset
      apply List.filter_congr
      intro file fileMem
      simp [key, noIndices file (isSubset fileMem)]
    have isSubset : sortDfEnvelopes files ⊆ files := (List.perm_insertionSort _ files).subset
    rw [sameFilter _ isSubset, sameFilter files (List.Subset.refl _)]
    exact @filter_insertionSort _ _ _ key (toLex (bound, 0)) files
  refine @eq_of_filter_eq _ _ _ DeltaFileEnvelope.streamPosition _ _ ?_
    (pairwise_insertionSort_key _ files) ?_
  · refine isSorted.imp ?_
    intro left right isLess
    rcases Prod.Lex.toLex_le_toLex.mp isLess with isBefore | isTied
    · exact isBefore.le
    · exact isTied.1.le
  · intro bound
    rw [filtered]
    exact (@filter_insertionSort _ _ _ DeltaFileEnvelope.streamPosition bound files).symm

/-- A delete file is found by its position. -/
theorem deleteFilesOf_toDeltaFile {envelopes : List (DeleteFileEnvelope Value)}
    (distinct : (envelopes.map DeleteFileEnvelope.streamPosition).Nodup)
    {envelope : DeleteFileEnvelope Value} (envelopeMem : envelope ∈ envelopes) :
    deleteFilesOf envelopes [envelope.toDeltaFile] = [envelope] := by
  have isFound : envelopes.find? (·.streamPosition = envelope.streamPosition) = some envelope := by
    induction envelopes with
    | nil => cases envelopeMem
    | cons first envelopes ih =>
        rw [List.map_cons, List.nodup_cons] at distinct
        rcases List.mem_cons.mp envelopeMem with rfl | inRest
        · simp
        · have isOther : first.streamPosition ≠ envelope.streamPosition := by
            intro same
            exact distinct.1 (same ▸ List.mem_map_of_mem inRest)
          rw [List.find?_cons_of_neg (by simpa using isOther)]
          exact ih distinct.2 inRest
  simp [deleteFilesOf, DeleteFileEnvelope.toDeltaFile, isFound]

variable [LinearOrder Value] {input : MergeTaskInput Value} {columnNames : List String}
  {group : MergeFileGroup Value} {bucket : Row String Value → ℕ}

/-- The changes of a bucket are those of its files and of the deletes, in order. -/
theorem replay_changes (merging : Merging bucket) (bag : List (Row String Value))
    (distinct : ((input.deleteFileEnvelopes.getD []).map
      DeleteFileEnvelope.streamPosition).Nodup)
    (noIndices : ∀ file ∈ group.files, file.fileIndex = 0)
    (noDeletes : ∀ file ∈ group.files, file.deltaType ≠ .delete) :
    replay merging bag (input.changes columnNames group) =
      replayInOrder merging bag ((input.deleteFileEnvelopes.getD []).map (removeAt columnNames) ++
        group.files.map fileAt) := by
  let envelopes := input.deleteFileEnvelopes.getD []
  have allIndices : ∀ file ∈ envelopes.map DeleteFileEnvelope.toDeltaFile ++ group.files,
      file.fileIndex = 0 := by
    intro file fileMem
    rcases List.mem_append.mp fileMem with isDelete | isFile
    · rcases List.mem_map.mp isDelete with ⟨envelope, _, rfl⟩
      rfl
    · exact noIndices file isFile
  have areChanges : envelopes.map (removeAt columnNames) ++ group.files.map fileAt =
      (envelopes.map DeleteFileEnvelope.toDeltaFile ++ group.files).map fun file =>
        (file.streamPosition, fileChange envelopes columnNames file) := by
    rw [List.map_append, List.map_map]
    congr 1
    · apply List.map_congr_left
      intro envelope envelopeMem
      have isFile : deleteFilesOf envelopes [envelope.toDeltaFile] = [envelope] :=
        deleteFilesOf_toDeltaFile distinct envelopeMem
      have isDelete : envelope.toDeltaFile.deltaType = .delete := rfl
      rw [Function.comp_apply, fileChange, if_pos isDelete, isFile]
      simp [removeAt, DeleteFileEnvelope.toDeltaFile]
    · apply List.map_congr_left
      intro file fileMem
      rw [fileChange, if_neg (noDeletes file fileMem)]
      rfl
  rw [replayInOrder, areChanges, inOrder_map, ← sortDfEnvelopes_eq allIndices]
  rfl

end Changes

end Deltacat.Compute.CompactorV2
