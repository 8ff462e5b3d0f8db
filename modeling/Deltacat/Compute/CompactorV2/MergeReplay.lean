import Deltacat.Compute.CompactorV2.HashBucket

/-!
# Merging files is replaying changes

A merge task puts the rows of upserts into the table of its bucket and removes what the
deletes among them match, in the order of the positions. If all tables have the columns
that the user provides and there are no sort keys, this is a replay of the changes of
the files (`compactTables_replays`).
-/

namespace Deltacat.Compute.CompactorV2

open Deltacat.Library Deltacat.Storage Deltacat.Utils

section Keys

variable {Value : Type} (hashing : KeyHashing Value) (primaryKeys : List String)

/-- The text by which rows are told apart. -/
def joinedKey (row : Row String Value) : String := pkHash hashing (keyOf primaryKeys row)

def bucketIndex (numBuckets : ℕ) [NeZero numBuckets] (row : Row String Value) : ℕ :=
  hashBucketOf hashing primaryKeys numBuckets row

theorem bucketIndex_of_joinedKey (numBuckets : ℕ) [NeZero numBuckets]
    (left right : Row String Value)
    (sameKey : joinedKey hashing primaryKeys left = joinedKey hashing primaryKeys right) :
    bucketIndex hashing primaryKeys numBuckets left =
      bucketIndex hashing primaryKeys numBuckets right := by
  unfold joinedKey at sameKey
  simp only [bucketIndex, hashBucketOf, sameKey]

/-- How rows are put into a table: over those of their keys, or beside them. -/
def rowMerging (numBuckets : ℕ) [NeZero numBuckets] (dropDuplicates : Bool) :
    Merging (bucketIndex hashing primaryKeys numBuckets : Row String Value → ℕ) :=
  if dropDuplicates then
    Merging.upserting (joinedKey hashing primaryKeys) _
      (bucketIndex_of_joinedKey hashing primaryKeys numBuckets)
  else Merging.appending _

/-- No two keys of the rows have the same digest. -/
def DigestsApart (rows : List (Row String Value)) : Prop :=
  ∀ left ∈ rows, ∀ right ∈ rows,
    hashing.sha1 (joinedKey hashing primaryKeys left) =
      hashing.sha1 (joinedKey hashing primaryKeys right) →
    joinedKey hashing primaryKeys left = joinedKey hashing primaryKeys right

variable {hashing primaryKeys}

theorem DigestsApart.subset {rows others : List (Row String Value)}
    (apart : DigestsApart hashing primaryKeys rows) (isSubset : others ⊆ rows) :
    DigestsApart hashing primaryKeys others :=
  fun left leftMem right rightMem => apart left (isSubset leftMem) right (isSubset rightMem)

/-- The strings of a merge tell rows apart as their keys do, whether they are digests or not. -/
theorem hashString_eq_iff_joinedKey {rows : List (Row String Value)}
    (apart : DigestsApart hashing primaryKeys rows) (tables : List (Table String Value))
    {left right : Row String Value} (leftMem : left ∈ rows) (rightMem : right ∈ rows) :
    hashString hashing tables primaryKeys false (keyOf primaryKeys left) =
        hashString hashing tables primaryKeys false (keyOf primaryKeys right) ↔
      joinedKey hashing primaryKeys left = joinedKey hashing primaryKeys right := by
  unfold hashString
  simp only
  split_ifs
  · exact ⟨apart left leftMem right rightMem, congrArg hashing.sha1⟩
  · exact Iff.rfl

end Keys

section MergeTables

variable {Value : Type} {hashing : KeyHashing Value} {primaryKeys columnNames originalFields :
  List String} {table : Table String Value} {compactedTable : Option (Table String Value)}

/-- The rows of a table that there may not be. -/
def rowsOf (table : Option (Table String Value)) : List (Row String Value) :=
  (table.map Table.rows).getD []

/-- A table with the given columns, in this order. -/
def HasColumns (columnNames : List String) (table : Table String Value) : Prop :=
  table.columnNames = columnNames

theorem dedup_flatMap_const {Item : Type} {tables : List Item} (nonempty : tables ≠ [])
    {columns : Item → List String} (distinct : columnNames.Nodup)
    (same : ∀ table ∈ tables, columns table = columnNames) :
    (tables.flatMap columns).dedup = columnNames := by
  induction tables with
  | nil => exact absurd rfl nonempty
  | cons table tables ih =>
      rw [List.flatMap_cons, same table List.mem_cons_self]
      cases tables with
      | nil => simpa using distinct.dedup
      | cons other others =>
          have isRest := ih (List.cons_ne_nil _ _)
            fun table tableMem => same table (List.mem_cons_of_mem _ tableMem)
          have allLater : columnNames ⊆ (other :: others).flatMap columns := by
            intro column columnMem
            rwa [← isRest, List.mem_dedup] at columnMem
          rw [List.Subset.dedup_append_right allLater, isRest]

theorem concatOrCoerceTables_hasColumns {tables : List (Table String Value)}
    (nonempty : tables ≠ []) (distinct : columnNames.Nodup)
    (same : ∀ table ∈ tables, HasColumns columnNames table) :
    HasColumns columnNames (Table.concatOrCoerceTables tables) :=
  dedup_flatMap_const nonempty distinct same

/-- Nothing is filled if the new rows have all columns. -/
theorem fieldsToFill_eq_nil {oldRecords newRecords : Table String Value}
    (oldColumns : HasColumns columnNames oldRecords)
    (newColumns : HasColumns columnNames newRecords)
    (provided : columnNames ⊆ originalFields) :
    fieldsToFill oldRecords newRecords originalFields = [] := by
  apply List.eq_nil_iff_forall_not_mem.mpr
  intro field fieldMem
  rcases mem_fieldsToFill.mp fieldMem with ⟨inOld, isMissing⟩
  rw [oldColumns] at inOld
  rw [newColumns] at isMissing
  rcases isMissing with notNew | notProvided
  · exact notNew inOld
  · exact notProvided (provided inOld)

theorem mergeRecordsPartially_of_complete {oldRecords newRecords : Table String Value}
    {hash : Row String Value → String} (oldColumns : HasColumns columnNames oldRecords)
    (newColumns : HasColumns columnNames newRecords) (provided : columnNames ⊆ originalFields) :
    ∃ merged, mergeRecordsPartially oldRecords newRecords originalFields hash = .ok merged ∧
      HasColumns columnNames merged ∧ merged.rows = newRecords.rows := by
  have nothing := fieldsToFill_eq_nil oldColumns newColumns provided
  rcases mergeRecordsPartially_of_nil nothing with ⟨merged, isMerged, areColumns, isRows⟩
  exact ⟨merged, isMerged, areColumns.trans newColumns, isRows⟩

theorem HasColumns.filter (hasColumns : HasColumns columnNames table)
    (mask : Row String Value → Bool) : HasColumns columnNames (table.filter mask) :=
  hasColumns

theorem rows_filter_recordsToUpdate (hash : Row String Value → String)
    (table compacted : Table String Value) :
    (compacted.filter fun row =>
        !recordsToUpdate hash (Compute.CompactorV2.dropDuplicates hash table) row).rows =
      compacted.rows.filter fun row => hash row ∉ table.rows.map hash := by
  apply List.filter_congr
  intro row _
  rw [Bool.eq_iff_iff]
  simp only [recordsToUpdate, Compute.CompactorV2.dropDuplicates, mem_map_keepLast,
    Bool.not_eq_true', decide_eq_false_iff_not, decide_eq_true_iff]

/-- Merging a table with all columns puts its rows into the compacted table. -/
theorem mergeTables_puts (numBuckets : ℕ) [NeZero numBuckets] (dropDuplicates : Bool)
    (hasKeys : primaryKeys ≠ []) (distinct : columnNames.Nodup)
    (areColumns : primaryKeys ⊆ columnNames) (provided : columnNames ⊆ originalFields)
    (tableColumns : HasColumns columnNames table)
    (compactedColumns : ∀ compacted ∈ compactedTable, HasColumns columnNames compacted)
    (apart : DigestsApart hashing primaryKeys (rowsOf compactedTable ++ table.rows)) :
    ∃ merged, mergeTables hashing table primaryKeys dropDuplicates originalFields compactedTable =
        .ok merged ∧ HasColumns columnNames merged ∧
      merged.rows = (rowMerging hashing primaryKeys numBuckets dropDuplicates).put
        (rowsOf compactedTable) table.rows := by
  have hasColumn : columnNames ≠ [] := fun isEmpty =>
    hasKeys (List.subset_nil.mp (isEmpty ▸ areColumns))
  -- A compacted table without rows is left out, which makes no difference to the rows.
  have filtered : rowsOf (compactedTable.filter fun compacted => !compacted.rows.isEmpty) =
      rowsOf compactedTable := by
    cases compactedTable with
    | none => rfl
    | some compacted =>
        rw [Option.filter_some]
        split_ifs with isNonempty
        · rfl
        · have isEmpty : compacted.rows = [] := by simpa using isNonempty
          exact isEmpty.symm
  have filteredColumns : ∀ compacted ∈
      compactedTable.filter (fun compacted => !compacted.rows.isEmpty),
      HasColumns columnNames compacted :=
    fun compacted compactedMem =>
      compactedColumns compacted (Option.filter_eq_some_iff.mp compactedMem).1
  unfold mergeTables
  rw [← filtered] at apart ⊢
  generalize compactedTable.filter (fun compacted => !compacted.rows.isEmpty) = previous
    at apart filteredColumns ⊢
  cases dropDuplicates with
  | false =>
      refine ⟨_, if_pos (by simp), ?_, ?_⟩
      · apply concatOrCoerceTables_hasColumns (by simp) distinct
        intro other otherMem
        rcases List.mem_append.mp otherMem with isPrevious | isTable
        · exact filteredColumns other (Option.mem_toList.mp isPrevious)
        · rwa [List.mem_singleton.mp isTable]
      · cases previous <;> simp [Table.concatOrCoerceTables, rowMerging, Merging.appending, rowsOf]
  | true =>
      let hash := fun row => hashString hashing (previous.toList ++ [table]) primaryKeys false
        (keyOf primaryKeys row)
      have hashed : generatePkHashColumn hashing (previous.toList ++ [table]) primaryKeys false =
          .ok (hashString hashing (previous.toList ++ [table]) primaryKeys false) := by
        apply if_pos
        intro other otherMem pkName pkNameMem
        rcases List.mem_append.mp otherMem with isPrevious | isTable
        · rw [filteredColumns other (Option.mem_toList.mp isPrevious)]
          exact areColumns pkNameMem
        · rw [List.mem_singleton.mp isTable, tableColumns]
          exact areColumns pkNameMem
      have isPut : (rowMerging hashing primaryKeys numBuckets true).put (rowsOf previous)
          table.rows = upsert hash (rowsOf previous) table.rows := by
        apply upsert_congr
        intro left leftMem right rightMem
        exact (hashString_eq_iff_joinedKey apart _ leftMem (List.mem_append_right _ rightMem)).symm
      let incremental := Compute.CompactorV2.dropDuplicates hash table
      have ofPair : ∀ kept incrementalData : Table String Value, HasColumns columnNames kept →
          HasColumns columnNames incrementalData →
          HasColumns columnNames (Table.concatOrCoerceTables [kept, incrementalData]) ∧
            (Table.concatOrCoerceTables [kept, incrementalData]).rows =
              kept.rows ++ incrementalData.rows := by
        intro kept incrementalData keptColumns incrementalColumns
        refine ⟨concatOrCoerceTables_hasColumns (by simp) distinct ?_,
          by simp [Table.concatOrCoerceTables]⟩
        intro other otherMem
        simp only [List.mem_cons, List.not_mem_nil, or_false] at otherMem
        rcases otherMem with rfl | rfl
        · exact keptColumns
        · exact incrementalColumns
      rw [isPut, if_neg (by simp [hasKeys]), hashed]
      simp only [bind, Except.bind]
      cases previous with
      | none =>
          refine ⟨_, rfl, concatOrCoerceTables_hasColumns (by simp) distinct ?_, ?_⟩
          · intro other otherMem
            rw [List.mem_singleton.mp otherMem]
            exact tableColumns
          · simp [Table.concatOrCoerceTables, rowsOf, upsert, Compute.CompactorV2.dropDuplicates,
              hash]
      | some compacted =>
          have compactedHas := filteredColumns compacted rfl
          let oldRecordsToUpdate := compacted.filter (recordsToUpdate hash incremental)
          let kept := compacted.filter fun row => !recordsToUpdate hash incremental row
          have isUpsert : upsert hash (rowsOf (some compacted)) table.rows =
              kept.rows ++ incremental.rows := by
            rw [rows_filter_recordsToUpdate hash table compacted]
            rfl
          rw [isUpsert]
          by_cases noneToUpdate : oldRecordsToUpdate.rows.isEmpty
          · exact ⟨_, if_pos noneToUpdate, ofPair kept incremental compactedHas tableColumns⟩
          · have isComplete : ∃ merged, mergeRecordsPartially oldRecordsToUpdate incremental
                originalFields hash = .ok merged ∧ HasColumns columnNames merged ∧
                merged.rows = incremental.rows :=
              mergeRecordsPartially_of_complete compactedHas tableColumns provided
            rcases isComplete with ⟨merged, isMerged, mergedColumns, isRows⟩
            have pair := ofPair kept merged compactedHas mergedColumns
            rw [isRows] at pair
            refine ⟨_, (if_neg noneToUpdate).trans ?_, pair⟩
            simp only [oldRecordsToUpdate, incremental, hash] at isMerged
            rw [isMerged]
            rfl

theorem put_subset (numBuckets : ℕ) [NeZero numBuckets] (dropDuplicates : Bool)
    (old new : List (Row String Value)) :
    (rowMerging hashing primaryKeys numBuckets dropDuplicates).put old new ⊆ old ++ new := by
  cases dropDuplicates with
  | false => exact List.Subset.refl _
  | true =>
      apply List.append_subset.mpr
      constructor
      · exact List.subset_append_of_subset_left _ (List.filter_subset_self _)
      · exact List.subset_append_of_subset_right _ (keepLast_sublist _ _).subset

end MergeTables

section CompactTables

variable {Value : Type} [LinearOrder Value]

/-- A delete file among the other files. -/
def DeleteFileEnvelope.toDeltaFile (envelope : DeleteFileEnvelope Value) :
    DeltaFileEnvelope Value :=
  ⟨envelope.streamPosition, 0, .delete, envelope.table⟩

/-- The delete files that some files are. -/
def deleteFilesOf (envelopes : List (DeleteFileEnvelope Value))
    (files : List (DeltaFileEnvelope Value)) : List (DeleteFileEnvelope Value) :=
  files.filterMap fun file => envelopes.find? (·.streamPosition = file.streamPosition)

/-- What all merge tasks of a round are given. -/
structure MergeParams (Value : Type) where
  hashing : KeyHashing Value
  arrow : ArrowJoins Value
  sortBy : Table String Value → List (String × SortOrder) → Except Error (Table String Value)
  primaryKeys : List String
  sortKeys : Option (List (SortKey String))
  dropDuplicates : Bool
  originalFields : List String
  deleteFileEnvelopes : List (DeleteFileEnvelope Value)

/-- The merge input with the equality delete strategy. -/
def MergeParams.input (params : MergeParams Value) : MergeInput Value where
  hashing := params.hashing
  sortBy := params.sortBy
  primaryKeys := params.primaryKeys
  sortKeys := params.sortKeys
  dropDuplicates := params.dropDuplicates
  originalFields := params.originalFields
  deleteFileEnvelopes := params.deleteFileEnvelopes.map DeleteFileEnvelope.toDeltaFile
  applyManyDeletes := fun table files =>
    Prod.fst <$> applyManyDeletes params.arrow table
      (deleteFilesOf params.deleteFileEnvelopes files)

/-- What a file does to a table with the columns. -/
def fileChange (envelopes : List (DeleteFileEnvelope Value)) (columnNames : List String)
    (file : DeltaFileEnvelope Value) : Change (Row String Value) :=
  if file.deltaType = .delete then
    .remove fun row => ∃ envelope ∈ deleteFilesOf envelopes [file], envelope.Deletes columnNames row
  else .put file.table.rows

/--
The rows of a table, and of all files and tables of a round, have the same columns, which
the user provides, and are merged in the order of the files. Neither digests nor the texts of
delete columns confuse them.
-/
structure Uniform (params : MergeParams Value) (columnNames : List String)
    (all : Table String Value) : Prop where
  distinct : columnNames.Nodup
  hasKeys : params.primaryKeys ≠ []
  areColumns : params.primaryKeys ⊆ columnNames
  unsorted : params.sortKeys.getD [] = []
  provided : columnNames ⊆ params.originalFields
  hasColumns : HasColumns columnNames all
  apart : DigestsApart params.hashing params.primaryKeys all.rows
  comparable : ∀ envelope ∈ params.deleteFileEnvelopes, Comparable params.arrow all envelope
  canDrop : ∀ envelope ∈ params.deleteFileEnvelopes, envelope.isReference →
    CanDrop params.arrow all envelope

/-- A table with rows of those of the round. -/
structure PartOf (all table : Table String Value) : Prop where
  columns : table.columnNames = all.columnNames
  rows : table.rows ⊆ all.rows

/-- Tables with rows of those of the round have the same types. -/
def SameTypesIn (SameTypes : Table String Value → Table String Value → Prop)
    (all : Table String Value) : Prop :=
  ∀ left right, PartOf all left → PartOf all right → SameTypes left right

omit [LinearOrder Value] in
/-- Tables of a round can be put together. -/
theorem concatTables_parts {SameTypes : Table String Value → Table String Value → Prop}
    (concat : ConcatTables (Table String Value) Table.rows (Table.SameSchema SameTypes))
    {all : Table String Value} (sameTypes : SameTypesIn SameTypes all)
    {tables : List (Table String Value)} (nonempty : tables ≠ [])
    (parts : ∀ table ∈ tables, PartOf all table) :
    ∃ table, concat.concatTables tables = .ok table ∧ PartOf all table ∧
      table.rows = tables.flatMap Table.rows := by
  have same : ∀ left ∈ tables, ∀ right ∈ tables, Table.SameSchema SameTypes left right := by
    intro left leftMem right rightMem
    have leftPart := parts left leftMem
    have rightPart := parts right rightMem
    exact ⟨leftPart.columns.trans rightPart.columns.symm,
      sameTypes left right leftPart rightPart⟩
  rcases concat.succeeds nonempty same with ⟨table, isTable⟩
  have areRows := concat.rows isTable
  refine ⟨table, isTable, ⟨?_, ?_⟩, areRows⟩
  · rcases List.exists_mem_of_ne_nil _ nonempty with ⟨first, firstMem⟩
    rw [← (concat.sameSchema isTable first firstMem).1, (parts first firstMem).columns]
  · intro row rowMem
    rw [areRows] at rowMem
    rcases List.mem_flatMap.mp rowMem with ⟨part, partMem, rowMem⟩
    exact (parts part partMem).rows rowMem

variable {params : MergeParams Value} {columnNames : List String} {all : Table String Value}
  {table : Option (Table String Value)} {group : List (DeltaFileEnvelope Value)}

/-- Files that are no deletes are put into the table. -/
theorem applyUpserts_replays (numBuckets : ℕ) [NeZero numBuckets]
    (uniform : Uniform params columnNames all) (tablePart : ∀ current ∈ table, PartOf all current)
    (nonempty : group ≠ []) (groupPart : ∀ file ∈ group, PartOf all file.table)
    (noDeletes : ∀ file ∈ group, file.deltaType ≠ .delete) :
    ∃ merged, applyUpserts params.input group table = .ok merged ∧ PartOf all merged ∧
      merged.rows = replay
        (rowMerging params.hashing params.primaryKeys numBuckets params.dropDuplicates)
        (rowsOf table) (group.map (fileChange params.deleteFileEnvelopes columnNames)) := by
  have areColumns : ∀ other : Table String Value, PartOf all other → HasColumns columnNames other :=
    fun other part => part.columns.trans uniform.hasColumns
  have isIncremental : HasColumns columnNames (buildIncrementalTable group) := by
    apply concatOrCoerceTables_hasColumns (by simpa using nonempty) uniform.distinct
    intro other otherMem
    rcases List.mem_map.mp otherMem with ⟨file, fileMem, rfl⟩
    exact areColumns _ (groupPart file fileMem)
  have isRows : (buildIncrementalTable group).rows = group.flatMap fun file => file.table.rows := by
    simp [buildIncrementalTable, Table.concatOrCoerceTables, List.flatMap_map]
  have tableRows : rowsOf table ⊆ all.rows := by
    cases table with
    | none => exact List.nil_subset _
    | some current => exact (tablePart current rfl).rows
  have newRows : (buildIncrementalTable group).rows ⊆ all.rows := by
    intro row rowMem
    rw [isRows] at rowMem
    rcases List.mem_flatMap.mp rowMem with ⟨file, fileMem, rowMem⟩
    exact (groupPart file fileMem).rows rowMem
  rcases mergeTables_puts numBuckets params.dropDuplicates uniform.hasKeys uniform.distinct
    uniform.areColumns uniform.provided isIncremental
    (fun current currentMem => areColumns current (tablePart current currentMem))
    (uniform.apart.subset (List.append_subset.mpr ⟨tableRows, newRows⟩)) with
    ⟨merged, isMerged, mergedColumns, mergedRows⟩
  have isUpsert : applyUpserts params.input group table = .ok merged := by
    rw [← isMerged, applyUpserts, MergeParams.input]
    simp only [uniform.unsorted]
    rfl
  refine ⟨merged, isUpsert, ⟨mergedColumns.trans uniform.hasColumns.symm, ?_⟩, ?_⟩
  · rw [mergedRows]
    exact List.Subset.trans (put_subset numBuckets _ _ _)
      (List.append_subset.mpr ⟨tableRows, newRows⟩)
  · have arePuts : group.map (fileChange params.deleteFileEnvelopes columnNames) =
        (group.map fun file => file.table.rows).map .put := by
      rw [List.map_map]
      apply List.map_congr_left
      intro file fileMem
      exact if_neg (noDeletes file fileMem)
    rw [mergedRows, arePuts, replay_puts, ← List.flatMap_def, isRows]

theorem all_not_fileChange {envelopes : List (DeleteFileEnvelope Value)}
    {files : List (DeltaFileEnvelope Value)} {row : Row String Value} :
    (files.map fun file (row : Row String Value) =>
        decide (∃ envelope ∈ deleteFilesOf envelopes [file],
          envelope.Deletes columnNames row)).all (fun select => !select row) =
      decide (∀ envelope ∈ deleteFilesOf envelopes files,
        ¬envelope.Deletes columnNames row) := by
  rw [Bool.eq_iff_iff, decide_eq_true_iff]
  simp only [List.all_map, List.all_eq_true, Function.comp_apply, Bool.not_eq_true',
    decide_eq_false_iff_not, deleteFilesOf, List.mem_filterMap, List.mem_singleton,
    exists_eq_left, not_exists, not_and]
  constructor
  · rintro noFile envelope ⟨file, fileMem, isFound⟩
    exact noFile file fileMem envelope isFound
  · intro noEnvelope file fileMem envelope isFound
    exact noEnvelope envelope ⟨file, fileMem, isFound⟩

/-- Delete files remove from the table what they match. -/
theorem applyDeleteFiles_replays (numBuckets : ℕ) [NeZero numBuckets]
    (uniform : Uniform params columnNames all) (tablePart : ∀ current ∈ table, PartOf all current)
    (areDeletes : ∀ file ∈ group, file.deltaType = .delete) :
    ∃ remaining, params.input.applyManyDeletes table group = .ok remaining ∧
      (∀ current ∈ remaining, PartOf all current) ∧ (remaining = none ↔ table = none) ∧
      (rowsOf remaining).Perm (replay
        (rowMerging params.hashing params.primaryKeys numBuckets params.dropDuplicates)
        (rowsOf table) (group.map (fileChange params.deleteFileEnvelopes columnNames))) := by
  have areRemovals : group.map (fileChange params.deleteFileEnvelopes columnNames) =
      (group.map fun file (row : Row String Value) =>
        decide (∃ envelope ∈ deleteFilesOf params.deleteFileEnvelopes [file],
          envelope.Deletes columnNames row)).map .remove := by
    rw [List.map_map]
    apply List.map_congr_left
    intro file fileMem
    exact if_pos (areDeletes file fileMem)
  rw [areRemovals, replay_removals]
  simp only [all_not_fileChange]
  cases table with
  | none => exact ⟨none, rfl, by simp, by simp, List.Perm.refl _⟩
  | some current =>
      have part := tablePart current rfl
      have ofEnvelopes : ∀ envelope ∈ deleteFilesOf params.deleteFileEnvelopes group,
          envelope ∈ params.deleteFileEnvelopes := by
        intro envelope envelopeMem
        rcases List.mem_filterMap.mp envelopeMem with ⟨file, _, isFound⟩
        exact List.mem_of_find?_eq_some isFound
      have comparable := fun envelope envelopeMem =>
        (uniform.comparable envelope (ofEnvelopes envelope envelopeMem)).of_subset part.columns
          part.rows
      rcases exists_applyManyDeletes comparable (fun envelope envelopeMem isReference =>
        (uniform.canDrop envelope (ofEnvelopes envelope envelopeMem) isReference).of_subset
          part.columns part.rows) with ⟨result, isResult⟩
      rcases applyManyDeletes_eq_ok comparable isResult with
        ⟨remaining, isRemaining, sameColumns, isKept, _⟩
      rw [part.columns, uniform.hasColumns] at isKept
      have isApplied :
          params.input.applyManyDeletes (some current) group = .ok (some remaining) := by
        change Prod.fst <$> applyManyDeletes params.arrow (some current) _ = _
        rw [isResult, ← isRemaining]
        rfl
      refine ⟨some remaining, isApplied, ?_, by simp, isKept⟩
      intro other isOther
      cases isOther
      refine ⟨sameColumns.trans part.columns, ?_⟩
      intro row rowMem
      exact part.rows (List.mem_of_mem_filter (isKept.subset rowMem))

/-- A group of files of one type is applied as its files change the table. -/
theorem applyGroup_replays (numBuckets : ℕ) [NeZero numBuckets]
    (uniform : Uniform params columnNames all) (tablePart : ∀ current ∈ table, PartOf all current)
    (nonempty : group ≠ [])
    (oneType : ∀ left ∈ group, ∀ right ∈ group, left.deltaType = right.deltaType)
    (groupPart : ∀ file ∈ group, file.deltaType ≠ .delete → PartOf all file.table) :
    ∃ next, applyGroup params.input table group = .ok next ∧
      (∀ current ∈ next, PartOf all current) ∧
      (next = none ↔ table = none ∧ ∀ file ∈ group, file.deltaType = .delete) ∧
      (rowsOf next).Perm (replay
        (rowMerging params.hashing params.primaryKeys numBuckets params.dropDuplicates)
        (rowsOf table) (group.map (fileChange params.deleteFileEnvelopes columnNames))) := by
  rcases List.exists_cons_of_ne_nil nonempty with ⟨first, rest, rfl⟩
  have sameType := fun file fileMem => oneType file fileMem first List.mem_cons_self
  by_cases isDelete : first.deltaType = .delete
  · have areDeletes : ∀ file ∈ first :: rest, file.deltaType = .delete :=
      fun file fileMem => (sameType file fileMem).trans isDelete
    rcases applyDeleteFiles_replays numBuckets uniform tablePart areDeletes with
      ⟨remaining, isRemaining, isPart, isNone, isReplay⟩
    refine ⟨remaining, ?_, isPart, ?_, isReplay⟩
    · simpa [applyGroup, isDelete] using isRemaining
    · rw [isNone]
      exact ⟨fun noTable => ⟨noTable, areDeletes⟩, And.left⟩
  · have noDeletes : ∀ file ∈ first :: rest, file.deltaType ≠ .delete :=
      fun file fileMem => (sameType file fileMem).symm ▸ isDelete
    rcases applyUpserts_replays numBuckets uniform tablePart nonempty
      (fun file fileMem => groupPart file fileMem (noDeletes file fileMem)) noDeletes with
      ⟨merged, isMerged, isPart, isReplay⟩
    refine ⟨some merged, ?_, ?_, ?_, List.Perm.of_eq isReplay⟩
    · unfold applyGroup
      rw [List.head?_cons, Option.map_some]
      cases isType : first.deltaType with
      | delete => exact absurd isType isDelete
      | add | append | upsert => simp [isMerged, Functor.map, Except.map]
    · intro current isCurrent
      cases isCurrent
      exact isPart
    · simp [isDelete]

/-- The loop over the groups is a replay of the changes of all files. -/
theorem applyGroups_replays (numBuckets : ℕ) [NeZero numBuckets]
    (uniform : Uniform params columnNames all) {groups : List (List (DeltaFileEnvelope Value))}
    (tablePart : ∀ current ∈ table, PartOf all current)
    (nonempty : ∀ group ∈ groups, group ≠ [])
    (oneType : ∀ group ∈ groups, ∀ left ∈ group, ∀ right ∈ group,
      left.deltaType = right.deltaType)
    (groupPart : ∀ file ∈ groups.flatten, file.deltaType ≠ .delete → PartOf all file.table) :
    ∃ result, groups.foldlM (applyGroup params.input) table = .ok result ∧
      (∀ current ∈ result, PartOf all current) ∧
      (result = none ↔ table = none ∧ ∀ file ∈ groups.flatten, file.deltaType = .delete) ∧
      (rowsOf result).Perm (replay
        (rowMerging params.hashing params.primaryKeys numBuckets params.dropDuplicates)
        (rowsOf table)
        (groups.flatten.map (fileChange params.deleteFileEnvelopes columnNames))) := by
  induction groups generalizing table with
  | nil => exact ⟨table, rfl, tablePart, by simp, List.Perm.refl _⟩
  | cons group groups ih =>
      rw [List.flatten_cons] at groupPart ⊢
      rcases applyGroup_replays numBuckets uniform tablePart (nonempty group List.mem_cons_self)
        (oneType group List.mem_cons_self)
        (fun file fileMem => groupPart file (List.mem_append_left _ fileMem)) with
        ⟨next, isNext, nextPart, nextNone, nextReplay⟩
      rcases ih nextPart (fun other otherMem => nonempty other (List.mem_cons_of_mem _ otherMem))
        (fun other otherMem => oneType other (List.mem_cons_of_mem _ otherMem))
        (fun file fileMem => groupPart file (List.mem_append_right _ fileMem)) with
        ⟨result, isResult, resultPart, resultNone, resultReplay⟩
      refine ⟨result, ?_, resultPart, ?_, ?_⟩
      · rw [List.foldlM_cons, isNext]
        exact isResult
      · rw [resultNone, nextNone]
        simp only [List.mem_append]
        constructor
        · rintro ⟨⟨noTable, ofGroup⟩, ofRest⟩
          refine ⟨noTable, fun file fileMem => ?_⟩
          rcases fileMem with inGroup | inRest
          · exact ofGroup file inGroup
          · exact ofRest file inRest
        · rintro ⟨noTable, areDeletes⟩
          exact ⟨⟨noTable, fun file fileMem => areDeletes file (Or.inl fileMem)⟩,
            fun file fileMem => areDeletes file (Or.inr fileMem)⟩
      · rw [List.map_append, replay_append]
        exact resultReplay.trans (replay_perm _ nextReplay)

/-- Compacting a table replays the changes of the files in the order of their positions. -/
theorem compactTables_replays (numBuckets : ℕ) [NeZero numBuckets]
    (uniform : Uniform params columnNames all) (dfeList : List (List (DeltaFileEnvelope Value)))
    (tablePart : ∀ current ∈ table, PartOf all current)
    (filePart : ∀ file ∈ dfeList.flatten, PartOf all file.table)
    (noDeletes : ∀ file ∈ dfeList.flatten, file.deltaType ≠ .delete) :
    ∃ result, compactTables params.input dfeList table = .ok result ∧
      (∀ current ∈ result, PartOf all current) ∧
      (result = none ↔ table = none ∧ dfeList.flatten = []) ∧
      (rowsOf result).Perm (replay
        (rowMerging params.hashing params.primaryKeys numBuckets params.dropDuplicates)
        (rowsOf table) ((sortDfEnvelopes (params.deleteFileEnvelopes.map
          DeleteFileEnvelope.toDeltaFile ++ dfeList.flatten)).map
            (fileChange params.deleteFileEnvelopes columnNames))) := by
  let reordered := sortDfEnvelopes (params.deleteFileEnvelopes.map
    DeleteFileEnvelope.toDeltaFile ++ dfeList.flatten)
  let groups := reordered.splitBy fun left right => left.deltaType = right.deltaType
  have isFlat : groups.flatten = reordered := List.flatten_splitBy _ _
  have mem_iff : ∀ file, file ∈ reordered ↔ (∃ envelope ∈ params.deleteFileEnvelopes,
      envelope.toDeltaFile = file) ∨ file ∈ dfeList.flatten := by
    intro file
    rw [show reordered = sortDfEnvelopes _ from rfl, sortDfEnvelopes, List.mem_insertionSort,
      List.mem_append, List.mem_map]
  rcases applyGroups_replays numBuckets uniform tablePart
    (fun _ groupMem => List.ne_nil_of_mem_splitBy groupMem)
    (fun _ groupMem => key_eq_of_mem_splitBy groupMem)
    (by
      intro file fileMem isOther
      rw [isFlat, mem_iff] at fileMem
      rcases fileMem with ⟨envelope, _, rfl⟩ | inFiles
      · exact absurd rfl isOther
      · exact filePart file inFiles) with ⟨result, isResult, resultPart, resultNone, resultReplay⟩
  rw [isFlat] at resultNone resultReplay
  refine ⟨result, isResult, resultPart, ?_, resultReplay⟩
  rw [resultNone]
  apply and_congr_right
  intro _
  constructor
  · intro areDeletes
    apply List.eq_nil_iff_forall_not_mem.mpr
    intro file fileMem
    exact noDeletes file fileMem (areDeletes file ((mem_iff file).mpr (Or.inr fileMem)))
  · intro noFiles file fileMem
    rw [mem_iff, noFiles] at fileMem
    rcases fileMem with ⟨envelope, _, rfl⟩ | inFiles
    · rfl
    · cases inFiles

end CompactTables

end Deltacat.Compute.CompactorV2
