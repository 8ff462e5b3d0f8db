import Deltacat.Compute.CompactorV2.MergeReplay
import Deltacat.Compute.CompactorV2.MergeResults

/-!
# Merge tasks

A merge task goes through the buckets of its hash group. A bucket without new files is
copied by reference if there are no deletes. Otherwise the table that the last session
compacted is downloaded, the files of the bucket and the deletes are merged into it, and
the result is staged. If at most one bucket is copied, each bucket has the rows that
replaying its changes gives (`timedMerge_outcomes`).
-/

namespace Deltacat.Compute.CompactorV2

open Deltacat.Library Deltacat.Storage Deltacat.Utils

/-- What is used of `deltacat_storage` to compact a partition. -/
structure CompactionStorage (Value : Type) where
  /-- `stage_delta`, for the table of a task. -/
  stageDelta : Metafile → ℕ → Table String Value → Except Error Storage.Delta
  /-- `download_delta_manifest_entry`; files that cannot be read are left out of the model. -/
  downloadEntry : ManifestEntry → Table String Value
  SameTypes : Table String Value → Table String Value → Prop
  concat : ConcatTables (Table String Value) Table.rows (Table.SameSchema SameTypes)
  commitDelta : Storage.Delta → Except Error Storage.Delta
  /-- `TABLE_CLASS_TO_SIZE_FUNC`. -/
  tableBytes : Table String Value → ℕ

/-- What a later session reads of the `RoundCompletionInfo`. -/
structure RoundCompletionInfo where
  highWatermark : Option ℕ
  hashBucketCount : ℕ
  hbIndexToEntryRange : Option EntryRanges

/-- `MergeInput`, besides the file groups. -/
structure MergeTaskInput (Value : Type) where
  hashing : KeyHashing Value
  arrow : ArrowJoins Value
  sortBy : Table String Value → List (String × SortOrder) → Except Error (Table String Value)
  primaryKeys : List String
  sortKeys : Option (List (SortKey String))
  dropDuplicates : Bool
  originalFields : List String
  deleteFileEnvelopes : Option (List (DeleteFileEnvelope Value))
  roundCompletionInfo : Option RoundCompletionInfo
  compactedManifest : Option Manifest
  disableCopyByReference : Bool
  writeToPartition : Metafile
  storage : CompactionStorage Value
  uuids : ℕ → String

section Task

variable {Value : Type} (input : MergeTaskInput Value)

namespace MergeTaskInput

/-- What the merging of tables depends on. -/
def params : MergeParams Value where
  hashing := input.hashing
  arrow := input.arrow
  sortBy := input.sortBy
  primaryKeys := input.primaryKeys
  sortKeys := input.sortKeys
  dropDuplicates := input.dropDuplicates
  originalFields := input.originalFields
  deleteFileEnvelopes := input.deleteFileEnvelopes.getD []

/-- The range of a bucket in the compacted manifest. -/
def entryRange (hbIndex : ℕ) : Option (ℕ × ℕ) :=
  (input.roundCompletionInfo.bind RoundCompletionInfo.hbIndexToEntryRange).bind (· hbIndex)

end MergeTaskInput

/-- `_download_compacted_table`; the bucketing is not validated by default. -/
def downloadCompactedTable (storage : CompactionStorage Value) (manifest : Manifest)
    (indices : ℕ × ℕ) : Except Error (Table String Value) := do
  let tables ← (List.range (indices.2 - indices.1)).mapM fun offset =>
    match manifest.entries[indices.1 + offset]? with
    | none => .error .indexError
    | some entry => .ok (storage.downloadEntry entry)
  storage.concat.concatTables tables

/-- The compacted table of a bucket, if `_has_previous_compacted_table`. -/
def previousTable (hbIndex : ℕ) : Except Error (Option (Table String Value)) :=
  match input.compactedManifest, input.entryRange hbIndex with
  | some manifest, some indices => some <$> downloadCompactedTable input.storage manifest indices
  | _, _ => .ok none

/-- `_can_copy_by_reference`. -/
def canCopyByReference (group : MergeFileGroup Value) : Bool :=
  input.deleteFileEnvelopes.isNone && (group.dfeGroups.getD []).isEmpty &&
    input.roundCompletionInfo.isSome && input.compactedManifest.isSome &&
      !input.disableCopyByReference

/-- `_copy_manifests_from_hash_bucketing`. -/
def copyManifestsFromHashBucketing (hbIndexCopyByReferenceIds : List ℕ) :
    Except Error (List MaterializeResult) :=
  match input.roundCompletionInfo with
  | none => .ok []
  | some roundCompletionInfo =>
      copyAllManifestFilesFromOldHashBuckets hbIndexCopyByReferenceIds
        roundCompletionInfo.hbIndexToEntryRange input.writeToPartition input.compactedManifest
        input.uuids

/-- `materialize`. -/
def materialize (taskIndex : ℕ) (compactedTable : Table String Value) :
    Except Error MaterializeResult := do
  let delta ← input.storage.stageDelta input.writeToPartition taskIndex compactedTable
  match delta.manifest with
  | none => throw .attributeError
  | some manifest =>
      if manifest.metadata.recordCount ≠ some compactedTable.rows.length then
        throw .assertionError
      else return {
        delta := delta
        taskIndex := taskIndex
        pyarrowWriteResult := ⟨manifest.entries.length, input.storage.tableBytes compactedTable,
          manifest.metadata.contentLength.getD 0, compactedTable.rows.length⟩
        referencedPyarrowWriteResult := none }

/-- What the loop of `_timed_merge` has done so far. -/
structure TaskState where
  materializedResults : List MaterializeResult
  hbIndexCopyByRefIds : List ℕ

variable [LinearOrder Value]

/-- The loop of `_timed_merge` at the files of a bucket. -/
def visitGroup (state : TaskState) (group : MergeFileGroup Value) : Except Error TaskState :=
  if canCopyByReference input group then
    .ok { state with hbIndexCopyByRefIds := state.hbIndexCopyByRefIds ++ [group.hbIndex] }
  else do
    let compactedTable ← previousTable input group.hbIndex
    if (group.dfeGroups.getD []).isEmpty ∧ compactedTable.isNone then return state
    else
      match ← compactTables input.params.input (group.dfeGroups.getD []) compactedTable with
      | none => throw .typeError
      | some table => do
          let result ← materialize input group.hbIndex table
          return { state with materializedResults := state.materializedResults ++ [result] }

/-- `_timed_merge`. -/
def timedMerge (mergeFileGroups : List (MergeFileGroup Value)) : Except Error MergeResult := do
  let state ← mergeFileGroups.foldlM (visitGroup input) ⟨[], []⟩
  if state.hbIndexCopyByRefIds ≠ [] then
    let copies ← copyManifestsFromHashBucketing input state.hbIndexCopyByRefIds
    return ⟨state.materializedResults ++ copies⟩
  else return ⟨state.materializedResults⟩

end Task

section Storage

variable {Value : Type} (storage : CompactionStorage Value)

namespace CompactionStorage

/-- The rows of the files of some entries. -/
def rows (entries : List ManifestEntry) : List (Row String Value) :=
  entries.flatMap fun entry => (storage.downloadEntry entry).rows

@[simp] theorem rows_nil : storage.rows [] = [] := rfl

@[simp] theorem rows_append {left right : List ManifestEntry} :
    storage.rows (left ++ right) = storage.rows left ++ storage.rows right :=
  List.flatMap_append

theorem rows_flatMap {Item : Type} {items : List Item} {entries : Item → List ManifestEntry} :
    storage.rows (items.flatMap entries) = items.flatMap fun item => storage.rows (entries item) :=
  List.flatMap_assoc

end CompactionStorage

/-- An entry that says nothing about credentials or its content type that others have to repeat. -/
structure Unrestricted (entry : ManifestEntry) : Prop where
  credentials : entry.metadata.credentials = none
  contentTypeParameters : entry.metadata.contentTypeParameters = none

theorem agree_of_unrestricted {entries : List ManifestEntry}
    (unrestricted : ∀ entry ∈ entries, Unrestricted entry) :
    Manifest.Agree entries := by
  intro first isFirst entry _
  have firstPlain := unrestricted first (List.mem_of_mem_head? isFirst)
  constructor
  · intro isGiven
    simp [firstPlain.credentials] at isGiven
  · intro isGiven
    simp [firstPlain.contentTypeParameters] at isGiven

/-- Files with rows of those of a round. -/
structure FilesOf (all : Table String Value) (entries : List ManifestEntry) : Prop where
  unrestricted : ∀ entry ∈ entries, Unrestricted entry
  parts : ∀ entry ∈ entries, PartOf all (storage.downloadEntry entry)

/-- A delta of a partition, which has files with rows of those of a round. -/
structure StagedFor (writeToPartition : Metafile) (all : Table String Value)
    (delta : Storage.Delta) : Prop where
  partition : delta.locator.partitionLocator = writeToPartition.locator
  type : delta.type = some .append
  hasManifest : delta.manifest.isSome
  nonempty : delta.entries ≠ []
  files : FilesOf storage all delta.entries

/-- Every table with rows of those of a round can be written to files that have its rows. -/
structure CanStage (writeToPartition : Metafile) (all : Table String Value) : Prop where
  sameTypes : SameTypesIn storage.SameTypes all
  stages : ∀ taskIndex table, PartOf all table → ∃ delta manifest,
    storage.stageDelta writeToPartition taskIndex table = .ok delta ∧
      delta.manifest = some manifest ∧ manifest.metadata.recordCount = some table.rows.length ∧
      StagedFor storage writeToPartition all delta ∧
      (storage.rows delta.entries).Perm table.rows

/-- The entries of a bucket. -/
def bucketEntries (ranges : EntryRanges) (manifest : Manifest) (hbIndex : ℕ) :
    List ManifestEntry :=
  (ranges hbIndex).elim [] (entriesIn manifest)

/-- The buckets of a manifest have the rows of a bag. -/
structure HoldsRows (all : Table String Value) (bucket : Row String Value → ℕ) (numBuckets : ℕ)
    (ranges : EntryRanges) (manifest : Manifest) (bag : List (Row String Value)) : Prop
    extends Indexes ranges manifest where
  nonempty : ∀ hbIndex range, ranges hbIndex = some range → range.1 < range.2
  buckets : ∀ hbIndex, (ranges hbIndex).isSome → hbIndex < numBuckets
  files : FilesOf storage all manifest.entries
  ofBucket : ∀ hbIndex, (storage.rows (bucketEntries ranges manifest hbIndex)).Perm
    (bag.filter (bucket · = hbIndex))
  content : (storage.rows manifest.entries).Perm bag

variable {storage} {all : Table String Value} {bucket : Row String Value → ℕ} {numBuckets : ℕ}
  {ranges : EntryRanges} {manifest : Manifest} {bag : List (Row String Value)}

theorem FilesOf.subset {entries others : List ManifestEntry}
    (files : FilesOf storage all entries) (isSubset : others ⊆ entries) :
    FilesOf storage all others where
  unrestricted entry entryMem := files.unrestricted entry (isSubset entryMem)
  parts entry entryMem := files.parts entry (isSubset entryMem)

theorem entriesIn_subset (range : ℕ × ℕ) : entriesIn manifest range ⊆ manifest.entries :=
  fun _ entryMem => List.mem_of_mem_drop (List.mem_of_mem_take entryMem)

/-- The table of a bucket is put together from its files. -/
theorem downloadCompactedTable_eq (sameTypes : SameTypesIn storage.SameTypes all)
    (files : FilesOf storage all manifest.entries)
    {range : ℕ × ℕ} (isNonempty : range.1 < range.2)
    (bounded : range.2 ≤ manifest.entries.length) :
    ∃ table, downloadCompactedTable storage manifest range = .ok table ∧ PartOf all table ∧
      table.rows = storage.rows (entriesIn manifest range) := by
  have areRead : ((List.range (range.2 - range.1)).mapM fun offset =>
      match manifest.entries[range.1 + offset]? with
      | none => (.error .indexError : Except Error (Table String Value))
      | some entry => .ok (storage.downloadEntry entry)) =
      .ok ((entriesIn manifest range).map storage.downloadEntry) := by
    have isLength : (entriesIn manifest range).length = range.2 - range.1 := by
      simp only [entriesIn, List.length_take, List.length_drop]
      omega
    rw [except_mapM_eq_ok_iff, List.forall₂_iff_get]
    refine ⟨by simp [isLength], ?_⟩
    intro offset offsetLess _
    have isEntry : manifest.entries[range.1 + offset]? =
        (entriesIn manifest range)[offset]? := by
      rw [List.length_range] at offsetLess
      rw [entriesIn, List.getElem?_take_of_lt offsetLess, List.getElem?_drop]
    have isLess : offset < (entriesIn manifest range).length := by simpa [isLength] using offsetLess
    simp only [List.get_eq_getElem, List.getElem_range, List.getElem_map, isEntry,
      List.getElem?_eq_getElem isLess]
  have someFile : (entriesIn manifest range).map storage.downloadEntry ≠ [] := by
    apply List.ne_nil_of_length_pos
    simp only [entriesIn, List.length_map, List.length_take, List.length_drop]
    omega
  have parts : ∀ table ∈ (entriesIn manifest range).map storage.downloadEntry,
      PartOf all table := by
    intro table tableMem
    rcases List.mem_map.mp tableMem with ⟨entry, entryMem, rfl⟩
    exact files.parts entry (entriesIn_subset range entryMem)
  rcases concatTables_parts storage.concat sameTypes someFile parts with
    ⟨table, isTable, part, areRows⟩
  refine ⟨table, ?_, part, ?_⟩
  · unfold downloadCompactedTable
    rw [areRead]
    exact isTable
  · rw [areRows, List.flatMap_map]
    rfl

end Storage

section Spec

variable {Value : Type} [LinearOrder Value]

/-- The files of a bucket. -/
def MergeFileGroup.files (group : MergeFileGroup Value) : List (DeltaFileEnvelope Value) :=
  (group.dfeGroups.getD []).flatten

/-- The files of a bucket are those of a round, and no deletes. -/
structure MergeFileGroup.WellFormed (all : Table String Value) (group : MergeFileGroup Value) :
    Prop where
  parts : ∀ file ∈ group.files, PartOf all file.table
  noDeletes : ∀ file ∈ group.files, file.deltaType ≠ .delete
  isNone : group.dfeGroups = none ↔ group.files = []

variable (input : MergeTaskInput Value) (columnNames : List String) (all : Table String Value)
  (numBuckets : ℕ) [NeZero numBuckets]

namespace MergeTaskInput

def bucket : Row String Value → ℕ :=
  bucketIndex input.hashing input.primaryKeys numBuckets

def merging : Merging (input.bucket numBuckets) :=
  rowMerging input.hashing input.primaryKeys numBuckets input.dropDuplicates

/-- The changes of the files of a bucket and of the deletes, in their order. -/
def changes (group : MergeFileGroup Value) : List (Change (Row String Value)) :=
  (sortDfEnvelopes (input.params.deleteFileEnvelopes.map DeleteFileEnvelope.toDeltaFile ++
    group.files)).map (fileChange input.params.deleteFileEnvelopes columnNames)

/-- The range of a bucket, if there is a compacted table. -/
def previousRange (hbIndex : ℕ) : Option (ℕ × ℕ) :=
  input.compactedManifest.bind fun _ => input.entryRange hbIndex

/-- A task begins with the bag of the compacted table, if it is given one. -/
def StartsFrom (bag : List (Row String Value)) : Prop :=
  match input.compactedManifest with
  | none => bag = []
  | some manifest => ∃ roundCompletionInfo ranges,
      input.roundCompletionInfo = some roundCompletionInfo ∧
      roundCompletionInfo.hbIndexToEntryRange = some ranges ∧
      HoldsRows input.storage all (input.bucket numBuckets) numBuckets ranges manifest bag

/-- The result for the files of a bucket, if it has rows before or after them. -/
structure Outcome (bag : List (Row String Value)) (group : MergeFileGroup Value)
    (outcome : Option MaterializeResult) : Prop where
  taskIndex : ∀ result ∈ outcome, result.taskIndex = group.hbIndex
  counted : ∀ result ∈ outcome, result.pyarrowWriteResult.files = result.delta.entries.length
  staged : ∀ result ∈ outcome,
    StagedFor input.storage input.writeToPartition all result.delta
  isNone : outcome = none ↔ group.files = [] ∧ input.previousRange group.hbIndex = none
  content : (input.storage.rows (outcome.toList.flatMap (·.delta.entries))).Perm
    (replay (input.merging numBuckets)
      (bag.filter (input.bucket numBuckets · = group.hbIndex)) (input.changes columnNames group))

end MergeTaskInput

variable {input columnNames all numBuckets} {bag : List (Row String Value)}
  {group : MergeFileGroup Value}

omit [LinearOrder Value] in
theorem previousTable_eq (sameTypes : SameTypesIn input.storage.SameTypes all)
    (startsFrom : input.StartsFrom all numBuckets bag) (hbIndex : ℕ) :
    ∃ table, previousTable input hbIndex = .ok table ∧
      (∀ current ∈ table, PartOf all current) ∧
      (table = none ↔ input.previousRange hbIndex = none) ∧
      (rowsOf table).Perm (bag.filter (input.bucket numBuckets · = hbIndex)) := by
  unfold MergeTaskInput.StartsFrom at startsFrom
  unfold previousTable MergeTaskInput.previousRange
  cases isManifest : input.compactedManifest with
  | none =>
      rw [isManifest] at startsFrom
      subst startsFrom
      exact ⟨none, rfl, by simp, by simp, List.Perm.refl _⟩
  | some manifest =>
      rw [isManifest] at startsFrom
      rcases startsFrom with ⟨info, ranges, isInfo, areRanges, holds⟩
      have isRange : input.entryRange hbIndex = ranges hbIndex := by
        simp [MergeTaskInput.entryRange, isInfo, areRanges]
      have ofBucket := holds.ofBucket hbIndex
      simp only [isRange, Option.bind_some]
      cases hasRange : ranges hbIndex with
      | none =>
          rw [bucketEntries, hasRange] at ofBucket
          exact ⟨none, rfl, by simp, by simp, ofBucket⟩
      | some range =>
          rw [bucketEntries, hasRange] at ofBucket
          rcases downloadCompactedTable_eq sameTypes holds.files
            (holds.nonempty hbIndex range hasRange) (holds.bounded hbIndex range hasRange) with
            ⟨table, isTable, part, areRows⟩
          refine ⟨some table, ?_, by simpa using part, by simp, ?_⟩
          · simp only [isTable]
            rfl
          · rw [rowsOf, Option.map_some, Option.getD_some, areRows]
            exact ofBucket

omit [LinearOrder Value] in
/-- A staged table is counted right. -/
theorem materialize_eq (canStage : CanStage input.storage input.writeToPartition all)
    (taskIndex : ℕ) {table : Table String Value} (part : PartOf all table) :
    ∃ result, materialize input taskIndex table = .ok result ∧ result.taskIndex = taskIndex ∧
      result.pyarrowWriteResult.files = result.delta.entries.length ∧
      StagedFor input.storage input.writeToPartition all result.delta ∧
      (input.storage.rows result.delta.entries).Perm table.rows := by
  rcases canStage.stages taskIndex table part with
    ⟨delta, manifest, isDelta, isManifest, counted, staged, areRows⟩
  refine ⟨⟨delta, taskIndex, ⟨manifest.entries.length, input.storage.tableBytes table,
    manifest.metadata.contentLength.getD 0, table.rows.length⟩, none⟩, ?_, rfl, ?_, staged, areRows⟩
  · unfold materialize
    rw [isDelta]
    simp only [bind, Except.bind, isManifest, counted, ne_eq, not_true_eq_false, if_false]
    rfl
  · rw [Delta.entries, isManifest]
    rfl

omit [LinearOrder Value] in
theorem MergeFileGroup.WellFormed.isEmpty_iff (wellFormed : group.WellFormed all) :
    (group.dfeGroups.getD []).isEmpty ↔ group.files = [] := by
  rw [List.isEmpty_iff]
  constructor
  · intro noGroups
    simp [MergeFileGroup.files, noGroups]
  · intro noFiles
    rw [wellFormed.isNone.mpr noFiles]
    rfl

/-- A bucket that is not copied is merged. -/
theorem visitGroup_merges (uniform : Uniform input.params columnNames all)
    (canStage : CanStage input.storage input.writeToPartition all)
    (startsFrom : input.StartsFrom all numBuckets bag) (wellFormed : group.WellFormed all)
    (notCopied : canCopyByReference input group = false) :
    ∃ outcome, input.Outcome columnNames all numBuckets bag group outcome ∧
      ∀ state, visitGroup input state group =
        .ok ⟨state.materializedResults ++ outcome.toList, state.hbIndexCopyByRefIds⟩ := by
  rcases previousTable_eq canStage.sameTypes startsFrom group.hbIndex with
    ⟨table, isTable, parts, isNone, areRows⟩
  rcases compactTables_replays numBuckets uniform (group.dfeGroups.getD []) parts
    wellFormed.parts wellFormed.noDeletes with
    ⟨result, isResult, resultParts, resultNone, resultRows⟩
  have replayed := resultRows.trans (replay_perm (input.merging numBuckets) areRows)
  have visits : ∀ state, visitGroup input state group = do
      let compactedTable ← previousTable input group.hbIndex
      if (group.dfeGroups.getD []).isEmpty ∧ compactedTable.isNone then return state
      else
        match ← compactTables input.params.input (group.dfeGroups.getD []) compactedTable with
        | none => throw .typeError
        | some table => do
            let result ← materialize input group.hbIndex table
            return { state with
              materializedResults := state.materializedResults ++ [result] } := by
    intro state
    rw [visitGroup, if_neg (by simp [notCopied])]
  simp only [isTable, bind, Except.bind] at visits
  cases result with
  | none =>
      rcases resultNone.mp rfl with ⟨noTable, noFiles⟩
      refine ⟨none, ⟨by simp, by simp, by simp, ?_, replayed⟩, ?_⟩
      · simp [← isNone, noTable, MergeFileGroup.files, noFiles]
      · intro state
        rw [visits, if_pos ⟨wellFormed.isEmpty_iff.mpr noFiles, by simp [noTable]⟩]
        simp [pure, Except.pure]
  | some merged =>
      have isSome : ¬(table = none ∧ group.files = []) := by
        intro nothing
        cases resultNone.mpr nothing
      rcases materialize_eq canStage group.hbIndex (resultParts merged rfl) with
        ⟨outcome, isOutcome, sameIndex, counted, staged, ofTable⟩
      refine ⟨some outcome, ⟨by simpa using sameIndex, by simpa using counted,
        by simpa using staged, ?_, ?_⟩, ?_⟩
      · rw [← isNone]
        simp only [reduceCtorEq, false_iff]
        exact fun nothing => isSome nothing.symm
      · rw [Option.toList_some, List.flatMap_singleton]
        exact ofTable.trans replayed
      · intro state
        have notSkipped : ¬((group.dfeGroups.getD []).isEmpty = true ∧ table.isNone = true) := by
          rw [wellFormed.isEmpty_iff, Option.isNone_iff_eq_none]
          exact fun nothing => isSome nothing.symm
        rw [visits, if_neg notSkipped, isResult]
        simp only [isOutcome]
        rfl

/-- A bucket is copied with the files that it has. -/
theorem copyManifests_eq (columnNames : List String)
    (startsFrom : input.StartsFrom all numBuckets bag)
    (wellFormed : group.WellFormed all) (isCopied : canCopyByReference input group) :
    ∃ outcome, input.Outcome columnNames all numBuckets bag group outcome ∧
      copyManifestsFromHashBucketing input [group.hbIndex] = .ok outcome.toList := by
  simp only [canCopyByReference, Bool.and_eq_true, Option.isNone_iff_eq_none] at isCopied
  rcases isCopied with ⟨⟨⟨⟨noDeletes, noGroups⟩, _⟩, hasManifest⟩, _⟩
  have noFiles := wellFormed.isEmpty_iff.mp noGroups
  have noChanges : input.changes columnNames group = [] := by
    simp [MergeTaskInput.changes, MergeTaskInput.params, noDeletes, noFiles, sortDfEnvelopes]
  rcases Option.isSome_iff_exists.mp hasManifest with ⟨manifest, isManifest⟩
  rw [MergeTaskInput.StartsFrom, isManifest] at startsFrom
  rcases startsFrom with ⟨info, ranges, isInfo, areRanges, holds⟩
  have ofBucket := holds.ofBucket group.hbIndex
  have isRange : input.previousRange group.hbIndex = ranges group.hbIndex := by
    simp [MergeTaskInput.previousRange, isManifest, MergeTaskInput.entryRange, isInfo, areRanges]
  have copies : copyManifestsFromHashBucketing input [group.hbIndex] = do
      let state ← copyBucket (some manifest) ranges input.uuids ⟨[], []⟩ group.hbIndex
      return state.copies.reverse.map (copyResult input.writeToPartition state) := by
    rw [copyManifestsFromHashBucketing, isInfo]
    simp only [areRanges, isManifest, copyAllManifestFilesFromOldHashBuckets, List.foldlM_cons,
      List.foldlM_nil]
    rw [bind_pure]
  cases hasRange : ranges group.hbIndex with
  | none =>
      rw [bucketEntries, hasRange] at ofBucket
      refine ⟨none, ⟨by simp, by simp, by simp, ?_, ?_⟩, ?_⟩
      · simp [noFiles, isRange, hasRange]
      · rw [noChanges]
        exact ofBucket
      · rw [copies, copyBucket, hasRange]
        rfl
  | some range =>
      rw [bucketEntries, hasRange] at ofBucket
      have ordered := holds.ordered group.hbIndex range hasRange
      have bounded := holds.bounded group.hbIndex range hasRange
      have inManifest := holds.files.subset (entriesIn_subset range)
      have canList : ∃ copy, Manifest.of (entriesIn manifest range) none (input.uuids 0) none none =
          .ok copy := Manifest.exists_of_iff.mpr (agree_of_unrestricted inManifest.unrestricted)
      rcases canList with ⟨copy, isCopy⟩
      have areEntries := (Manifest.of_eq_ok isCopy).1
      have someEntry : entriesIn manifest range ≠ [] := by
        have positive := holds.nonempty group.hbIndex range hasRange
        apply List.ne_nil_of_length_pos
        simp only [entriesIn, List.length_take, List.length_drop]
        omega
      let state : CopyState := ⟨entriesIn manifest range, [⟨group.hbIndex, copy, none⟩]⟩
      let result := copyResult input.writeToPartition state ⟨group.hbIndex, copy, none⟩
      have resultEntries : result.delta.entries = entriesIn manifest range := rfl
      refine ⟨some result, ⟨?_, ?_, ?_, ?_, ?_⟩, ?_⟩
      · simp [result, copyResult]
      · rintro _ ⟨⟩
        rw [resultEntries, ← areEntries]
        rfl
      · rintro _ ⟨⟩
        exact ⟨rfl, rfl, rfl, resultEntries ▸ someEntry, resultEntries ▸ inManifest⟩
      · simp [isRange, hasRange]
      · rw [Option.toList_some, List.flatMap_singleton, resultEntries, noChanges]
        exact ofBucket
      · rw [copies, copyBucket_first hasRange bounded ordered, isCopy]
        rfl

/-- The loop of a merge task, with the buckets that are copied after it. -/
theorem visitGroups_outcomes (uniform : Uniform input.params columnNames all)
    (canStage : CanStage input.storage input.writeToPartition all)
    (startsFrom : input.StartsFrom all numBuckets bag) {groups : List (MergeFileGroup Value)}
    (wellFormed : ∀ group ∈ groups, group.WellFormed all) (state : TaskState) :
    ∃ (merged : List MaterializeResult) (copied : List (ℕ × Option MaterializeResult))
      (outcomes : List (Option MaterializeResult)),
      groups.foldlM (visitGroup input) state = .ok ⟨state.materializedResults ++ merged,
        state.hbIndexCopyByRefIds ++ copied.map Prod.fst⟩ ∧
      copied.length = groups.countP (canCopyByReference input) ∧
      (∀ copy ∈ copied, copyManifestsFromHashBucketing input [copy.1] = .ok copy.2.toList) ∧
      List.Forall₂ (input.Outcome columnNames all numBuckets bag) groups outcomes ∧
      (merged ++ copied.filterMap Prod.snd).Perm outcomes.reduceOption := by
  induction groups generalizing state with
  | nil => exact ⟨[], [], [], by simp; rfl, rfl, by simp, List.Forall₂.nil, List.Perm.refl _⟩
  | cons group groups ih =>
      have isFirst := wellFormed group List.mem_cons_self
      have areRest := fun other otherMem => wellFormed other (List.mem_cons_of_mem group otherMem)
      cases isCopied : canCopyByReference input group with
      | true =>
          rcases copyManifests_eq columnNames startsFrom isFirst isCopied with
            ⟨outcome, isOutcome, isCopy⟩
          rcases ih areRest ⟨state.materializedResults,
            state.hbIndexCopyByRefIds ++ [group.hbIndex]⟩ with
            ⟨merged, copied, outcomes, isFinal, count, areCopies, areOutcomes, isPerm⟩
          refine ⟨merged, (group.hbIndex, outcome) :: copied, outcome :: outcomes, ?_, ?_, ?_,
            List.Forall₂.cons isOutcome areOutcomes, ?_⟩
          · rw [List.append_assoc] at isFinal
            rw [List.foldlM_cons, visitGroup, if_pos isCopied]
            exact isFinal
          · simp [isCopied, count]
          · simpa using ⟨isCopy, fun hbIndex copy copyMem => areCopies (hbIndex, copy) copyMem⟩
          · cases outcome with
            | none => simpa using isPerm
            | some result =>
                simp only [List.filterMap_cons, List.reduceOption_cons_of_some]
                exact List.perm_middle.trans (isPerm.cons result)
      | false =>
          rcases visitGroup_merges uniform canStage startsFrom isFirst isCopied with
            ⟨outcome, isOutcome, visits⟩
          rcases ih areRest ⟨state.materializedResults ++ outcome.toList,
            state.hbIndexCopyByRefIds⟩ with
            ⟨merged, copied, outcomes, isFinal, count, areCopies, areOutcomes, isPerm⟩
          refine ⟨outcome.toList ++ merged, copied, outcome :: outcomes, ?_, ?_, areCopies,
            List.Forall₂.cons isOutcome areOutcomes, ?_⟩
          · rw [List.append_assoc] at isFinal
            rw [List.foldlM_cons, visits]
            exact isFinal
          · simp [isCopied, count]
          · cases outcome with
            | none => simpa using isPerm
            | some result =>
                simp only [Option.toList_some, List.reduceOption_cons_of_some]
                exact isPerm.cons result

/-- A merge task has a result for each bucket that has rows before or after it. -/
theorem timedMerge_outcomes (uniform : Uniform input.params columnNames all)
    (canStage : CanStage input.storage input.writeToPartition all)
    (startsFrom : input.StartsFrom all numBuckets bag) {groups : List (MergeFileGroup Value)}
    (wellFormed : ∀ group ∈ groups, group.WellFormed all)
    (atMostOne : groups.countP (canCopyByReference input) ≤ 1) :
    ∃ result outcomes, timedMerge input groups = .ok result ∧
      List.Forall₂ (input.Outcome columnNames all numBuckets bag) groups outcomes ∧
      result.materializeResults.Perm outcomes.reduceOption := by
  rcases visitGroups_outcomes uniform canStage startsFrom wellFormed ⟨[], []⟩ with
    ⟨merged, copied, outcomes, isFinal, count, areCopies, areOutcomes, isPerm⟩
  simp only [List.nil_append] at isFinal
  rw [← count] at atMostOne
  unfold timedMerge
  rw [isFinal]
  cases copied with
  | nil =>
      refine ⟨⟨merged⟩, outcomes, ?_, areOutcomes, by simpa using isPerm⟩
      simp [bind, Except.bind, pure, Except.pure]
  | cons copy copied =>
      obtain rfl : copied = [] := List.eq_nil_of_length_eq_zero (by simpa using atMostOne)
      refine ⟨⟨merged ++ copy.2.toList⟩, outcomes, ?_, areOutcomes, ?_⟩
      · simp only [bind, Except.bind, List.map_cons, List.map_nil, ne_eq, List.cons_ne_nil,
          not_false_eq_true, if_true, areCopies copy List.mem_cons_self]
        rfl
      · cases isCopy : copy.2 <;> simpa [isCopy] using isPerm

end Spec

end Deltacat.Compute.CompactorV2
