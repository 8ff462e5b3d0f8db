import Deltacat.Compute.Converter.Dedupe
import Deltacat.Library.Procedure

/-!
# Sub-buckets

A bucket with too many records is split into sub-buckets of files, in the order in
which the files are listed. The records of each sub-bucket are distributed over hash
buckets, and each hash bucket is deduplicated by itself.

Within a hash bucket the records stay in the order of the list of files, and the
last one is kept. Without sub-buckets the files are sorted first. Both find the
same deletes if for every identifier the last file that has it is the same in both
orders (`dedupeSubBuckets_iff`).
-/

namespace Deltacat.Compute.Converter

open Deltacat.Library Deltacat.Utils

universe u

variable {Path Identifier Hash : Type u}

/-- The sub-buckets so far, the current one, and the number of its records. -/
structure SplitState (Path Identifier : Type u) where
  subBuckets : List (List (DataFileWithSequence Path Identifier))
  currentBucket : List (DataFileWithSequence Path Identifier)
  currentBucketRecordCount : ℤ

/-- A file that would exceed the threshold starts a new sub-bucket. -/
def SplitState.add (threshold : ℤ) (state : SplitState Path Identifier)
    (file : DataFileWithSequence Path Identifier) : SplitState Path Identifier :=
  if ¬state.currentBucket.isEmpty ∧
      state.currentBucketRecordCount + file.2.recordCount > threshold then
    { subBuckets := state.subBuckets ++ [state.currentBucket]
      currentBucket := [file]
      currentBucketRecordCount := file.2.recordCount }
  else
    { state with
      currentBucket := state.currentBucket ++ [file]
      currentBucketRecordCount := state.currentBucketRecordCount + file.2.recordCount }

def splitFilesIntoSubBuckets (threshold : ℤ)
    (files : List (DataFileWithSequence Path Identifier)) :
    List (List (DataFileWithSequence Path Identifier)) :=
  let state := files.foldl (SplitState.add threshold) ⟨[], [], 0⟩
  if state.currentBucket.isEmpty then state.subBuckets
  else state.subBuckets ++ [state.currentBucket]

section HashBuckets

variable (concat : RecordConcat Path Hash) (hash : Identifier → Hash) (hashInt : Hash → ℕ)

/-- The hash bucket of a record; `hashInt` reads the hash as a number. -/
def bucketIndex (numHashBuckets : ℕ) (record : Record Path Hash) : ℕ :=
  hashInt record.identifierColumnsHashed % numHashBuckets

/-- The tables of the hash buckets that have a record. -/
def hashBucket (numHashBuckets : ℕ)
    (subBucketInputFiles : List (DataFileWithSequence Path Identifier)) :
    Except Error (List (ℕ × List (Record Path Hash))) := do
  let combinedTable ←
    concat.concatTables (subBucketInputFiles.map fun file => downloadDataTable hash file.2)
  return (List.range numHashBuckets).filterMap fun bucketNumber =>
    let bucketTable := combinedTable.filter fun record =>
      bucketIndex hashInt numHashBuckets record = bucketNumber
    if bucketTable.isEmpty then none else some (bucketNumber, bucketTable)

/-- There are as many hash buckets as sub-buckets; the caller cannot use an empty result. -/
def processSubBucketsWithHashBucketTasks
    (subBucketInputFiles : List (List (DataFileWithSequence Path Identifier))) :
    Except Error (List (ℕ × List (List (Record Path Hash)))) :=
  if subBucketInputFiles.isEmpty then .error .valueError
  else do
    let numHashBuckets := subBucketInputFiles.length
    let results ← subBucketInputFiles.mapM (hashBucket concat hash hashInt numHashBuckets)
    return (groupInto Prod.fst results.flatten).map fun bucket =>
      (bucket.1, bucket.2.map Prod.snd)

variable [LinearOrder Path] [DecidableEq Hash]

def dedupeSubHashBucket (bucketTables : List (List (Record Path Hash))) : List (Path × ℕ) :=
  let validTables := bucketTables.filter fun table => !table.isEmpty
  if validTables.isEmpty then []
  else writePositionDeleteFiles (allButLast (·.identifierColumnsHashed) validTables.flatten)

/-- `convert` with sub-buckets; tasks cannot be invoked for no bucket at all. -/
def dedupeSubBuckets (threshold : ℤ) (files : List (DataFileWithSequence Path Identifier)) :
    Except Error (List (Path × ℕ)) := do
  let subBucketIndexToTables ← processSubBucketsWithHashBucketTasks concat hash hashInt
    (splitFilesIntoSubBuckets threshold files)
  if subBucketIndexToTables.isEmpty then .error .valueError
  else return subBucketIndexToTables.flatMap fun bucket => dedupeSubHashBucket bucket.2

end HashBuckets

section Split

variable (threshold : ℤ) (files : List (DataFileWithSequence Path Identifier))

/-- Nothing is lost by splitting, and no sub-bucket is empty. -/
theorem splitFilesIntoSubBuckets_spec :
    (splitFilesIntoSubBuckets threshold files).flatten = files ∧
      ∀ subBucket ∈ splitFilesIntoSubBuckets threshold files, subBucket ≠ [] := by
  suffices general : ∀ state : SplitState Path Identifier,
      (∀ subBucket ∈ state.subBuckets, subBucket ≠ []) →
        let last := files.foldl (SplitState.add threshold) state
        last.subBuckets.flatten ++ last.currentBucket =
            state.subBuckets.flatten ++ state.currentBucket ++ files ∧
          ∀ subBucket ∈ last.subBuckets, subBucket ≠ [] by
    obtain ⟨flatten, nonempty⟩ := general ⟨[], [], 0⟩ (by simp)
    simp only [splitFilesIntoSubBuckets]
    split_ifs with isEmpty
    · rw [List.isEmpty_iff.mp isEmpty] at flatten
      exact ⟨by simpa using flatten, nonempty⟩
    · refine ⟨by simpa using flatten, fun subBucket subBucketMem => ?_⟩
      rcases List.mem_append.mp subBucketMem with subBucketMem | isCurrent
      · exact nonempty subBucket subBucketMem
      · rw [List.mem_singleton.mp isCurrent]
        exact fun isNil => isEmpty (List.isEmpty_iff.mpr isNil)
  induction files with
  | nil => exact fun state nonempty => ⟨by simp, nonempty⟩
  | cons file files ih =>
      intro state nonempty
      simp only [List.foldl_cons]
      by_cases isFull : ¬state.currentBucket.isEmpty ∧
          state.currentBucketRecordCount + file.2.recordCount > threshold
      · have nonemptyAll : ∀ subBucket ∈ state.subBuckets ++ [state.currentBucket],
            subBucket ≠ [] := by
          intro subBucket subBucketMem
          rcases List.mem_append.mp subBucketMem with subBucketMem | isCurrent
          · exact nonempty subBucket subBucketMem
          · rw [List.mem_singleton.mp isCurrent]
            exact fun isNil => isFull.1 (List.isEmpty_iff.mpr isNil)
        rw [SplitState.add, if_pos isFull]
        obtain ⟨flatten, nonemptyLast⟩ := ih ⟨_, [file], file.2.recordCount⟩ nonemptyAll
        exact ⟨by simpa using flatten, nonemptyLast⟩
      · rw [SplitState.add, if_neg isFull]
        obtain ⟨flatten, nonemptyLast⟩ := ih ⟨state.subBuckets, state.currentBucket ++ [file],
          state.currentBucketRecordCount + file.2.recordCount⟩ nonempty
        exact ⟨by simpa using flatten, nonemptyLast⟩

end Split

section Buckets

variable {concat : RecordConcat Path Hash} {hash : Identifier → Hash} {hashInt : Hash → ℕ}

/-- The tables of the hash buckets of some records. -/
private def bucketTables (hashInt : Hash → ℕ) (numHashBuckets : ℕ)
    (records : List (Record Path Hash)) : List (ℕ × List (Record Path Hash)) :=
  (List.range numHashBuckets).filterMap fun bucketNumber =>
    let bucketTable := records.filter fun record =>
      bucketIndex hashInt numHashBuckets record = bucketNumber
    if bucketTable.isEmpty then none else some (bucketNumber, bucketTable)

private theorem hashBucket_eq {files : List (DataFileWithSequence Path Identifier)}
    (nonempty : files ≠ []) (numHashBuckets : ℕ) :
    hashBucket concat hash hashInt numHashBuckets files =
      .ok (bucketTables hashInt numHashBuckets (recordsOf hash files)) := by
  rw [hashBucket, concatTables_of_ne_nil concat (by simpa using nonempty)]
  rfl

private theorem flatMap_filter_filterMap_range {Item : Type u} (table : ℕ → List Item)
    (number count : ℕ) :
    (((List.range count).filterMap fun index =>
      if (table index).isEmpty then none else some (index, table index)).filter
        (·.1 = number)).flatMap Prod.snd = if number < count then table number else [] := by
  induction count with
  | zero => rfl
  | succ count ih =>
      rw [List.range_succ, List.filterMap_append, List.filter_append, List.flatMap_append, ih]
      rcases isTable : table count with _ | ⟨item, items⟩
      · rcases lt_trichotomy number count with less | rfl | greater
        · simp [isTable, less, less.trans (Nat.lt_succ_self count)]
        · simp [isTable]
        · simp [isTable, greater.not_gt, (Nat.succ_le_of_lt greater).not_gt]
      · rcases lt_trichotomy number count with less | rfl | greater
        · simp [isTable, less, less.ne', less.trans (Nat.lt_succ_self count)]
        · simp [isTable]
        · simp [isTable, greater.not_gt, greater.ne, (Nat.succ_le_of_lt greater).not_gt]

private theorem flatMap_filter_bucketTables {numHashBuckets : ℕ} (positive : 0 < numHashBuckets)
    (number : ℕ) (records : List (Record Path Hash)) :
    ((bucketTables hashInt numHashBuckets records).filter (·.1 = number)).flatMap Prod.snd =
      records.filter fun record => bucketIndex hashInt numHashBuckets record = number := by
  have ofRange := flatMap_filter_filterMap_range (fun index => records.filter fun record =>
    bucketIndex hashInt numHashBuckets record = index) number numHashBuckets
  refine Eq.trans ofRange ?_
  split_ifs with less
  · rfl
  · symm
    rw [List.filter_eq_nil_iff]
    intro record _ isBucket
    have bound := Nat.mod_lt (hashInt record.identifierColumnsHashed) positive
    exact less (of_decide_eq_true isBucket ▸ bound)

/-- The hash buckets together have all records, each bucket in the order of the files. -/
theorem processSubBuckets_spec (concat : RecordConcat Path Hash) (hash : Identifier → Hash)
    (hashInt : Hash → ℕ) (threshold : ℤ)
    {files : List (DataFileWithSequence Path Identifier)} (nonempty : files ≠ []) :
    ∃ buckets, processSubBucketsWithHashBucketTasks concat hash hashInt
        (splitFilesIntoSubBuckets threshold files) = .ok buckets ∧ ∃ index : Hash → ℕ,
      (∀ bucket ∈ buckets, bucket.2.flatten = (recordsOf hash files).filter fun record =>
        index record.identifierColumnsHashed = bucket.1) ∧
      (∀ bucket ∈ buckets, bucket.2.flatten ≠ []) ∧
      ∀ record ∈ recordsOf hash files, ∃ bucket ∈ buckets,
        index record.identifierColumnsHashed = bucket.1 := by
  obtain ⟨flatten, nonemptyAll⟩ := splitFilesIntoSubBuckets_spec threshold files
  let subBuckets := splitFilesIntoSubBuckets threshold files
  have someSubBucket : subBuckets ≠ [] := by
    intro isNil
    rw [show splitFilesIntoSubBuckets threshold files = [] from isNil] at flatten
    exact nonempty flatten.symm
  have positive : 0 < subBuckets.length := List.length_pos_iff.mpr someSubBucket
  let entries := subBuckets.flatMap fun subBucket =>
    bucketTables hashInt subBuckets.length (recordsOf hash subBucket)
  have mapped : subBuckets.mapM (hashBucket concat hash hashInt subBuckets.length) =
      .ok (subBuckets.map fun subBucket =>
        bucketTables hashInt subBuckets.length (recordsOf hash subBucket)) :=
    except_mapM_eq_ok fun subBucket subBucketMem =>
      hashBucket_eq (nonemptyAll subBucket subBucketMem) subBuckets.length
  have recordsOfBucket : ∀ number, (entries.filter (·.1 = number)).flatMap Prod.snd =
      (recordsOf hash files).filter fun record =>
        bucketIndex hashInt subBuckets.length record = number := by
    intro number
    calc (entries.filter (·.1 = number)).flatMap Prod.snd
      _ = subBuckets.flatMap fun subBucket => (recordsOf hash subBucket).filter fun record =>
            bucketIndex hashInt subBuckets.length record = number := by
          rw [List.filter_flatMap, List.flatMap_assoc]
          exact List.flatMap_congr fun subBucket _ =>
            flatMap_filter_bucketTables positive number (recordsOf hash subBucket)
      _ = (subBuckets.flatten.flatMap fun file => downloadDataTable hash file.2).filter
            fun record => bucketIndex hashInt subBuckets.length record = number := by
          rw [List.flatten_eq_flatMap, List.flatMap_assoc, List.filter_flatMap]
          rfl
      _ = (recordsOf hash files).filter fun record =>
            bucketIndex hashInt subBuckets.length record = number := by
          rw [flatten]
  refine ⟨(groupInto Prod.fst entries).map fun bucket => (bucket.1, bucket.2.map Prod.snd), ?_,
    fun hashed => hashInt hashed % subBuckets.length, ?_, ?_, ?_⟩
  · have notEmpty : ¬(splitFilesIntoSubBuckets threshold files).isEmpty := by
      simpa using someSubBucket
    rw [processSubBucketsWithHashBucketTasks, if_neg notEmpty]
    have results := congrArg (fun results => results >>= fun results => Except.ok
      ((groupInto Prod.fst results.flatten).map fun bucket =>
        (bucket.1, bucket.2.map Prod.snd))) mapped
    exact results
  · intro bucket bucketMem
    obtain ⟨⟨number, tables⟩, groupMem, rfl⟩ := List.mem_map.mp bucketMem
    rw [(mem_groupInto.mp groupMem).2]
    exact recordsOfBucket number
  · intro bucket bucketMem isEmpty
    obtain ⟨⟨number, tables⟩, groupMem, rfl⟩ := List.mem_map.mp bucketMem
    obtain ⟨⟨entry, entryMem, isNumber⟩, isTables⟩ := mem_groupInto.mp groupMem
    obtain ⟨subBucket, -, entryMemOf⟩ := List.mem_flatMap.mp entryMem
    obtain ⟨index, -, isEntry⟩ := List.mem_filterMap.mp entryMemOf
    have inGroup : entry ∈ tables := by
      rw [show tables = _ from isTables]
      exact List.mem_filter.mpr ⟨entryMem, decide_eq_true isNumber⟩
    have noRecord := List.flatten_eq_nil_iff.mp isEmpty _ (List.mem_map_of_mem inGroup)
    dsimp only at isEntry
    split_ifs at isEntry with isEmptyTable
    cases isEntry
    exact isEmptyTable (List.isEmpty_iff.mpr noRecord)
  · intro record recordMem
    let number := bucketIndex hashInt subBuckets.length record
    have inBucket : record ∈ (entries.filter (·.1 = number)).flatMap Prod.snd := by
      rw [recordsOfBucket]
      exact List.mem_filter.mpr ⟨recordMem, by simp [number]⟩
    obtain ⟨entry, entryMem, -⟩ := List.mem_flatMap.mp inBucket
    obtain ⟨entryMem, isNumber⟩ := List.mem_filter.mp entryMem
    have groupMem : (number, entries.filter (·.1 = number)) ∈ groupInto Prod.fst entries :=
      mem_groupInto.mpr ⟨⟨entry, entryMem, of_decide_eq_true isNumber⟩, rfl⟩
    exact ⟨_, List.mem_map_of_mem groupMem, rfl⟩

variable [LinearOrder Path] [DecidableEq Hash]

theorem mem_dedupeSubHashBucket {tables : List (List (Record Path Hash))} {delete : Path × ℕ} :
    delete ∈ dedupeSubHashBucket tables ↔
      ∃ record ∈ allButLast (·.identifierColumnsHashed) tables.flatten,
        (record.filePath, record.pos) = delete := by
  rw [dedupeSubHashBucket, List.flatten_filter_not_isEmpty]
  split_ifs with isEmpty
  · have noRecord : tables.flatten = [] := by
      rw [← List.flatten_filter_not_isEmpty, List.isEmpty_iff.mp isEmpty]
      rfl
    simp [noRecord, allButLast]
  · exact mem_writePositionDeleteFiles

/-- With sub-buckets, the last record of each hash in the list of files is kept. -/
theorem exists_dedupeSubBuckets (concat : RecordConcat Path Hash) (hash : Identifier → Hash)
    (hashInt : Hash → ℕ) (threshold : ℤ)
    {files : List (DataFileWithSequence Path Identifier)}
    (nonempty : ∃ file ∈ files, file.2.identifiers ≠ []) :
    ∃ deletes, dedupeSubBuckets concat hash hashInt threshold files = .ok deletes ∧ ∀ delete,
      delete ∈ deletes ↔ ∃ record ∈ allButLast (·.identifierColumnsHashed) (recordsOf hash files),
        (record.filePath, record.pos) = delete := by
  obtain ⟨file, fileMem, hasRecord⟩ := nonempty
  obtain ⟨buckets, isBuckets, index, isBucket, -, exists_bucket⟩ :=
    processSubBuckets_spec concat hash hashInt threshold (List.ne_nil_of_mem fileMem)
  have hasBucket : ¬buckets.isEmpty := by
    have hasRecords : recordsOf hash files ≠ [] := fun noRecord =>
      hasRecord (recordsOf_eq_nil_iff.mp noRecord file fileMem)
    obtain ⟨record, recordMem⟩ := List.exists_mem_of_ne_nil _ hasRecords
    obtain ⟨bucket, bucketMem, -⟩ := exists_bucket record recordMem
    rw [List.isEmpty_iff]
    exact List.ne_nil_of_mem bucketMem
  refine ⟨buckets.flatMap fun bucket => dedupeSubHashBucket bucket.2, ?_, fun delete => ?_⟩
  · simp only [dedupeSubBuckets, isBuckets, bind, Except.bind, if_neg hasBucket]
    rfl
  · have byHash : ∀ number (left right : Record Path Hash),
        left.identifierColumnsHashed = right.identifierColumnsHashed →
          decide (index left.identifierColumnsHashed = number) =
            decide (index right.identifierColumnsHashed = number) :=
      fun number left right sameHash => by rw [sameHash]
    simp only [List.mem_flatMap, mem_dedupeSubHashBucket]
    constructor
    · rintro ⟨bucket, bucketMem, record, recordMem, isDelete⟩
      rw [isBucket bucket bucketMem, allButLast_filter (byHash _)] at recordMem
      exact ⟨record, List.mem_of_mem_filter recordMem, isDelete⟩
    · rintro ⟨record, recordMem, isDelete⟩
      obtain ⟨bucket, bucketMem, isIndex⟩ :=
        exists_bucket record ((allButLast_sublist _ _).subset recordMem)
      refine ⟨bucket, bucketMem, record, ?_, isDelete⟩
      rw [isBucket bucket bucketMem, allButLast_filter (byHash _)]
      exact List.mem_filter.mpr ⟨recordMem, by simpa using isIndex⟩

theorem dedupeSubBuckets_eq_error {threshold : ℤ}
    {files : List (DataFileWithSequence Path Identifier)}
    (isEmpty : ∀ file ∈ files, file.2.identifiers = []) :
    dedupeSubBuckets concat hash hashInt threshold files = .error .valueError := by
  by_cases noFile : files = []
  · subst noFile
    rfl
  · obtain ⟨buckets, isBuckets, index, isBucket, hasRecords, -⟩ :=
      processSubBuckets_spec concat hash hashInt threshold noFile
    have noBucket : buckets.isEmpty := by
      rw [List.isEmpty_iff, List.eq_nil_iff_forall_not_mem]
      intro bucket bucketMem
      apply hasRecords bucket bucketMem
      rw [isBucket bucket bucketMem, recordsOf_eq_nil_iff.mpr isEmpty]
      rfl
    simp only [dedupeSubBuckets, isBuckets, bind, Except.bind, if_pos noBucket]

end Buckets

section LastFile

variable {hash : Identifier → Hash} [DecidableEq Path] [DecidableEq Hash]
  {files : List (DataFileWithSequence Path Identifier)}

/-- The last file of a list that has a record with the hash. -/
def lastFile (hash : Identifier → Hash) (files : List (DataFileWithSequence Path Identifier))
    (hashed : Hash) : Option (DataFileWithSequence Path Identifier) :=
  (files.filter fun file => hashed ∈ file.2.identifiers.map hash).getLast?

omit [DecidableEq Path] [DecidableEq Hash] in
theorem exists_record {file : DataFileWithSequence Path Identifier} {hashed : Hash}
    (hasHash : hashed ∈ file.2.identifiers.map hash) :
    ∃ record ∈ downloadDataTable hash file.2, record.identifierColumnsHashed = hashed := by
  obtain ⟨identifier, identifierMem, rfl⟩ := List.mem_map.mp hasHash
  obtain ⟨pos, isRecord⟩ := List.getElem?_of_mem identifierMem
  exact ⟨⟨hash identifier, file.2.filePath, pos⟩,
    mem_downloadDataTable.mpr ⟨rfl, identifier, isRecord, rfl⟩, rfl⟩

/-- What is deleted is in another file than the last one, or before a record of that. -/
theorem mem_allButLast_recordsOf (distinct : (files.map (·.2.filePath)).Nodup)
    {record : Record Path Hash} (recordMem : record ∈ recordsOf hash files)
    {last : DataFileWithSequence Path Identifier}
    (isLast : lastFile hash files record.identifierColumnsHashed = some last) :
    record ∈ allButLast (·.identifierColumnsHashed) (recordsOf hash files) ↔
      record.filePath ≠ last.2.filePath ∨ ∃ other ∈ recordsOf hash files,
        other.identifierColumnsHashed = record.identifierColumnsHashed ∧
          record.filePath = other.filePath ∧ record.pos < other.pos := by
  let listedBefore (left right : Path) : Prop :=
    (files.map (·.2.filePath)).idxOf left < (files.map (·.2.filePath)).idxOf right
  have asymm : ∀ left right, listedBefore left right → ¬listedBefore right left :=
    fun left right => lt_asymm
  have ordered : files.Pairwise fun left right =>
      listedBefore left.2.filePath right.2.filePath := by
    rw [List.pairwise_iff_getElem]
    intro i j iLt jLt less
    have idxOf : ∀ {k} (kLt : k < files.length),
        (files.map (·.2.filePath)).idxOf files[k].2.filePath = k := by
      intro k kLt
      have isPath := List.Nodup.idxOf_getElem distinct k (by simpa using kLt)
      rwa [List.getElem_map] at isPath
    simp only [listedBefore, idxOf iLt, idxOf jLt]
    exact less
  have asymmRecords : ∀ left right : Record Path Hash, RecordOrder listedBefore left right →
      ¬RecordOrder listedBefore right left := fun _ _ => RecordOrder.asymm asymm
  rw [mem_allButLast_iff asymmRecords (pairwise_flatMap_downloadDataTable listedBefore ordered),
    and_iff_right recordMem]
  have lastMem := List.mem_filter.mp (List.mem_of_getLast? isLast)
  have fileBefore : ∀ other ∈ recordsOf hash files,
      other.identifierColumnsHashed = record.identifierColumnsHashed →
        other.filePath = last.2.filePath ∨ listedBefore other.filePath last.2.filePath := by
    intro other otherMem sameHash
    obtain ⟨file, fileMem, otherMem⟩ := List.mem_flatMap.mp otherMem
    obtain ⟨isPath, identifier, isRecord, isHash⟩ := mem_downloadDataTable.mp otherMem
    have hasHash : record.identifierColumnsHashed ∈ file.2.identifiers.map hash := by
      rw [← sameHash, isHash]
      exact List.mem_map_of_mem (List.mem_of_getElem? isRecord)
    have inFilter : file ∈ files.filter fun file =>
        record.identifierColumnsHashed ∈ file.2.identifiers.map hash :=
      List.mem_filter.mpr ⟨fileMem, decide_eq_true hasHash⟩
    rw [isPath]
    rcases eq_or_before_getLast (ordered.sublist List.filter_sublist) isLast inFilter with
      rfl | isBefore
    · exact Or.inl rfl
    · exact Or.inr isBefore
  constructor
  · rintro ⟨other, otherMem, sameHash, listed | ⟨samePath, less⟩⟩
    · left
      intro isLastPath
      rw [isLastPath] at listed
      rcases fileBefore other otherMem sameHash with samePath | isBefore
      · rw [samePath] at listed
        exact lt_irrefl _ listed
      · exact asymm _ _ listed isBefore
    · exact Or.inr ⟨other, otherMem, sameHash, samePath, less⟩
  · rintro (differs | ⟨other, otherMem, sameHash, samePath, less⟩)
    · obtain ⟨other, otherMem, sameHash⟩ := exists_record (of_decide_eq_true lastMem.2)
      refine ⟨other, List.mem_flatMap.mpr ⟨last, lastMem.1, otherMem⟩, sameHash, Or.inl ?_⟩
      rw [(mem_downloadDataTable.mp otherMem).1]
      exact (fileBefore record recordMem rfl).resolve_left differs
    · exact ⟨other, otherMem, sameHash, Or.inr ⟨samePath, less⟩⟩

end LastFile

section Equality

variable [LinearOrder Path] [DecidableEq Hash]

/-- The same deletes were found, or both ways raised an exception. -/
def SameDeletes (left right : Except Error (List (Path × ℕ))) : Prop :=
  match left, right with
  | .ok left, .ok right => ∀ delete, delete ∈ left ↔ delete ∈ right
  | .error _, .error _ => True
  | _, _ => False

/-- For every hash the last file is the same in the list and in the order of writing. -/
def SameLastFiles (hash : Identifier → Hash) (files : List (DataFileWithSequence Path Identifier)) :
    Prop :=
  ∀ hashed, lastFile hash files hashed = lastFile hash (sortDataFilesMaintainingOrder files) hashed

variable (concat : RecordConcat Path Hash) (bucket : Bucket Path Identifier)
  (hash : Identifier → Hash)

theorem exists_dedupeDataFiles (nonempty : bucket.files ≠ []) :
    ∃ deletes, dedupeDataFiles concat hash bucket.files none = .ok deletes ∧ ∀ delete,
      delete ∈ deletes ↔ ∃ record ∈ allButLast (·.identifierColumnsHashed)
          (recordsOf hash (sortDataFilesMaintainingOrder bucket.files)),
        (record.filePath, record.pos) = delete := by
  have hasTable : ¬((sortDataFilesMaintainingOrder bucket.files).map fun file =>
      downloadDataTable hash file.2).isEmpty := by
    obtain ⟨file, fileMem⟩ := List.exists_mem_of_ne_nil _ nonempty
    rw [List.isEmpty_iff]
    exact List.ne_nil_of_mem (List.mem_map_of_mem (mem_sortDataFilesMaintainingOrder.mpr fileMem))
  have tables : concat.concatTables ((sortDataFilesMaintainingOrder bucket.files).map fun file =>
      downloadDataTable hash file.2) =
        .ok (recordsOf hash (sortDataFilesMaintainingOrder bucket.files)) :=
    concatTables_of_ne_nil concat (mt List.isEmpty_iff.mpr hasTable)
  refine ⟨_, ?_, fun delete => mem_writePositionDeleteFiles⟩
  simp only [dedupeDataFiles, Option.filter_none, Option.toList_none, List.nil_append, tables]
  rfl

omit [LinearOrder Path] [DecidableEq Hash] in
theorem nodup_recordsOf : (recordsOf hash bucket.files).Nodup := by
  exact List.Nodup.of_map _ (nodup_positions bucket.distinct)

/-- Sub-buckets change the result unless the last files are the same. -/
theorem deletes_iff {left right : List (Path × ℕ)}
    (isLeft : ∀ delete, delete ∈ left ↔ ∃ record ∈ allButLast (·.identifierColumnsHashed)
      (recordsOf hash bucket.files), (record.filePath, record.pos) = delete)
    (isRight : ∀ delete, delete ∈ right ↔ ∃ record ∈ allButLast (·.identifierColumnsHashed)
      (recordsOf hash (sortDataFilesMaintainingOrder bucket.files)),
        (record.filePath, record.pos) = delete) :
    (∀ delete, delete ∈ left ↔ delete ∈ right) ↔ SameLastFiles hash bucket.files := by
  let sorted := sortDataFilesMaintainingOrder bucket.files
  have perm : sorted.Perm bucket.files := List.perm_insertionSort _ _
  have sameRecords : ∀ record, record ∈ recordsOf hash sorted ↔
      record ∈ recordsOf hash bucket.files := fun record => (perm.flatMap_right _).mem_iff
  have distinct : (sorted.map (·.2.filePath)).Nodup :=
    (perm.map _).nodup_iff.mpr bucket.distinct
  have inLeft : ∀ record ∈ recordsOf hash bucket.files,
      ((record.filePath, record.pos) ∈ left ↔
        record ∈ allButLast (·.identifierColumnsHashed) (recordsOf hash bucket.files)) := by
    intro record recordMem
    rw [isLeft]
    constructor
    · rintro ⟨other, otherMem, sameRecord⟩
      obtain ⟨samePath, samePos⟩ := Prod.mk.inj sameRecord
      have inRecords := (allButLast_sublist _ _).subset otherMem
      exact record_eq bucket.distinct inRecords recordMem samePath samePos ▸ otherMem
    · exact fun deleted => ⟨record, deleted, rfl⟩
  have inRight : ∀ record ∈ recordsOf hash bucket.files,
      ((record.filePath, record.pos) ∈ right ↔
        record ∈ allButLast (·.identifierColumnsHashed) (recordsOf hash sorted)) := by
    intro record recordMem
    rw [isRight]
    constructor
    · rintro ⟨other, otherMem, sameRecord⟩
      obtain ⟨samePath, samePos⟩ := Prod.mk.inj sameRecord
      have inRecords := (sameRecords other).mp ((allButLast_sublist _ _).subset otherMem)
      exact record_eq bucket.distinct inRecords recordMem samePath samePos ▸ otherMem
    · exact fun deleted => ⟨record, deleted, rfl⟩
  constructor
  · intro same hashed
    rcases isLast : lastFile hash bucket.files hashed with _ | last
    · symm
      rw [lastFile, List.getLast?_eq_none_iff, List.filter_eq_nil_iff] at isLast ⊢
      exact fun file fileMem => isLast file (perm.mem_iff.mp fileMem)
    · obtain ⟨lastMem, hasHash⟩ := List.mem_filter.mp (List.mem_of_getLast? isLast)
      obtain ⟨first, firstMem, isFirst⟩ := exists_record (of_decide_eq_true hasHash)
      have keyMem : hashed ∈ (recordsOf hash bucket.files).map (·.identifierColumnsHashed) :=
        List.mem_map.mpr ⟨first, List.mem_flatMap.mpr ⟨last, lastMem, firstMem⟩, isFirst⟩
      obtain ⟨record, isKept, rfl⟩ := List.mem_map.mp (mem_map_keepLast.mpr keyMem)
      have recordMem := (keepLast_sublist _ _).subset isKept
      have notDeleted : record ∉
          allButLast (·.identifierColumnsHashed) (recordsOf hash bucket.files) := by
        have nodup := (keepLast_append_allButLast_perm (·.identifierColumnsHashed)
          (recordsOf hash bucket.files)).nodup_iff.mpr (nodup_recordsOf bucket hash)
        exact fun deleted => (List.disjoint_of_nodup_append nodup) isKept deleted
      have notDeletedSorted : record ∉
          allButLast (·.identifierColumnsHashed) (recordsOf hash sorted) := by
        rwa [← inRight record recordMem, ← same, inLeft record recordMem]
      have inSorted : last ∈ sorted.filter fun file =>
          record.identifierColumnsHashed ∈ file.2.identifiers.map hash :=
        List.mem_filter.mpr ⟨perm.mem_iff.mpr lastMem, hasHash⟩
      rcases isLastSorted : lastFile hash sorted record.identifierColumnsHashed with
        _ | lastSorted
      · rw [lastFile, List.getLast?_eq_none_iff] at isLastSorted
        rw [isLastSorted] at inSorted
        cases inSorted
      · rw [mem_allButLast_recordsOf bucket.distinct recordMem isLast, not_or, not_not]
          at notDeleted
        rw [mem_allButLast_recordsOf distinct ((sameRecords record).mpr recordMem) isLastSorted,
          not_or, not_not] at notDeletedSorted
        have lastSortedMem := perm.mem_iff.mp
          (List.mem_of_mem_filter (List.mem_of_getLast? isLastSorted))
        exact congrArg some (List.inj_on_of_nodup_map bucket.distinct lastMem lastSortedMem
          (notDeleted.1.symm.trans notDeletedSorted.1))
  · intro sameLast
    have sameDeleted : ∀ record ∈ recordsOf hash bucket.files,
        (record ∈ allButLast (·.identifierColumnsHashed) (recordsOf hash bucket.files) ↔
          record ∈ allButLast (·.identifierColumnsHashed) (recordsOf hash sorted)) := by
      intro record recordMem
      obtain ⟨file, fileMem, inFile⟩ := List.mem_flatMap.mp recordMem
      obtain ⟨-, identifier, isRecord, isHash⟩ := mem_downloadDataTable.mp inFile
      have inFilter : file ∈ bucket.files.filter fun file =>
          record.identifierColumnsHashed ∈ file.2.identifiers.map hash := by
        refine List.mem_filter.mpr ⟨fileMem, decide_eq_true ?_⟩
        rw [isHash]
        exact List.mem_map_of_mem (List.mem_of_getElem? isRecord)
      rcases isLast : lastFile hash bucket.files record.identifierColumnsHashed with _ | last
      · rw [lastFile, List.getLast?_eq_none_iff] at isLast
        rw [isLast] at inFilter
        cases inFilter
      · rw [mem_allButLast_recordsOf bucket.distinct recordMem isLast,
          mem_allButLast_recordsOf distinct ((sameRecords record).mpr recordMem)
            ((sameLast _).symm.trans isLast)]
        simp only [sameRecords]
    intro delete
    rw [isLeft, isRight]
    constructor
    · rintro ⟨record, recordMem, isDelete⟩
      have inRecords := (allButLast_sublist _ _).subset recordMem
      exact ⟨record, (sameDeleted record inRecords).mp recordMem, isDelete⟩
    · rintro ⟨record, recordMem, isDelete⟩
      have inRecords := (sameRecords record).mp ((allButLast_sublist _ _).subset recordMem)
      exact ⟨record, (sameDeleted record inRecords).mpr recordMem, isDelete⟩

/--
Sub-buckets find the same deletes if and only if some file has a record, or there is no file
at all, and for every hash the last file in the list is the one that was written last.
-/
theorem dedupeSubBuckets_iff (concat : RecordConcat Path Hash)
    (bucket : Bucket Path Identifier) (hash : Identifier → Hash)
    (hashInt : Hash → ℕ) (threshold : ℤ) :
    SameDeletes (dedupeSubBuckets concat hash hashInt threshold bucket.files)
        (dedupeDataFiles concat hash bucket.files none) ↔
      (bucket.files = [] ∨ ∃ file ∈ bucket.files, file.2.identifiers ≠ []) ∧
        SameLastFiles hash bucket.files := by
  by_cases noFile : bucket.files = []
  · have same : SameLastFiles hash bucket.files := by
      intro hashed
      rw [noFile]
      rfl
    have raises :
        dedupeSubBuckets concat hash hashInt threshold bucket.files = .error .valueError :=
      dedupeSubBuckets_eq_error (by simp [noFile])
    have raisesToo : dedupeDataFiles concat hash bucket.files none = .error .arrowInvalid := by
      rw [noFile]
      exact congrArg (· >>= _) concat.nil
    rw [raises, raisesToo]
    exact iff_of_true trivial ⟨Or.inl noFile, same⟩
  · obtain ⟨deletes, isDeletes, mem_deletes⟩ := exists_dedupeDataFiles concat bucket hash noFile
    rw [isDeletes, or_iff_right noFile]
    by_cases nonempty : ∃ file ∈ bucket.files, file.2.identifiers ≠ []
    · obtain ⟨found, isFound, mem_found⟩ :=
        exists_dedupeSubBuckets concat hash hashInt threshold nonempty
      rw [isFound, and_iff_right nonempty]
      exact deletes_iff bucket hash mem_found mem_deletes
    · have raises :
          dedupeSubBuckets concat hash hashInt threshold bucket.files = .error .valueError :=
        dedupeSubBuckets_eq_error (by simpa using nonempty)
      rw [raises]
      simp [SameDeletes, nonempty]

/-- Two files with one identifier, of which the one that was written last is listed first. -/
def newestFirst : Bucket ℕ ℕ where
  files := [(2, ⟨20, 1, [7]⟩), (1, ⟨10, 1, [7]⟩)]
  distinct := by decide

/-- With sub-buckets the newest record is deleted. -/
theorem not_dedupeSubBuckets :
    ¬SameDeletes (dedupeSubBuckets (concatRecords ℕ ℕ) id id 1 newestFirst.files)
      (dedupeDataFiles (concatRecords ℕ ℕ) id newestFirst.files none) := by
  have found : dedupeSubBuckets (concatRecords ℕ ℕ) id id 1 newestFirst.files = .ok [(20, 0)] := rfl
  have expected : dedupeDataFiles (concatRecords ℕ ℕ) id newestFirst.files none = .ok [(10, 0)] :=
    rfl
  rw [found, expected]
  intro same
  have isDeleted := (same (20, 0)).mp (List.mem_singleton_self _)
  simp at isDeleted

end Equality

end Deltacat.Compute.Converter
