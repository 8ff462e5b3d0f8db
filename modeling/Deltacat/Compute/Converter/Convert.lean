import Deltacat.Compute.Converter.Dedupe
import Deltacat.Library.Procedure

/-!
# Converting equality deletes

An equality delete file deletes the records of its identifiers from the data files of
smaller sequence numbers. The data files of a bucket are grouped by the delete files that
apply to them, the deleted records of each group are found, and what remains of the last
group is deduplicated together with the files to which no delete file applies.

What remains of the other groups is forgotten (`IsLost`), so that a record in one of them
stays although there is a newer one with its identifier.
-/

namespace Deltacat.Compute.Converter

open Deltacat.Library Deltacat.Utils

universe u

variable {Partition Path Identifier Hash : Type u}

/-- The order in which a `set` is iterated over. -/
structure SetOrder (File : Type u) [DecidableEq File] where
  iterate : List File → List File
  perm : ∀ files, (iterate files).Perm files.dedup

/-- The files of a bucket. Groups that were not set are empty. -/
structure ConvertInputFiles (Path Identifier : Type u) where
  allDataFilesForDedupe : List (DataFileWithSequence Path Identifier)
  applicableDataFiles : List (List (DataFileWithSequence Path Identifier))
  applicableEqualityDeleteFiles : List (List (DataFileWithSequence Path Identifier))

def sortBySequenceNumber (files : List (DataFileWithSequence Path Identifier)) :
    List (DataFileWithSequence Path Identifier) :=
  files.insertionSort fun left right => left.1 ≤ right.1

/-- The equality delete files that apply to a data file. -/
def applicableEqDeletes (equalityDeleteFiles : List (DataFileWithSequence Path Identifier))
    (dataFile : DataFileWithSequence Path Identifier) :
    List (DataFileWithSequence Path Identifier) :=
  equalityDeleteFiles.filter fun eqFile => eqFile.1 > dataFile.1

section Grouping

variable [DecidableEq Path] [DecidableEq Identifier]
  (setOrder : SetOrder (DataFileWithSequence Path Identifier))

def checkDataFilesSequenceNumber
    (dataFiles equalityDeleteFiles : List (DataFileWithSequence Path Identifier)) :
    List (List (DataFileWithSequence Path Identifier)) ×
      List (List (DataFileWithSequence Path Identifier)) :=
  let dataFiles := sortBySequenceNumber dataFiles
  let equalityDeleteFiles := sortBySequenceNumber equalityDeleteFiles
  let mergedFileDict := groupInto (applicableEqDeletes equalityDeleteFiles)
    (dataFiles.filter fun file => !(applicableEqDeletes equalityDeleteFiles file).isEmpty)
  (mergedFileDict.map Prod.fst, mergedFileDict.map fun group => setOrder.iterate group.2)

/-- The input for each partition value; the files are sorted in place on the way. -/
def groupAllFilesToEachBucket
    (dataFileDict equalityDeleteDict :
      Partition → Option (List (DataFileWithSequence Path Identifier)))
    (partitionValue : Partition) : Option (ConvertInputFiles Path Identifier) :=
  (dataFileDict partitionValue).map fun files =>
    match equalityDeleteDict partitionValue with
    | none => ⟨files, [], []⟩
    | some equalityDeleteFiles =>
        let groups := checkDataFilesSequenceNumber setOrder files equalityDeleteFiles
        ⟨sortBySequenceNumber files, groups.2, groups.1⟩

/-- The files that were not downloaded yet. -/
def getAdditionalApplicableDataFiles
    (allDataFiles dataFilesDownloaded : List (DataFileWithSequence Path Identifier)) :
    Except Error (List (DataFileWithSequence Path Identifier)) :=
  if allDataFiles.dedup.length < dataFilesDownloaded.dedup.length then .error .assertionError
  else if dataFilesDownloaded.isEmpty then .ok allDataFiles
  else .ok (setOrder.iterate (allDataFiles.filter fun file => file ∉ dataFilesDownloaded))

end Grouping

section Converting

variable [DecidableEq Hash]

/-- The deleted and the remaining rows. Neither is known if one of the tables is empty. -/
def filterRowsToBeDeleted (equalityDeleteTable dataFileTable : List (Record Path Hash)) :
    Option (List (Record Path Hash)) × Option (List (Record Path Hash)) :=
  if ¬equalityDeleteTable.isEmpty ∧ ¬dataFileTable.isEmpty then
    let isDeleted (record : Record Path Hash) : Bool :=
      record.identifierColumnsHashed ∈ equalityDeleteTable.map (·.identifierColumnsHashed)
    (some (dataFileTable.filter isDeleted), some (dataFileTable.filter fun row => !isDeleted row))
  else (none, none)

/-- Empty tables are passed on as missing ones. -/
def computePosDeleteConvertingEqualityDeletes
    (equalityDeleteTable dataFileTable : List (Record Path Hash)) :
    Option (List (Record Path Hash)) × Option (List (Record Path Hash)) :=
  let (newPositionDeleteTable, remainingDataTable) :=
    filterRowsToBeDeleted equalityDeleteTable dataFileTable
  if !(newPositionDeleteTable.getD []).isEmpty then (newPositionDeleteTable, remainingDataTable)
  else if (remainingDataTable.getD []).isEmpty then (none, none)
  else (none, remainingDataTable)

variable [LinearOrder Path] (concat : RecordConcat Path Hash) (hash : Identifier → Hash)

/-- What remains is assigned anew for each group, and that of the last one is returned. -/
def computePosDeleteWithLimitedParallelism
    (dataFilesList equalityDeleteFilesList : List (List (DataFileWithSequence Path Identifier))) :
    Except Error (Option (List (Record Path Hash)) × Option (List (Record Path Hash))) := do
  if dataFilesList.length ≠ equalityDeleteFilesList.length then .error .assertionError
  else
    let results ← (dataFilesList.zip equalityDeleteFilesList).mapM fun group => do
      let dataFiles := sortDataFilesMaintainingOrder group.1
      let dataTableTotal ←
        concat.concatTables (dataFiles.map fun file => downloadDataTable hash file.2)
      let equalityDeleteTableTotal ←
        concat.concatTables (group.2.map fun file => downloadDataTable hash file.2)
      return computePosDeleteConvertingEqualityDeletes equalityDeleteTableTotal dataTableTotal
    let newPosDeleteTables := results.filterMap Prod.fst
    match results.getLast? with
    | none => .error .unboundLocalError
    | some (_, remainingDataTable) =>
        return (if newPosDeleteTables.isEmpty then none else some newPosDeleteTables.flatten,
          remainingDataTable)

/-- The first part of `convert`: what the equality deletes delete, and what remains. -/
def convertEqualityDeletes (convertInputFiles : ConvertInputFiles Path Identifier) :
    Except Error (Option (List (Record Path Hash)) × Option (List (Record Path Hash))) :=
  if convertInputFiles.applicableEqualityDeleteFiles.isEmpty then .ok (none, none)
  else computePosDeleteWithLimitedParallelism concat hash convertInputFiles.applicableDataFiles
    convertInputFiles.applicableEqualityDeleteFiles

variable [DecidableEq Identifier] (setOrder : SetOrder (DataFileWithSequence Path Identifier))

/--
The rows of the position delete files. The result needs the size of the deduplicated
files, which is only assigned if the uniqueness of primary keys is enforced.
-/
def convert (enforcePrimaryKeyUniqueness : Bool)
    (convertInputFiles : ConvertInputFiles Path Identifier) : Except Error (List (Path × ℕ)) := do
  let (posDeletes, remainingDataTable) ← convertEqualityDeletes concat hash convertInputFiles
  if enforcePrimaryKeyUniqueness then
    let dataFilesToDedupe ← getAdditionalApplicableDataFiles setOrder
      convertInputFiles.allDataFilesForDedupe convertInputFiles.applicableDataFiles.flatten
    let dedupePosDeletes ← dedupeDataFiles concat hash dataFilesToDedupe remainingDataTable
    return writePositionDeleteFiles (posDeletes.getD []) ++ dedupePosDeletes
  else .error .unboundLocalError

end Converting

section Applicable

variable {deletes : List (DataFileWithSequence Path Identifier)}
  {file : DataFileWithSequence Path Identifier}

theorem mem_applicableEqDeletes {delete : DataFileWithSequence Path Identifier} :
    delete ∈ applicableEqDeletes deletes file ↔ delete ∈ deletes ∧ file.1 < delete.1 := by
  simp [applicableEqDeletes]

/-- To a later file fewer delete files apply. -/
theorem applicableEqDeletes_sublist {later : DataFileWithSequence Path Identifier}
    (le : file.1 ≤ later.1) :
    (applicableEqDeletes deletes later).Sublist (applicableEqDeletes deletes file) := by
  apply List.monotone_filter_right
  intro delete isLater
  exact decide_eq_true (le.trans_lt (of_decide_eq_true isLater))

theorem mem_sortBySequenceNumber {files : List (DataFileWithSequence Path Identifier)} :
    file ∈ sortBySequenceNumber files ↔ file ∈ files :=
  List.mem_insertionSort _

theorem applicableEqDeletes_sort_eq_nil_iff :
    applicableEqDeletes (sortBySequenceNumber deletes) file = [] ↔
      ∀ delete ∈ deletes, ¬file.1 < delete.1 := by
  simp only [List.eq_nil_iff_forall_not_mem, mem_applicableEqDeletes, mem_sortBySequenceNumber,
    not_and]

variable [DecidableEq Hash] (hash : Identifier → Hash)
  (deletes : List (DataFileWithSequence Path Identifier))
  (file : DataFileWithSequence Path Identifier)

/-- The hash of a row is in an equality delete file that applies to the file of the row. -/
def IsDeleted (record : Record Path Hash) : Prop :=
  ∃ delete ∈ deletes, file.1 < delete.1 ∧
    record.identifierColumnsHashed ∈ delete.2.identifiers.map hash

instance (record : Record Path Hash) : Decidable (IsDeleted hash deletes file record) :=
  inferInstanceAs (Decidable (∃ _ ∈ _, _))

def deletedRows : List (Record Path Hash) :=
  (downloadDataTable hash file.2).filter (IsDeleted hash deletes file ·)

def remainingRows : List (Record Path Hash) :=
  (downloadDataTable hash file.2).filter (¬IsDeleted hash deletes file ·)

end Applicable

section Groups

variable [DecidableEq Path] [DecidableEq Identifier]
  (setOrder : SetOrder (DataFileWithSequence Path Identifier))
  (files deletes : List (DataFileWithSequence Path Identifier))

/-- The groups, each with the delete files that apply to it. -/
def bucketGroups :
    List (List (DataFileWithSequence Path Identifier) ×
      List (DataFileWithSequence Path Identifier)) :=
  let equalityDeleteFiles := sortBySequenceNumber deletes
  (groupInto (applicableEqDeletes equalityDeleteFiles)
    ((sortBySequenceNumber files).filter fun file =>
      !(applicableEqDeletes equalityDeleteFiles file).isEmpty)).map fun group =>
        (group.1, setOrder.iterate group.2)

theorem checkDataFilesSequenceNumber_eq :
    checkDataFilesSequenceNumber setOrder files deletes =
      ((bucketGroups setOrder files deletes).map Prod.fst,
        (bucketGroups setOrder files deletes).map Prod.snd) := by
  simp [checkDataFilesSequenceNumber, bucketGroups, Function.comp_def]

variable {setOrder files deletes}

theorem mem_bucketGroups
    {group : List (DataFileWithSequence Path Identifier) ×
      List (DataFileWithSequence Path Identifier)}
    (groupMem : group ∈ bucketGroups setOrder files deletes) :
    group.1 ≠ [] ∧ group.2 ≠ [] ∧ ∀ file, file ∈ group.2 ↔
      file ∈ files ∧ applicableEqDeletes (sortBySequenceNumber deletes) file = group.1 := by
  obtain ⟨⟨key, members⟩, memGroupInto, rfl⟩ := List.mem_map.mp groupMem
  obtain ⟨⟨file, fileMem, isKey⟩, isMembers⟩ := mem_groupInto.mp memGroupInto
  obtain ⟨fileMem, hasDeletes⟩ := List.mem_filter.mp fileMem
  have keyNonempty : key ≠ [] := by
    intro isNil
    rw [show _ = key from isKey, isNil] at hasDeletes
    cases hasDeletes
  have mem_members : ∀ file, file ∈ setOrder.iterate members ↔
      file ∈ files ∧ applicableEqDeletes (sortBySequenceNumber deletes) file = key := by
    intro file
    rw [(setOrder.perm members).mem_iff, List.mem_dedup, show members = _ from isMembers,
      List.mem_filter, List.mem_filter, mem_sortBySequenceNumber, decide_eq_true_iff]
    constructor
    · rintro ⟨⟨fileMem, -⟩, isKey⟩
      exact ⟨fileMem, isKey⟩
    · rintro ⟨fileMem, isKey⟩
      refine ⟨⟨fileMem, ?_⟩, isKey⟩
      rw [isKey]
      simpa using keyNonempty
  refine ⟨keyNonempty, ?_, mem_members⟩
  exact List.ne_nil_of_mem ((mem_members file).mpr ⟨mem_sortBySequenceNumber.mp fileMem, isKey⟩)

/-- Every file to which a delete file applies is in a group. -/
theorem exists_bucketGroup (setOrder : SetOrder (DataFileWithSequence Path Identifier))
    {file : DataFileWithSequence Path Identifier} (fileMem : file ∈ files)
    (hasDelete : ∃ delete ∈ deletes, file.1 < delete.1) :
    ∃ group ∈ bucketGroups setOrder files deletes,
      group.1 = applicableEqDeletes (sortBySequenceNumber deletes) file := by
  let key := applicableEqDeletes (sortBySequenceNumber deletes) file
  have keyNonempty : key ≠ [] := by
    obtain ⟨delete, deleteMem, less⟩ := hasDelete
    exact fun isNil => applicableEqDeletes_sort_eq_nil_iff.mp isNil delete deleteMem less
  have inFiltered : file ∈ (sortBySequenceNumber files).filter fun file =>
      !(applicableEqDeletes (sortBySequenceNumber deletes) file).isEmpty :=
    List.mem_filter.mpr ⟨mem_sortBySequenceNumber.mpr fileMem, by simpa using keyNonempty⟩
  have keyMem : key ∈ distinctKeys (applicableEqDeletes (sortBySequenceNumber deletes)) _ :=
    mem_distinctKeys.mpr ⟨file, inFiltered, rfl⟩
  rw [← map_fst_groupInto] at keyMem
  obtain ⟨group, groupMem, isKey⟩ := List.mem_map.mp keyMem
  exact ⟨_, List.mem_map_of_mem groupMem, isKey⟩

/-- The files in the groups are those to which a delete file applies. -/
theorem exists_mem_bucketGroup {file : DataFileWithSequence Path Identifier} :
    (∃ group ∈ bucketGroups setOrder files deletes, file ∈ group.2) ↔
      file ∈ files ∧ ∃ delete ∈ deletes, file.1 < delete.1 := by
  constructor
  · rintro ⟨group, groupMem, inGroup⟩
    obtain ⟨someDelete, -, mem_group⟩ := mem_bucketGroups groupMem
    obtain ⟨fileMem, isKey⟩ := (mem_group file).mp inGroup
    obtain ⟨delete, deleteMem⟩ := List.exists_mem_of_ne_nil _ someDelete
    rw [← isKey, mem_applicableEqDeletes, mem_sortBySequenceNumber] at deleteMem
    exact ⟨fileMem, delete, deleteMem⟩
  · rintro ⟨fileMem, hasDelete⟩
    obtain ⟨group, groupMem, isKey⟩ := exists_bucketGroup setOrder fileMem hasDelete
    exact ⟨group, groupMem, ((mem_bucketGroups groupMem).2.2 file).mpr ⟨fileMem, isKey.symm⟩⟩

theorem nodup_bucketGroup
    {group : List (DataFileWithSequence Path Identifier) ×
      List (DataFileWithSequence Path Identifier)}
    (groupMem : group ∈ bucketGroups setOrder files deletes) : group.2.Nodup := by
  obtain ⟨⟨key, members⟩, -, rfl⟩ := List.mem_map.mp groupMem
  exact (setOrder.perm members).nodup_iff.mpr (List.nodup_dedup members)

theorem nodup_map_fst_bucketGroups :
    ((bucketGroups setOrder files deletes).map Prod.fst).Nodup := by
  rw [bucketGroups, List.map_map]
  exact (congrArg List.Nodup map_fst_groupInto).mpr nodup_distinctKeys

/-- The last group is the one of the newest file to which a delete file applies. -/
theorem getLast?_bucketGroups
    {last : List (DataFileWithSequence Path Identifier) ×
      List (DataFileWithSequence Path Identifier)}
    (isLast : (bucketGroups setOrder files deletes).getLast? = some last)
    {file : DataFileWithSequence Path Identifier} (fileMem : file ∈ files)
    (hasDelete : ∃ delete ∈ deletes, file.1 < delete.1) :
    last.1.Sublist (applicableEqDeletes (sortBySequenceNumber deletes) file) := by
  let key := applicableEqDeletes (sortBySequenceNumber deletes)
  let grouped := (sortBySequenceNumber files).filter fun file => !(key file).isEmpty
  have sorted : grouped.Pairwise fun left right => left.1 ≤ right.1 :=
    (List.pairwise_insertionSort (fun left right : DataFileWithSequence Path Identifier =>
      left.1 ≤ right.1) files).sublist List.filter_sublist
  have ordered : grouped.Pairwise fun left right => (key right).Sublist (key left) :=
    sorted.imp fun le => applicableEqDeletes_sublist le
  have lastKey : (distinctKeys key grouped).getLast? = grouped.getLast?.map key :=
    getLast?_distinctKeys (fun _ _ forth back => List.Sublist.antisymm back forth) ordered
  have isKey : grouped.getLast?.map key = some last.1 := by
    rw [← lastKey, ← map_fst_groupInto]
    have mapped := congrArg (Option.map Prod.fst) isLast
    rw [bucketGroups, ← List.getLast?_map, List.map_map] at mapped
    exact mapped
  obtain ⟨newest, isNewest, isKey⟩ := Option.map_eq_some_iff.mp isKey
  have fileMem : file ∈ grouped := by
    refine List.mem_filter.mpr ⟨mem_sortBySequenceNumber.mpr fileMem, ?_⟩
    obtain ⟨delete, deleteMem, less⟩ := hasDelete
    have keyNonempty : key file ≠ [] :=
      fun isNil => applicableEqDeletes_sort_eq_nil_iff.mp isNil delete deleteMem less
    simpa using keyNonempty
  rw [← isKey]
  rcases eq_or_before_getLast ordered isNewest fileMem with rfl | sublist
  · exact List.Sublist.refl _
  · exact sublist

end Groups

section Rows

variable [DecidableEq Hash] {hash : Identifier → Hash}
  {deletes : List (DataFileWithSequence Path Identifier)}

theorem computePosDeleteConvertingEqualityDeletes_spec
    (equalityDeleteTable dataFileTable : List (Record Path Hash)) :
    let isDeleted (record : Record Path Hash) : Bool :=
      record.identifierColumnsHashed ∈ equalityDeleteTable.map (·.identifierColumnsHashed)
    let tables := computePosDeleteConvertingEqualityDeletes equalityDeleteTable dataFileTable
    tables.1.getD [] = dataFileTable.filter isDeleted ∧
      tables.2.getD [] = if equalityDeleteTable = [] then []
        else dataFileTable.filter fun record => !isDeleted record := by
  intro isDeleted tables
  simp only [tables, computePosDeleteConvertingEqualityDeletes, filterRowsToBeDeleted]
  by_cases noDelete : equalityDeleteTable = []
  · simp [noDelete, isDeleted]
  · by_cases noData : dataFileTable = []
    · simp [noData]
    · have known : ¬equalityDeleteTable.isEmpty ∧ ¬dataFileTable.isEmpty := by
        simp [noDelete, noData]
      rw [if_pos known, if_neg noDelete]
      dsimp only [Option.getD_some]
      split_ifs with someDeleted noneRemaining
      · exact ⟨rfl, rfl⟩
      · rw [Bool.not_eq_true', Bool.not_eq_false] at someDeleted
        exact ⟨(List.isEmpty_iff.mp someDeleted).symm, (List.isEmpty_iff.mp noneRemaining).symm⟩
      · rw [Bool.not_eq_true', Bool.not_eq_false] at someDeleted
        exact ⟨(List.isEmpty_iff.mp someDeleted).symm, rfl⟩

omit [DecidableEq Hash] in
/-- Whether a row is deleted can be read off the table of the applicable delete files. -/
theorem mem_map_recordsOf_applicableEqDeletes {file : DataFileWithSequence Path Identifier}
    {record : Record Path Hash} :
    record.identifierColumnsHashed ∈
        (recordsOf hash (applicableEqDeletes (sortBySequenceNumber deletes) file)).map
          (·.identifierColumnsHashed) ↔
      IsDeleted hash deletes file record := by
  have hashes : ∀ delete : DataFileWithSequence Path Identifier,
      (downloadDataTable hash delete.2).map (·.identifierColumnsHashed) =
        delete.2.identifiers.map hash := by
    intro delete
    rw [downloadDataTable, List.map_map]
    calc delete.2.identifiers.zipIdx.map _
      _ = (delete.2.identifiers.zipIdx.map Prod.fst).map hash := List.map_map.symm
      _ = delete.2.identifiers.map hash := by rw [List.zipIdx_map_fst]
  simp only [List.map_flatMap, hashes, List.mem_flatMap, mem_applicableEqDeletes,
    mem_sortBySequenceNumber, IsDeleted, and_assoc]

/-- The tables of a group. -/
theorem filter_recordsOf_group (hash : Identifier → Hash)
    {key group : List (DataFileWithSequence Path Identifier)}
    (isKey : ∀ file ∈ group,
      applicableEqDeletes (sortBySequenceNumber deletes) file = key) :
    let isDeleted (record : Record Path Hash) : Bool :=
      record.identifierColumnsHashed ∈ (recordsOf hash key).map (·.identifierColumnsHashed)
    (recordsOf hash group).filter isDeleted = group.flatMap (deletedRows hash deletes) ∧
      (recordsOf hash group).filter (fun record => !isDeleted record) =
        group.flatMap (remainingRows hash deletes) := by
  intro isDeleted
  have isDeleted_eq : ∀ file ∈ group, ∀ record : Record Path Hash,
      isDeleted record = decide (IsDeleted hash deletes file record) := by
    intro file fileMem record
    apply decide_eq_decide.mpr
    rw [← isKey file fileMem]
    exact mem_map_recordsOf_applicableEqDeletes
  rw [recordsOf, List.filter_flatMap, List.filter_flatMap]
  constructor
  · apply List.flatMap_congr
    intro file fileMem
    exact List.filter_congr fun record _ => isDeleted_eq file fileMem record
  · apply List.flatMap_congr
    intro file fileMem
    apply List.filter_congr
    intro record _
    rw [isDeleted_eq file fileMem, decide_not]

variable [LinearOrder Path] [DecidableEq Identifier]
  {setOrder : SetOrder (DataFileWithSequence Path Identifier)}
  {files : List (DataFileWithSequence Path Identifier)}

omit [DecidableEq Identifier] in
/-- The step of each group succeeds, so that all of them do. -/
theorem computePosDeleteWithLimitedParallelism_eq (concat : RecordConcat Path Hash)
    (hash : Identifier → Hash) {Group : Type u}
    {dataFiles deleteFiles : Group → List (DataFileWithSequence Path Identifier)}
    {groups : List Group}
    (nonempty : ∀ group ∈ groups, dataFiles group ≠ [] ∧ deleteFiles group ≠ []) {last : Group}
    (isLast : groups.getLast? = some last) :
    let tables (group : Group) := computePosDeleteConvertingEqualityDeletes
      (recordsOf hash (deleteFiles group))
      (recordsOf hash (sortDataFilesMaintainingOrder (dataFiles group)))
    ∃ posDeletes, computePosDeleteWithLimitedParallelism concat hash (groups.map dataFiles)
          (groups.map deleteFiles) = .ok (posDeletes, (tables last).2) ∧
        posDeletes.getD [] = groups.flatMap fun group => (tables group).1.getD [] := by
  intro tables
  let newPosDeleteTables := (groups.map tables).filterMap Prod.fst
  have flatten : newPosDeleteTables.flatten =
      groups.flatMap fun group => (tables group).1.getD [] := by
    simp only [newPosDeleteTables]
    clear nonempty isLast
    induction groups with
    | nil => rfl
    | cons group groups ih =>
        rw [List.map_cons, List.filterMap_cons, List.flatMap_cons, ← ih]
        rcases (tables group).1 with _ | table
        · rfl
        · rfl
  refine ⟨if newPosDeleteTables.isEmpty then none else some newPosDeleteTables.flatten, ?_, ?_⟩
  · have sameLength : ¬(groups.map dataFiles).length ≠ (groups.map deleteFiles).length := by simp
    have results : (groups.mapM fun group => do
        let dataTable ← concat.concatTables ((sortDataFilesMaintainingOrder (dataFiles group)).map
          fun file : DataFileWithSequence Path Identifier => downloadDataTable hash file.2)
        let deleteTable ← concat.concatTables ((deleteFiles group).map
          fun file : DataFileWithSequence Path Identifier => downloadDataTable hash file.2)
        return computePosDeleteConvertingEqualityDeletes deleteTable dataTable) =
          .ok (groups.map tables) := by
      apply except_mapM_eq_ok
      intro group groupMem
      obtain ⟨someData, someDelete⟩ := nonempty group groupMem
      have someSorted : sortDataFilesMaintainingOrder (dataFiles group) ≠ [] := by
        obtain ⟨file, fileMem⟩ := List.exists_mem_of_ne_nil _ someData
        exact List.ne_nil_of_mem (mem_sortDataFilesMaintainingOrder.mpr fileMem)
      rw [concatTables_of_ne_nil concat (by simpa using someSorted),
        concatTables_of_ne_nil concat (by simpa using someDelete)]
      rfl
    have lastTables : (groups.map tables).getLast? = some (tables last) := by
      rw [List.getLast?_map, isLast]
      rfl
    rw [computePosDeleteWithLimitedParallelism, if_neg sameLength, List.zip_map', List.mapM_map]
    refine (congrArg (· >>= _) results).trans ?_
    simp only [bind, Except.bind, lastTables]
    rfl
  · rw [← flatten]
    split_ifs with noTable
    · rw [List.isEmpty_iff.mp noTable]
      rfl
    · rfl

/-- All deleted rows are found, but only what remains of the last group is known. -/
theorem exists_convertEqualityDeletes (concat : RecordConcat Path Hash)
    (hash : Identifier → Hash)
    (setOrder : SetOrder (DataFileWithSequence Path Identifier))
    (files deletes allFiles : List (DataFileWithSequence Path Identifier)) :
    let groups := bucketGroups setOrder files deletes
    ∃ posDeletes remaining,
      convertEqualityDeletes concat hash ⟨allFiles, groups.map Prod.snd, groups.map Prod.fst⟩ =
          .ok (posDeletes, remaining) ∧
        posDeletes.getD [] = (groups.flatMap fun group =>
          sortDataFilesMaintainingOrder group.2).flatMap (deletedRows hash deletes) ∧
        remaining.getD [] = match groups.getLast? with
          | none => []
          | some last => if recordsOf hash last.1 = [] then []
              else (sortDataFilesMaintainingOrder last.2).flatMap (remainingRows hash deletes) := by
  intro groups
  rcases isLast : groups.getLast? with _ | last
  · have noGroup : groups = [] := List.getLast?_eq_none_iff.mp isLast
    refine ⟨none, none, ?_, ?_, rfl⟩
    · rw [noGroup]
      rfl
    · rw [noGroup]
      rfl
  · let tables (group : List (DataFileWithSequence Path Identifier) ×
        List (DataFileWithSequence Path Identifier)) :=
      computePosDeleteConvertingEqualityDeletes (recordsOf hash group.1)
        (recordsOf hash (sortDataFilesMaintainingOrder group.2))
    have spec : ∀ group ∈ groups, (tables group).1.getD [] =
          (sortDataFilesMaintainingOrder group.2).flatMap (deletedRows hash deletes) ∧
        (tables group).2.getD [] = if recordsOf hash group.1 = [] then []
          else (sortDataFilesMaintainingOrder group.2).flatMap (remainingRows hash deletes) := by
      intro group groupMem
      have isKey : ∀ file ∈ sortDataFilesMaintainingOrder group.2,
          applicableEqDeletes (sortBySequenceNumber deletes) file = group.1 := by
        intro file fileMem
        rw [mem_sortDataFilesMaintainingOrder] at fileMem
        exact (((mem_bucketGroups groupMem).2.2 file).mp fileMem).2
      obtain ⟨isDeleted, isRemaining⟩ := computePosDeleteConvertingEqualityDeletes_spec
        (recordsOf hash group.1) (recordsOf hash (sortDataFilesMaintainingOrder group.2))
      obtain ⟨ofDeleted, ofRemaining⟩ := filter_recordsOf_group hash isKey
      exact ⟨isDeleted.trans ofDeleted, ofRemaining ▸ isRemaining⟩
    have nonempty : ∀ group ∈ groups, group.2 ≠ [] ∧ group.1 ≠ [] := by
      intro group groupMem
      obtain ⟨someDelete, someData, -⟩ := mem_bucketGroups groupMem
      exact ⟨someData, someDelete⟩
    obtain ⟨posDeletes, isOk, isPosDeletes⟩ :=
      computePosDeleteWithLimitedParallelism_eq concat hash nonempty isLast
    have someGroup : ¬(groups.map Prod.fst).isEmpty := by
      have lastMem := List.mem_of_getLast? isLast
      simpa using List.ne_nil_of_mem lastMem
    refine ⟨posDeletes, (tables last).2, ?_, ?_, ?_⟩
    · rw [convertEqualityDeletes, if_neg someGroup]
      exact isOk
    · rw [isPosDeletes, List.flatMap_assoc]
      exact List.flatMap_congr fun group groupMem => (spec group groupMem).1
    · exact (spec last (List.mem_of_getLast? isLast)).2

end Rows

end Deltacat.Compute.Converter
