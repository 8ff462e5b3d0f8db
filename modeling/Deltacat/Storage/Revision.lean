import Deltacat.Library.Decimal
import Deltacat.Utils.PartitionedListing
import Mathlib.Tactic

/-!
# Metafile revisions

Every write to an object or to a name mapping adds one file to a revision
directory. The file's name carries everything that is needed to decide whether
a reader may see it: the revision number, the operation and the transaction.
This file models `MetafileRevisionInfo`: its file names, the scan for the latest
revision that a transaction may see, the choice of the next revision, and the
check for files that a concurrent transaction wrote under the same number.

The scan is written over a page provider, as in the source. `sortedFilePaths`
provides the pages of a directory given as the plain list of its revision
files; `diskPage` provides them from the partitioned directory tree, and the
two agree (`RevisionDirectory.diskPage_eq`).
-/

namespace Deltacat.Storage

open Deltacat.Library Deltacat.Utils

/-- `TransactionOperationType`. -/
inductive TransactionOperationType
  | create
  | update
  | replace
  | delete
  | readSiblings
  | readChildren
  | readLatest
  | readExists
  deriving DecidableEq, Repr

namespace TransactionOperationType

/-- The value of the enumeration member. -/
def value : TransactionOperationType → String
  | create => "create"
  | update => "update"
  | replace => "replace"
  | delete => "delete"
  | readSiblings => "read_siblings"
  | readChildren => "read_children"
  | readLatest => "read_latest"
  | readExists => "read_exists"

/-- Whether the operation writes revisions. -/
def isWriteOperation : TransactionOperationType → Bool
  | create | update | replace | delete => true
  | readSiblings | readChildren | readLatest | readExists => false

/-- The write operation of a given value; only these appear in file names. -/
def ofValue (text : String) : Option TransactionOperationType :=
  [create, update, replace, delete].find? (·.value = text)

theorem ofValue_value {opType : TransactionOperationType} (isWrite : opType.isWriteOperation) :
    ofValue opType.value = some opType := by
  cases opType <;> first | decide | simp [isWriteOperation] at isWrite

theorem underscore_not_mem_value {opType : TransactionOperationType}
    (isWrite : opType.isWriteOperation) : '_' ∉ opType.value.toList := by
  cases opType <;> first | decide | simp [isWriteOperation] at isWrite

end TransactionOperationType

/-- A transaction identifier `<start time>_<uuid>`. -/
structure TransactionId where
  startTime : ℕ
  uuid : String
  noSeparator : '_' ∉ uuid.toList
  deriving DecidableEq

namespace TransactionId

/-- An identifier with a number for its unique text. -/
def numbered (startTime number : ℕ) : TransactionId where
  startTime := startTime
  uuid := number.repr
  noSeparator := by
    rw [Nat.toList_repr]
    exact Nat.underscore_not_in_toDigits

/-- The identifier as it appears in file names; identifiers are compared by this text. -/
def text (txnId : TransactionId) : String :=
  txnId.startTime.repr ++ "_" ++ txnId.uuid

theorem text_injective : Function.Injective text := by
  intro left right same
  have chars : Nat.toDigits 10 left.startTime ++ '_' :: left.uuid.toList =
      Nat.toDigits 10 right.startTime ++ '_' :: right.uuid.toList := by
    simpa [text] using congrArg String.toList same
  have parts := congrArg (List.splitOn '_') chars
  rw [List.splitOn_append_cons_self_of_not_mem Nat.underscore_not_in_toDigits,
    List.splitOn_append_cons_self_of_not_mem Nat.underscore_not_in_toDigits,
    List.splitOn_eq_singleton left.noSeparator,
    List.splitOn_eq_singleton right.noSeparator] at parts
  simp only [List.cons.injEq, and_true] at parts
  have sameStart : left.startTime = right.startTime := by
    rw [← @Nat.ofDigitChars_ten_toDigits left.startTime, parts.1, Nat.ofDigitChars_ten_toDigits]
  have sameUuid : left.uuid = right.uuid := String.toList_injective parts.2
  cases left
  cases right
  simp_all

end TransactionId

/-- `MAX_REVISION_NUMBER`. -/
def maxRevisionNumber : ℕ := 10000000000000000000

/-- `DEFAULT_PAGE_SIZE`. -/
def defaultPageSize : ℕ := 1000

/-- `MAX_CONCURRENT_CONFLICT_COUNT`. -/
def maxConcurrentConflictCount : ℕ := defaultPageSize

/-- `METAFILE_EXT` of the default metafile format. -/
def metafileExt : String := ".mpk"

/-- `MetafileRevisionInfo`, without the directory it belongs to. -/
structure MetafileRevisionInfo where
  revision : ℕ
  txnOpType : TransactionOperationType
  txnId : TransactionId
  deriving DecidableEq

namespace MetafileRevisionInfo

/-- `file_name`. -/
def fileName (mri : MetafileRevisionInfo) : String :=
  String.ofList (paddedDigits 20 mri.revision) ++ "_" ++ mri.txnOpType.value ++ "_" ++
    (mri.txnId.text ++ metafileExt)

/-- `int(text)` on a plain numeral. -/
def parseInt (chars : List Char) : Option ℕ :=
  if chars ≠ [] ∧ chars.all Char.isDigit then some (Nat.ofDigitChars 10 chars 0) else none

/-- `posixpath.splitext(name)[0]`: everything before the last dot. -/
def splitextRoot (chars : List Char) : List Char :=
  if '.' ∈ chars then ((chars.reverse.dropWhile (· ≠ '.')).drop 1).reverse else chars

/-- `parse`, on the base name of a revision file path. -/
def parse (name : String) : Option MetafileRevisionInfo :=
  match (splitextRoot name.toList).splitOn '_' with
  | revisionText :: opText :: startText :: uuidText :: _ => do
      let revision ← parseInt revisionText
      let txnOpType ← TransactionOperationType.ofValue (String.ofList opText)
      let startTime ← parseInt startText
      if noSeparator : '_' ∉ (String.ofList uuidText).toList then
        some ⟨revision, txnOpType, ⟨startTime, String.ofList uuidText, noSeparator⟩⟩
      else none
  | _ => none

/-- `parse_revision`. -/
def parseRevision (name : String) : Option ℕ :=
  (parse name).map revision

private theorem parseInt_eq {chars : List Char} (nonempty : chars ≠ [])
    (digits : ∀ char ∈ chars, char.isDigit) :
    parseInt chars = some (Nat.ofDigitChars 10 chars 0) := by
  have allDigits : chars.all Char.isDigit := List.all_eq_true.mpr digits
  simp [parseInt, nonempty, allDigits]

private theorem splitextRoot_append_ext (chars : List Char) :
    splitextRoot (chars ++ metafileExt.toList) = chars := by
  have ext : metafileExt.toList = ['.', 'm', 'p', 'k'] := by decide
  simp [splitextRoot, ext]

/-- Parsing the name of a written revision file gives the revision back. -/
theorem parse_fileName (mri : MetafileRevisionInfo) (isWrite : mri.txnOpType.isWriteOperation) :
    parse mri.fileName = some mri := by
  have chars : mri.fileName.toList =
      ['_'].intercalate [paddedDigits 20 mri.revision, mri.txnOpType.value.toList,
        Nat.toDigits 10 mri.txnId.startTime, mri.txnId.uuid.toList] ++ metafileExt.toList := by
    simp [fileName, TransactionId.text, List.intercalate]
  have noSeparator : ∀ part ∈ [paddedDigits 20 mri.revision, mri.txnOpType.value.toList,
      Nat.toDigits 10 mri.txnId.startTime, mri.txnId.uuid.toList], '_' ∉ part := by
    intro part partMem
    simp only [List.mem_cons, List.not_mem_nil, or_false] at partMem
    rcases partMem with rfl | rfl | rfl | rfl
    · intro isDigit
      have digit := isDigit_of_mem_paddedDigits isDigit
      revert digit
      decide
    · exact TransactionOperationType.underscore_not_mem_value isWrite
    · exact Nat.underscore_not_in_toDigits
    · exact mri.txnId.noSeparator
  have revisionParsed : parseInt (paddedDigits 20 mri.revision) = some mri.revision := by
    rw [parseInt_eq, ofDigitChars_paddedDigits]
    · simp [paddedDigits, List.leftpad, Nat.toDigits_ne_nil]
    · exact fun char charMem => isDigit_of_mem_paddedDigits charMem
  have startParsed : parseInt (Nat.toDigits 10 mri.txnId.startTime) = some mri.txnId.startTime := by
    rw [parseInt_eq Nat.toDigits_ne_nil, Nat.ofDigitChars_ten_toDigits]
    exact fun char charMem => Nat.isDigit_of_mem_toDigits (by norm_num) (by norm_num) charMem
  rw [parse, chars, splitextRoot_append_ext, List.splitOn_intercalate _ noSeparator (by simp)]
  simp [revisionParsed, TransactionOperationType.ofValue_value isWrite, startParsed,
    mri.txnId.noSeparator]

/-- File names sort by their revision first. -/
theorem fileName_lt {left right : MetafileRevisionInfo} (less : left.revision < right.revision)
    (fits : right.revision < 10 ^ 20) : left.fileName < right.fileName := by
  rw [String.lt_iff_toList_lt]
  simp only [fileName, String.toList_append, String.toList_ofList, List.append_assoc]
  exact paddedDigits_append_lt (by norm_num) less fits _ _

theorem hasExcludedPrefix_fileName (mri : MetafileRevisionInfo) :
    hasExcludedPrefix mri.fileName = false := by
  cases digits : paddedDigits 20 mri.revision with
  | nil => simp [paddedDigits, List.leftpad, Nat.toDigits_ne_nil] at digits
  | cons char rest =>
      have isDigit : char.isDigit :=
        isDigit_of_mem_paddedDigits (digits ▸ List.mem_cons_self)
      have notDot : char ≠ '.' := by
        rintro rfl
        revert isDigit
        decide
      have notUnderscore : char ≠ '_' := by
        rintro rfl
        revert isDigit
        decide
      simp [hasExcludedPrefix, fileName, digits, notDot, notUnderscore]

/-- The order of a directory listing. -/
def Descending (left right : MetafileRevisionInfo) : Prop :=
  right.fileName ≤ left.fileName

instance : DecidableRel Descending :=
  fun left right => inferInstanceAs (Decidable (right.fileName ≤ left.fileName))

instance : Std.Total Descending :=
  ⟨fun left right => le_total right.fileName left.fileName⟩

instance : IsTrans MetafileRevisionInfo Descending :=
  ⟨fun _ _ _ first second => le_trans second first⟩

/--
`_sorted_file_paths` on the list of the files of a revision directory: the files
at or below a revision number, in descending name order, up to the limit.
-/
def sortedFilePaths (files : List MetafileRevisionInfo) (partitionValue limit : ℕ) :
    List MetafileRevisionInfo :=
  ((files.filter (·.revision ≤ partitionValue)).insertionSort Descending).take limit

/-- The transaction on whose behalf a directory is scanned, if any, and its start time. -/
structure Reader where
  currentTxnId : Option TransactionId
  currentTxnStartTime : Option ℕ

/-- The end times of the transactions with a success log. -/
abbrev SuccessLog := TransactionId → Option ℕ

/--
Whether a scan counts a revision as committed. Without a transaction every file
counts; a transaction's own files count; any other file counts if its
transaction ended before the scanning one started.
-/
def isCommitted (reader : Reader) (endTime : SuccessLog) (mri : MetafileRevisionInfo) :
    Except Error Bool :=
  match reader.currentTxnId with
  | none => .ok true
  | some currentTxnId =>
      if mri.txnId = currentTxnId then .ok true
      else
        match reader.currentTxnStartTime with
        | none => .error .valueError
        | some startTime => .ok ((endTime mri.txnId).any (· < startTime))

/--
The loop of `list_revisions`. Each round pops the first path of the page at
`partitionValue` and resumes the scan below its revision. The fuel bounds the
number of rounds; it is never used up when it exceeds the number of files.
-/
def listRevisionsFrom (nextPageProvider : ℕ → Except Error (List MetafileRevisionInfo))
    (committed : MetafileRevisionInfo → Except Error Bool) :
    ℕ → ℕ → ℤ → List MetafileRevisionInfo → Except Error (List MetafileRevisionInfo)
  | 0, _, _, _ => .error .runtimeError
  | fuel + 1, partitionValue, limit, revisions => do
      let sortedMetafilePaths ← nextPageProvider partitionValue
      match sortedMetafilePaths with
      | [] => .ok revisions
      | mri :: _ =>
          let isVisible ← committed mri
          let revisions := if isVisible then revisions ++ [mri] else revisions
          let limit := limit - revisions.length
          if limit ≤ 0 ∨ mri.revision ≤ 1 then .ok revisions
          else listRevisionsFrom nextPageProvider committed fuel (mri.revision - 1) limit revisions

/-- `list_revisions` on the list of the files of a revision directory. -/
def listRevisions (files : List MetafileRevisionInfo) (reader : Reader) (endTime : SuccessLog)
    (limit : ℕ) : Except Error (List MetafileRevisionInfo) :=
  listRevisionsFrom
    (fun partitionValue => .ok (sortedFilePaths files partitionValue (max limit defaultPageSize)))
    (isCommitted reader endTime) (files.length + 1) maxRevisionNumber limit []

/--
`latest_revision` with `ignore_missing_revision`: the latest revision that the
reader may see, where `none` stands for `MetafileRevisionInfo.undefined()`.
-/
def latestRevision (files : List MetafileRevisionInfo) (reader : Reader) (endTime : SuccessLog) :
    Except Error (Option MetafileRevisionInfo) :=
  (listRevisions files reader endTime 1).map List.head?

/--
`new_revision`: the next revision of an object or name mapping. A create needs
the object to be absent or deleted, any other operation needs it to be live.
-/
def newRevision (files : List MetafileRevisionInfo) (currentTxnOpType : TransactionOperationType)
    (currentTxnStartTime : ℕ) (currentTxnId : TransactionId) (endTime : SuccessLog) :
    Except Error MetafileRevisionInfo := do
  let isCreateTxn := currentTxnOpType = .create
  match ← latestRevision files ⟨some currentTxnId, some currentTxnStartTime⟩ endTime with
  | none =>
      if isCreateTxn then .ok ⟨1, currentTxnOpType, currentTxnId⟩ else .error .objectNotFoundError
  | some mri =>
      if mri.txnOpType = .delete then
        if isCreateTxn then .ok ⟨mri.revision + 1, currentTxnOpType, currentTxnId⟩
        else .error .objectDeletedError
      else if isCreateTxn then .error .objectAlreadyExistsError
      else .ok ⟨mri.revision + 1, currentTxnOpType, currentTxnId⟩

/--
The first loop of `check_for_concurrent_txn_conflict`: the files of other
transactions under the current revision number, as far as the page goes.
-/
def findConflicts (current : MetafileRevisionInfo) :
    List MetafileRevisionInfo → List MetafileRevisionInfo →
      Except Error (List MetafileRevisionInfo)
  | [], conflictMris => .ok conflictMris
  | mri :: sortedMetafilePaths, conflictMris =>
      if mri.revision < current.revision then .ok conflictMris
      else if mri.revision = current.revision ∧ mri.txnId ≠ current.txnId then
        -- The transaction with the greater identifier wins.
        if mri.txnId.text > current.txnId.text then .error .concurrentModificationError
        else if (conflictMris ++ [mri]).length ≥ maxConcurrentConflictCount then
          .error .concurrentModificationError
        else findConflicts current sortedMetafilePaths (conflictMris ++ [mri])
      else findConflicts current sortedMetafilePaths conflictMris

/--
`check_for_concurrent_txn_conflict`. The end time of a conflicting transaction
is tested for truth, so that an end time of zero counts as no success log.
-/
def checkForConcurrentTxnConflict (files : List MetafileRevisionInfo) (endTime : SuccessLog)
    (current : MetafileRevisionInfo) : Except Error Unit := do
  match sortedFilePaths files current.revision defaultPageSize with
  | [] => .error .objectNotFoundError
  | sortedMetafilePaths =>
      let conflictMris ← findConflicts current sortedMetafilePaths []
      if conflictMris.any fun mri => (endTime mri.txnId).any (· ≠ 0) then
        .error .concurrentModificationError
      else .ok ()

/-- The file as `write_file_partitioned` sees it. -/
def valuedFile (mri : MetafileRevisionInfo) : ValuedFile where
  value := mri.revision
  name := mri.fileName

theorem valuedFile_inj {left right : MetafileRevisionInfo}
    (leftWrite : left.txnOpType.isWriteOperation) (rightWrite : right.txnOpType.isWriteOperation)
    (same : left.valuedFile = right.valuedFile) : left = right := by
  have parsed := congrArg parse (congrArg ValuedFile.name same)
  rw [valuedFile, valuedFile, parse_fileName left leftWrite, parse_fileName right rightWrite,
    Option.some.injEq] at parsed
  exact parsed

/-- `_sorted_file_paths` on the partitioned directory tree. -/
def diskPage (filesystem : FileSystem) (partitionValue limit : ℕ) :
    Except Error (List MetafileRevisionInfo) := do
  let filePaths ← listDirectoryPartitioned filesystem partitionValue
    (fun value => exponentialPartitionTransform value 1000 2) parseRevision (some limit)
    (fun partitionDirs => parseExponentialPartitions partitionDirs 1000) true none
  filePaths.mapM fun filePath =>
    match parse filePath.name with
    | none => .error .valueError
    | some mri => .ok mri

theorem mapM_parse_entry {files : List MetafileRevisionInfo}
    (isWrite : ∀ mri ∈ files, mri.txnOpType.isWriteOperation) :
    ((files.map fun mri => mri.valuedFile.entry).mapM fun filePath =>
      match parse filePath.name with
      | none => .error .valueError
      | some mri => .ok mri : Except Error (List MetafileRevisionInfo)) = .ok files := by
  induction files with
  | nil => rfl
  | cons mri files ih =>
      have parsed : parse mri.valuedFile.entry.name = some mri :=
        parse_fileName mri (isWrite mri (by simp))
      rw [List.map_cons, List.mapM_cons, parsed, ih fun other otherMem =>
        isWrite other (List.mem_cons_of_mem mri otherMem)]
      rfl

end MetafileRevisionInfo

/-- A revision file with the revision directory it is in. -/
abbrev RevisionPath (Directory : Type*) := Directory × MetafileRevisionInfo

/-- A directory tree that holds the given revision files and no other ones. -/
structure RevisionDirectory where
  filesystem : FileSystem
  files : List MetafileRevisionInfo
  partitioned : Partitioned filesystem (files.map MetafileRevisionInfo.valuedFile)
  isWrite : ∀ mri ∈ files, mri.txnOpType.isWriteOperation

namespace RevisionDirectory

open MetafileRevisionInfo

/-- The directory of an object that was never written. -/
def empty : RevisionDirectory where
  filesystem := []
  files := []
  partitioned := Partitioned.nil
  isWrite := by simp

theorem partitionable (directory : RevisionDirectory) {mri : MetafileRevisionInfo}
    (mriMem : mri ∈ directory.files) : Partitionable mri.revision :=
  directory.partitioned.valid mri.valuedFile (List.mem_map_of_mem mriMem)

theorem nodup_files (directory : RevisionDirectory) : directory.files.Nodup :=
  List.Nodup.of_map _ directory.partitioned.nodupFiles

/-- Write a revision file. -/
def write (directory : RevisionDirectory) (mri : MetafileRevisionInfo)
    (valid : Partitionable mri.revision) (isWriteOperation : mri.txnOpType.isWriteOperation) :
    RevisionDirectory where
  filesystem := directory.filesystem.writeFilePartitioned mri.valuedFile
  files := List.insert mri directory.files
  partitioned := by
    have same : (List.insert mri directory.files).map valuedFile =
        List.insert mri.valuedFile (directory.files.map valuedFile) := by
      by_cases present : mri ∈ directory.files
      · rw [List.insert_of_mem present, List.insert_of_mem (List.mem_map_of_mem present)]
      · have absent : mri.valuedFile ∉ directory.files.map valuedFile := by
          intro mapped
          rcases List.mem_map.mp mapped with ⟨other, otherMem, same⟩
          have sameMri := valuedFile_inj (directory.isWrite other otherMem) isWriteOperation same
          exact present (sameMri ▸ otherMem)
        rw [List.insert_of_not_mem present, List.insert_of_not_mem absent, List.map_cons]
    rw [same]
    exact directory.partitioned.write valid
  isWrite := by
    intro other otherMem
    rcases List.mem_insert_iff.mp otherMem with rfl | otherMem
    · exact isWriteOperation
    · exact directory.isWrite other otherMem

end RevisionDirectory

theorem revision_lt_of_partitionable {revision : ℕ} (valid : Partitionable revision) :
    revision < 10 ^ 20 := by
  have bounded := valid.2
  unfold outerCapacity outerMultiplier unsignedInt64MaxValue at bounded
  omega

namespace RevisionDirectory

open MetafileRevisionInfo

theorem namedByValue (directory : RevisionDirectory) :
    NamedByValue parseRevision (directory.files.map valuedFile) where
  parsed := by
    intro file fileMem
    rcases List.mem_map.mp fileMem with ⟨mri, mriMem, rfl⟩
    simp [parseRevision, valuedFile, parse_fileName mri (directory.isWrite mri mriMem)]
  included := by
    intro file fileMem
    rcases List.mem_map.mp fileMem with ⟨mri, _, rfl⟩
    exact hasExcludedPrefix_fileName mri
  ordered := by
    intro left leftMem right rightMem less
    rcases List.mem_map.mp leftMem with ⟨leftMri, _, rfl⟩
    rcases List.mem_map.mp rightMem with ⟨rightMri, rightMriMem, rfl⟩
    exact fileName_lt less (revision_lt_of_partitionable (directory.partitionable rightMriMem))

/-- The pages read from the directory tree are those of the plain list of files. -/
theorem diskPage_eq (directory : RevisionDirectory) {partitionValue limit : ℕ}
    (valid : Partitionable partitionValue) (positive : 0 < limit) :
    diskPage directory.filesystem partitionValue limit =
      .ok (sortedFilePaths directory.files partitionValue limit) := by
  have listed := directory.partitioned.listDirectoryPartitioned_eq directory.namedByValue valid
    positive
  have entries : (((directory.files.map valuedFile).filter (·.value ≤ partitionValue)).map
      ValuedFile.entry).insertionSort NameDescending =
        ((directory.files.filter (·.revision ≤ partitionValue)).insertionSort Descending).map
          fun mri => mri.valuedFile.entry := by
    rw [List.map_insertionSort Descending NameDescending]
    · rw [List.filter_map, List.map_map]
      rfl
    · intro left _ right _
      rfl
  rw [diskPage, listed, entries, ← List.map_take]
  refine mapM_parse_entry ?_
  intro mri mriMem
  have inFiles := List.mem_of_mem_take mriMem
  rw [List.mem_insertionSort] at inFiles
  exact directory.isWrite mri (List.mem_of_mem_filter inFiles)

end RevisionDirectory

end Deltacat.Storage
