import Deltacat.Library.Grouping
import Deltacat.Utils.TableSlices
import Mathlib.Data.List.Sort
import Mathlib.Data.Prod.Lex

/-!
# Deduplicating data files

Of the records of a bucket that have the same identifier, the last one stays and
the others are named by position deletes. The records are read in the order in
which the files were written: by sequence number, then by file path.
-/

namespace Deltacat.Compute.Converter

open Deltacat.Library Deltacat.Utils

universe u

/-- A data file; the identifiers of its records are what is downloaded. -/
structure DataFile (Path Identifier : Type u) where
  filePath : Path
  recordCount : ℤ
  identifiers : List Identifier
  deriving DecidableEq

/-- A data file with its sequence number. -/
abbrev DataFileWithSequence (Path Identifier : Type u) := ℤ × DataFile Path Identifier

/-- The data files of a bucket, which have different paths. -/
structure Bucket (Path Identifier : Type u) where
  files : List (DataFileWithSequence Path Identifier)
  distinct : (files.map (·.2.filePath)).Nodup

/-- A row of a downloaded table. -/
structure Record (Path Hash : Type u) where
  identifierColumnsHashed : Hash
  filePath : Path
  pos : ℕ
  deriving DecidableEq

variable {Path Identifier Hash : Type u}

/-- The table of a file, with the columns of its path and of the positions. -/
def downloadDataTable (hash : Identifier → Hash) (file : DataFile Path Identifier) :
    List (Record Path Hash) :=
  file.identifiers.zipIdx.map fun record => ⟨hash record.1, file.filePath, record.2⟩

/-- The records of files, in the order of the files. -/
abbrev recordsOf (hash : Identifier → Hash) (files : List (DataFileWithSequence Path Identifier)) :
    List (Record Path Hash) :=
  files.flatMap fun file => downloadDataTable hash file.2

/-- `pa.concat_tables` for these tables, which all have the same columns. -/
abbrev RecordConcat (Path Hash : Type u) :=
  ConcatTables (List (Record Path Hash)) id fun _ _ => True

/-- The concatenation of tables of records. -/
def concatRecords (Path Hash : Type u) : RecordConcat Path Hash where
  concatTables tables := if tables = [] then .error .arrowInvalid else .ok tables.flatten
  nil := rfl
  sameSchema _ _ _ := trivial
  rows := by
    intro tables result isResult
    split_ifs at isResult
    cases isResult
    exact List.flatMap_id.symm
  succeeds nonempty _ := ⟨_, if_neg nonempty⟩

theorem concatTables_of_ne_nil (concat : RecordConcat Path Hash)
    {tables : List (List (Record Path Hash))} (nonempty : tables ≠ []) :
    concat.concatTables tables = .ok tables.flatten := by
  rcases concat.succeeds nonempty fun _ _ _ _ => trivial with ⟨result, isResult⟩
  have rows := concat.rows isResult
  rw [List.flatMap_id] at rows
  rw [isResult, ← rows]
  rfl

section Sorting

variable [LinearOrder Path]

/-- Files are written in the order of their sequence numbers. -/
def writeOrder (file : DataFileWithSequence Path Identifier) : ℤ ×ₗ Path :=
  toLex (file.1, file.2.filePath)

def sortDataFilesMaintainingOrder (files : List (DataFileWithSequence Path Identifier)) :
    List (DataFileWithSequence Path Identifier) :=
  files.insertionSort fun left right => writeOrder left ≤ writeOrder right

/-- The position deletes, as they are written. -/
def writePositionDeleteFiles (records : List (Record Path Hash)) : List (Path × ℕ) :=
  (records.map fun record => (record.filePath, record.pos)).insertionSort
    fun left right => left.1 ≤ right.1

/-- The table that remained after the conversion of equality deletes comes first. -/
def dedupeDataFiles [DecidableEq Hash] (concat : RecordConcat Path Hash)
    (hash : Identifier → Hash)
    (dataFileToDedupe : List (DataFileWithSequence Path Identifier))
    (remainingDataTable : Option (List (Record Path Hash))) : Except Error (List (Path × ℕ)) := do
  let remaining := (remainingDataTable.filter fun table => !table.isEmpty).toList
  let files := sortDataFilesMaintainingOrder dataFileToDedupe
  let finalDataToDedupe ←
    concat.concatTables (remaining ++ files.map fun file => downloadDataTable hash file.2)
  return writePositionDeleteFiles (allButLast (·.identifierColumnsHashed) finalDataToDedupe)

end Sorting

theorem mem_downloadDataTable {hash : Identifier → Hash} {file : DataFile Path Identifier}
    {record : Record Path Hash} :
    record ∈ downloadDataTable hash file ↔ record.filePath = file.filePath ∧
      ∃ identifier, file.identifiers[record.pos]? = some identifier ∧
        record.identifierColumnsHashed = hash identifier := by
  rcases record with ⟨hashed, filePath, pos⟩
  simp only [downloadDataTable, List.mem_map, Prod.exists, List.mem_zipIdx_iff_getElem?,
    Record.mk.injEq]
  constructor
  · rintro ⟨identifier, index, isRecord, rfl, rfl, rfl⟩
    exact ⟨rfl, identifier, isRecord, rfl⟩
  · rintro ⟨rfl, identifier, isRecord, rfl⟩
    exact ⟨identifier, pos, isRecord, rfl, rfl, rfl⟩

theorem recordsOf_eq_nil_iff {hash : Identifier → Hash}
    {files : List (DataFileWithSequence Path Identifier)} :
    recordsOf hash files = [] ↔ ∀ file ∈ files, file.2.identifiers = [] := by
  simp [recordsOf, downloadDataTable]

/-- A record determines its file, and is determined by its path and position. -/
theorem record_eq {hash : Identifier → Hash}
    {files : List (DataFileWithSequence Path Identifier)}
    (distinct : (files.map (·.2.filePath)).Nodup) {left right : Record Path Hash}
    (leftMem : left ∈ recordsOf hash files) (rightMem : right ∈ recordsOf hash files)
    (samePath : left.filePath = right.filePath) (samePos : left.pos = right.pos) :
    left = right := by
  obtain ⟨first, firstMem, leftMem⟩ := List.mem_flatMap.mp leftMem
  obtain ⟨second, secondMem, rightMem⟩ := List.mem_flatMap.mp rightMem
  obtain ⟨leftPath, leftIdentifier, isLeft, leftHash⟩ := mem_downloadDataTable.mp leftMem
  obtain ⟨rightPath, rightIdentifier, isRight, rightHash⟩ := mem_downloadDataTable.mp rightMem
  have sameFile : first = second := List.inj_on_of_nodup_map distinct firstMem secondMem
    (leftPath.symm.trans (samePath.trans rightPath))
  subst sameFile
  rw [samePos, isRight] at isLeft
  cases isLeft
  cases left
  cases right
  simp_all

/-- An order of records by the order of their files. -/
def RecordOrder (precedes : Path → Path → Prop) (left right : Record Path Hash) : Prop :=
  precedes left.filePath right.filePath ∨ left.filePath = right.filePath ∧ left.pos < right.pos

theorem RecordOrder.asymm {precedes : Path → Path → Prop}
    (asymm : ∀ left right, precedes left right → ¬precedes right left)
    {left right : Record Path Hash} (forth : RecordOrder precedes left right) :
    ¬RecordOrder precedes right left := by
  rintro (back | ⟨samePath, back⟩)
  · rcases forth with forth | ⟨samePath, -⟩
    · exact asymm _ _ forth back
    · rw [samePath] at back
      exact asymm _ _ back back
  · rcases forth with forth | ⟨-, forth⟩
    · rw [samePath] at forth
      exact asymm _ _ forth forth
    · omega

/-- The records of files are in the order of the files. -/
theorem pairwise_flatMap_downloadDataTable {hash : Identifier → Hash}
    {files : List (DataFileWithSequence Path Identifier)} (precedes : Path → Path → Prop)
    (ordered : files.Pairwise fun left right => precedes left.2.filePath right.2.filePath) :
    (files.flatMap fun file => downloadDataTable hash file.2).Pairwise (RecordOrder precedes) := by
  rw [List.pairwise_flatMap]
  constructor
  · intro file _
    rw [downloadDataTable, List.pairwise_map]
    have positions : (file.2.identifiers.zipIdx.map Prod.snd).Pairwise (· < ·) := by
      rw [List.zipIdx_map_snd]
      exact List.pairwise_lt_range'
    exact (List.pairwise_map.mp positions).imp fun less => Or.inr ⟨rfl, less⟩
  · refine ordered.imp fun isBefore left leftMem right rightMem => Or.inl ?_
    rw [(mem_downloadDataTable.mp leftMem).1, (mem_downloadDataTable.mp rightMem).1]
    exact isBefore

/-- Files with different paths have no position in common. -/
theorem nodup_positions {hash : Identifier → Hash}
    {files : List (DataFileWithSequence Path Identifier)}
    (distinct : (files.map (·.2.filePath)).Nodup) :
    ((recordsOf hash files).map fun record => (record.filePath, record.pos)).Nodup := by
  have ordered : files.Pairwise fun left right => left.2.filePath ≠ right.2.filePath :=
    List.pairwise_map.mp distinct
  refine List.pairwise_map.mpr ((pairwise_flatMap_downloadDataTable (· ≠ ·) ordered).imp ?_)
  rintro left right (differs | ⟨-, less⟩) same
  · exact differs (congrArg Prod.fst same)
  · exact less.ne (congrArg Prod.snd same)

section Sorted

variable [LinearOrder Path]

theorem mem_writePositionDeleteFiles {records : List (Record Path Hash)} {delete : Path × ℕ} :
    delete ∈ writePositionDeleteFiles records ↔
      ∃ record ∈ records, (record.filePath, record.pos) = delete := by
  rw [writePositionDeleteFiles, List.mem_insertionSort, List.mem_map]

theorem mem_sortDataFilesMaintainingOrder {files : List (DataFileWithSequence Path Identifier)}
    {file : DataFileWithSequence Path Identifier} :
    file ∈ sortDataFilesMaintainingOrder files ↔ file ∈ files :=
  List.mem_insertionSort _

/-- Two files were written one after the other. -/
def WrittenBefore (files : List (DataFileWithSequence Path Identifier)) (left right : Path) :
    Prop :=
  ∃ first ∈ files, ∃ second ∈ files, first.2.filePath = left ∧ second.2.filePath = right ∧
    writeOrder first < writeOrder second

theorem WrittenBefore.asymm {files : List (DataFileWithSequence Path Identifier)}
    (distinct : (files.map (·.2.filePath)).Nodup) {left right : Path}
    (forth : WrittenBefore files left right) : ¬WrittenBefore files right left := by
  rintro ⟨second, secondMem, first, firstMem, rfl, rfl, back⟩
  obtain ⟨first', firstMem', second', secondMem', sameFirst, sameSecond, forth⟩ := forth
  have isFirst := List.inj_on_of_nodup_map distinct firstMem' firstMem sameFirst
  have isSecond := List.inj_on_of_nodup_map distinct secondMem' secondMem sameSecond
  rw [isFirst, isSecond] at forth
  exact lt_asymm forth back

theorem pairwise_sortDataFilesMaintainingOrder
    {files : List (DataFileWithSequence Path Identifier)}
    (distinct : (files.map (·.2.filePath)).Nodup) :
    (sortDataFilesMaintainingOrder files).Pairwise fun left right =>
      writeOrder left < writeOrder right := by
  have sorted := List.pairwise_insertionSort
    (fun left right : DataFileWithSequence Path Identifier => writeOrder left ≤ writeOrder right)
    files
  have nodup : (sortDataFilesMaintainingOrder files).Pairwise fun left right =>
      left.2.filePath ≠ right.2.filePath := by
    rw [← List.pairwise_map]
    exact ((List.perm_insertionSort _ files).map _).nodup_iff.mpr distinct
  refine sorted.imp₂ (fun left right le differ => lt_of_le_of_ne le fun same => differ ?_) nodup
  exact congrArg (fun order => (ofLex order).2) same

end Sorted

end Deltacat.Compute.Converter
