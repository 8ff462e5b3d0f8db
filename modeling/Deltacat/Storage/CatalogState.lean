import Deltacat.Storage.RevisionScan
import Deltacat.Storage.Transaction
import Mathlib.Tactic

/-!
# Well-formed catalogs

What every catalog that was built by transactions has: revision files with
numbers that fit their names, one file for each path, metafiles in the
directories of objects and identifiers in those of names, and a directory for
every object on the way to a file. Writes and cleanups keep it (`writeTxn` and
`deleteFiles`), and over it a lookup is a scan of the files of one directory
(`latest_scan`).
-/

namespace Deltacat.Storage

open Deltacat.Library MetafileRevisionInfo

namespace RevisionFile

/-- The content is of the kind that the directory is for. -/
def Typed (file : RevisionFile) : Prop :=
  match file.dir.entry, file.content with
  | .metafile _, .metafile _ => True
  | .mapping _, .mapping _ => True
  | _, _ => False

end RevisionFile

namespace Catalog

structure WellFormed (catalog : Catalog) : Prop where
  positive : ∀ file ∈ catalog.files, 0 < file.info.revision
  fits : ∀ file ∈ catalog.files, file.info.revision < 10 ^ 20
  isWrite : ∀ file ∈ catalog.files, file.info.txnOpType.isWriteOperation
  unique : (catalog.files.map RevisionFile.path).Nodup
  typed : ∀ file ∈ catalog.files, file.Typed
  housed : ∀ file ∈ catalog.files, ∀ objectPath ∈ directoriesOf file.dir,
    objectPath ∈ catalog.objectDirs

theorem mem_filesIn {catalog : Catalog} {dir : RevisionDir} {info : MetafileRevisionInfo} :
    info ∈ catalog.filesIn dir ↔ ∃ file ∈ catalog.files, file.dir = dir ∧ file.info = info := by
  simp [filesIn, and_assoc]

@[simp] theorem addFile_success (catalog : Catalog) (file : RevisionFile) :
    (catalog.addFile file).success = catalog.success := rfl

theorem mem_addFile {catalog : Catalog} {file other : RevisionFile} :
    other ∈ (catalog.addFile file).files ↔
      (other ∈ catalog.files ∧ other.path ≠ file.path) ∨ other = file := by
  simp [addFile]

namespace WellFormed

variable {catalog : Catalog}

theorem empty : Catalog.empty.WellFormed := by
  constructor <;> simp [Catalog.empty]

theorem wellNamed (wellFormed : catalog.WellFormed) (dir : RevisionDir) :
    WellNamed (catalog.filesIn dir) where
  positive := by
    intro info infoMem
    rcases mem_filesIn.mp infoMem with ⟨file, fileMem, _, rfl⟩
    exact wellFormed.positive file fileMem
  fits := by
    intro info infoMem
    rcases mem_filesIn.mp infoMem with ⟨file, fileMem, _, rfl⟩
    exact wellFormed.fits file fileMem
  isWrite := by
    intro info infoMem
    rcases mem_filesIn.mp infoMem with ⟨file, fileMem, _, rfl⟩
    exact wellFormed.isWrite file fileMem

theorem eq_of_path_eq (wellFormed : catalog.WellFormed) {left right : RevisionFile}
    (leftMem : left ∈ catalog.files) (rightMem : right ∈ catalog.files)
    (same : left.path = right.path) : left = right :=
  List.inj_on_of_nodup_map wellFormed.unique leftMem rightMem same

theorem fileAt_eq (wellFormed : catalog.WellFormed) {file : RevisionFile}
    (fileMem : file ∈ catalog.files) : catalog.fileAt file.dir file.info = some file := by
  unfold fileAt
  cases found : catalog.files.find? fun other => other.dir = file.dir ∧ other.info = file.info with
  | none =>
      have missing := List.find?_eq_none.mp found file fileMem
      simp at missing
  | some other =>
      have same := List.find?_some found
      simp only [decide_eq_true_eq] at same
      rw [wellFormed.eq_of_path_eq (List.mem_of_find?_eq_some found) fileMem
        (Prod.ext same.1 same.2)]

theorem addFile (wellFormed : catalog.WellFormed) {file : RevisionFile}
    (positive : 0 < file.info.revision) (fits : file.info.revision < 10 ^ 20)
    (isWrite : file.info.txnOpType.isWriteOperation) (typed : file.Typed) :
    (catalog.addFile file).WellFormed where
  positive := by
    intro other otherMem
    rcases mem_addFile.mp otherMem with ⟨isOld, _⟩ | rfl
    · exact wellFormed.positive other isOld
    · exact positive
  fits := by
    intro other otherMem
    rcases mem_addFile.mp otherMem with ⟨isOld, _⟩ | rfl
    · exact wellFormed.fits other isOld
    · exact fits
  isWrite := by
    intro other otherMem
    rcases mem_addFile.mp otherMem with ⟨isOld, _⟩ | rfl
    · exact wellFormed.isWrite other isOld
    · exact isWrite
  unique := by
    have kept : ((catalog.files.filter (·.path ≠ file.path)).map RevisionFile.path).Nodup :=
      wellFormed.unique.sublist (List.Sublist.map _ List.filter_sublist)
    simp only [Catalog.addFile, List.map_append, List.map_cons, List.map_nil]
    apply List.Nodup.append kept (by simp)
    intro path isKept isNew
    rw [List.mem_singleton.mp isNew] at isKept
    rcases List.mem_map.mp isKept with ⟨other, otherMem, same⟩
    simp [same] at otherMem
  typed := by
    intro other otherMem
    rcases mem_addFile.mp otherMem with ⟨isOld, _⟩ | rfl
    · exact wellFormed.typed other isOld
    · exact typed
  housed := by
    intro other otherMem objectPath pathMem
    apply List.mem_append.mpr
    rcases mem_addFile.mp otherMem with ⟨isOld, _⟩ | rfl
    · exact Or.inl (wellFormed.housed other isOld objectPath pathMem)
    · exact Or.inr pathMem

theorem deleteFiles (wellFormed : catalog.WellFormed)
    (paths : List (RevisionPath RevisionDir)) : (catalog.deleteFiles paths).WellFormed where
  positive := fun file fileMem => wellFormed.positive file (List.mem_of_mem_filter fileMem)
  fits := fun file fileMem => wellFormed.fits file (List.mem_of_mem_filter fileMem)
  isWrite := fun file fileMem => wellFormed.isWrite file (List.mem_of_mem_filter fileMem)
  unique := wellFormed.unique.sublist (List.Sublist.map _ List.filter_sublist)
  typed := fun file fileMem => wellFormed.typed file (List.mem_of_mem_filter fileMem)
  housed := fun file fileMem => wellFormed.housed file (List.mem_of_mem_filter fileMem)

end WellFormed

/-- The revision, operation and content of a file that was written. -/
theorem writeRevision_ok {catalog : Catalog} {txnId : TransactionId} {write : RevisionWrite}
    {file : RevisionFile} (isWritten : catalog.writeRevision txnId write = .ok file) :
    ∃ mri, newRevision (catalog.filesIn write.dir) write.opType txnId.startTime txnId
        catalog.success = .ok mri ∧ file = ⟨write.dir, mri, write.content⟩ := by
  unfold writeRevision at isWritten
  cases isNew : newRevision (catalog.filesIn write.dir) write.opType txnId.startTime txnId
      catalog.success with
  | error => simp [isNew, bind, Except.bind] at isWritten
  | ok mri =>
      refine ⟨mri, rfl, ?_⟩
      simpa [isNew, bind, Except.bind, pure, Except.pure, eq_comm] using isWritten

/-- A write by a write operation, of a content that belongs into its directory. -/
structure Proper (write : RevisionWrite) : Prop where
  isWrite : write.opType.isWriteOperation
  typed : ∀ info, RevisionFile.Typed ⟨write.dir, info, write.content⟩

namespace WellFormed

variable {catalog : Catalog} {txnId : TransactionId}

theorem writeRevision (wellFormed : catalog.WellFormed) {write : RevisionWrite}
    (proper : Proper write) {file : RevisionFile}
    (isWritten : catalog.writeRevision txnId write = .ok file) :
    (catalog.addFile file).WellFormed := by
  rcases writeRevision_ok isWritten with ⟨mri, isNew, rfl⟩
  rcases newRevision_ok (wellFormed.wellNamed write.dir) isNew with ⟨_, isOp, positive, bounded⟩
  apply wellFormed.addFile positive
  · apply lt_of_le_of_lt bounded
    norm_num [maxRevisionNumber]
  · simpa only [isOp] using proper.isWrite
  · exact proper.typed mri

theorem writeRevisions (wellFormed : catalog.WellFormed) {writes : List RevisionWrite}
    (proper : ∀ write ∈ writes, Proper write) :
    (Catalog.writeRevisions txnId writes catalog).1.WellFormed := by
  induction writes generalizing catalog with
  | nil => exact wellFormed
  | cons write writes ih =>
      have laterProper : ∀ later ∈ writes, Proper later := fun later laterMem =>
        proper later (List.mem_cons_of_mem write laterMem)
      unfold Catalog.writeRevisions
      split
      case h_1 file isWritten =>
        exact ih (wellFormed.writeRevision (proper write List.mem_cons_self) isWritten) laterProper
      case h_2 =>
        split
        · exact ih wellFormed laterProper
        · exact wellFormed

end WellFormed

theorem proper_locatorWrite {opType : TransactionOperationType} (isWrite : opType.isWriteOperation)
    (parentIds : List String) (locator : Locator) (id : String) :
    Proper (TransactionOperation.locatorWrite parentIds locator opType id) :=
  ⟨isWrite, fun _ => trivial⟩

theorem proper_metafileWrite {opType : TransactionOperationType}
    (isWrite : opType.isWriteOperation) (parentIds : List String) (id : String)
    (metafile : Metafile) (ignoreExisting : Bool) :
    Proper (TransactionOperation.metafileWrite parentIds id opType metafile ignoreExisting) :=
  ⟨isWrite, fun _ => trivial⟩

theorem proper_revisionWrites {operation : TransactionOperation} (isWrite : operation.isWrite)
    (parentIds : List String) : ∀ write ∈ operation.revisionWrites parentIds, Proper write := by
  intro write writeMem
  rcases List.mem_append.mp writeMem with isLocator | isMetafile
  · unfold TransactionOperation.locatorWrites at isLocator
    split at isLocator
    · simp at isLocator
    · split at isLocator
      · split at isLocator
        · simp at isLocator
        · rcases List.mem_append.mp isLocator with isSource | isDest
          · rcases Option.mem_toList.mp isSource |> Option.map_eq_some_iff.mp with
              ⟨locator, _, rfl⟩
            exact proper_locatorWrite rfl _ _ _
          · rw [List.mem_singleton.mp isDest]
            exact proper_locatorWrite rfl _ _ _
      · rw [List.mem_singleton.mp isLocator]
        exact proper_locatorWrite isWrite _ _ _
  · unfold TransactionOperation.metafileWrites at isMetafile
    simp only at isMetafile
    split at isMetafile
    · rw [List.mem_singleton.mp isMetafile]
      exact proper_metafileWrite isWrite _ _ _ _
    · split at isMetafile
      · rcases List.mem_pair.mp isMetafile with rfl | rfl
        · exact proper_metafileWrite rfl _ _ _ _
        · exact proper_metafileWrite rfl _ _ _ _
      · rw [List.mem_singleton.mp isMetafile]
        exact proper_metafileWrite isWrite _ _ _ _

theorem WellFormed.writeTxn {catalog : Catalog} (wellFormed : catalog.WellFormed)
    (txnId : TransactionId) {operation : TransactionOperation} (isWrite : operation.isWrite) :
    (catalog.writeTxn txnId operation).1.WellFormed := by
  unfold Catalog.writeTxn
  split
  · exact wellFormed
  · exact wellFormed.writeRevisions (proper_revisionWrites isWrite _)

/-- What a reader's scan of a directory finds, as a file. -/
structure IsScan (catalog : Catalog) (visible : MetafileRevisionInfo → Prop) (dir : RevisionDir)
    (result : Option RevisionFile) : Prop where
  scan : ScanResult (catalog.filesIn dir) visible maxRevisionNumber
    (result.map RevisionFile.info)
  mem : ∀ file ∈ result, file ∈ catalog.files ∧ file.dir = dir

/-- A scan on the flat list of files gives a scan of the catalog. -/
theorem isScan_of_latestRevision {catalog : Catalog} (wellFormed : catalog.WellFormed)
    {visible : MetafileRevisionInfo → Prop} {reader : Reader} {dir : RevisionDir}
    {result : Option MetafileRevisionInfo}
    (isResult : ScanResult (catalog.filesIn dir) visible maxRevisionNumber result)
    (scanned : latestRevision (catalog.filesIn dir) reader catalog.success = .ok result) :
    ∃ found, catalog.IsScan visible dir found ∧ catalog.latest reader dir = .ok found := by
  unfold latest
  rw [scanned]
  cases result with
  | none => exact ⟨none, ⟨isResult, by simp⟩, rfl⟩
  | some info =>
      rcases mem_filesIn.mp isResult.1.mem with ⟨file, fileMem, rfl, rfl⟩
      refine ⟨some file, ⟨isResult, ?_⟩, ?_⟩
      · rintro other ⟨⟩
        exact ⟨fileMem, rfl⟩
      · simp [bind, Except.bind, pure, Except.pure, wellFormed.fileAt_eq fileMem]

theorem latest_scan {catalog : Catalog} (wellFormed : catalog.WellFormed)
    (txnId : TransactionId) (startTime : ℕ) (dir : RevisionDir) :
    ∃ found, catalog.IsScan (IsVisible txnId startTime catalog.success) dir found ∧
      catalog.latest ⟨some txnId, some startTime⟩ dir = .ok found := by
  rcases latestRevision_scan (wellFormed.wellNamed dir) txnId startTime catalog.success with
    ⟨result, isResult, scanned⟩
  exact isScan_of_latestRevision wellFormed isResult scanned

end Catalog

end Deltacat.Storage
