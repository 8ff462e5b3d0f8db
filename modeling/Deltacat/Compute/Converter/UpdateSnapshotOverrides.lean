import Deltacat.Exceptions
import Deltacat.Library.Procedure
import Mathlib.Tactic

/-!
# Replacing delete files

A snapshot of an Iceberg table is a list of manifests, whose entries name data files and
delete files. A file is live in a snapshot if some manifest has an entry of it that is not
deleted. `_ReplaceDeleteFilesOverride` adds a manifest of the new position delete files and
manifests of deleted entries of the equality delete files to remove, and carries over the
manifests of the parent snapshot that have added or existing files.

A manifest with a live entry is always carried over with it, so that every file that is live
in the parent snapshot stays live (`live_commitReplaceSnapshot`).
-/

namespace Deltacat.Compute.Converter.Iceberg

open Deltacat.Library

inductive DataFileContent
  | data
  | positionDeletes
  | equalityDeletes
  deriving DecidableEq

/-- A file, which is compared with other files by its path. -/
structure DataFile where
  filePath : String
  content : DataFileContent
  specId : ℕ

inductive ManifestEntryStatus
  | existing
  | added
  | deleted
  deriving DecidableEq

structure ManifestEntry where
  status : ManifestEntryStatus
  snapshotId : Option ℤ
  sequenceNumber : Option ℤ
  fileSequenceNumber : Option ℤ
  dataFile : DataFile

/-- The number of the entries with a status. -/
def countStatus (entries : List ManifestEntry) (status : ManifestEntryStatus) : ℕ :=
  entries.countP (·.status = status)

/-- A manifest, whose summary counts its entries if it has counts. -/
structure ManifestFile where
  addedSnapshotId : ℤ
  entries : List ManifestEntry
  addedFilesCount : Option ℕ
  existingFilesCount : Option ℕ
  addedCounted : ∀ count ∈ addedFilesCount, count = countStatus entries .added
  existingCounted : ∀ count ∈ existingFilesCount, count = countStatus entries .existing

namespace ManifestFile

def hasAddedFiles (manifest : ManifestFile) : Bool :=
  manifest.addedFilesCount.all (0 < ·)

def hasExistingFiles (manifest : ManifestFile) : Bool :=
  manifest.existingFilesCount.all (0 < ·)

/-- `fetch_manifest_entry`, which discards deleted entries. -/
def fetchManifestEntry (manifest : ManifestFile) : List ManifestEntry :=
  manifest.entries.filter (·.status ≠ .deleted)

end ManifestFile

/--
`write_manifest` for a snapshot, as a function of the entries. The manifest has their statuses
and data files; sequence numbers may be filled in.
-/
structure ManifestWriter where
  toManifestFile : ℤ → List ManifestEntry → ManifestFile
  keepsFiles : ∀ snapshotId entries,
    (toManifestFile snapshotId entries).entries.map (fun entry => (entry.status, entry.dataFile)) =
      entries.map fun entry => (entry.status, entry.dataFile)

/-- The manifests of the snapshots of a table. -/
abbrev Snapshots := ℤ → Option (List ManifestFile)

/-- `_ReplaceDeleteFilesOverride`, with the fields of `_SnapshotProducer`. -/
structure ReplaceDeleteFilesOverride where
  snapshotId : ℤ
  parentSnapshotId : Option ℤ
  snapshotById : Snapshots
  addedDataFiles : List DataFile := []
  deletedDataFiles : List DataFile := []

namespace ReplaceDeleteFilesOverride

variable (writer : ManifestWriter) (producer : ReplaceDeleteFilesOverride)

def appendDataFile (dataFile : DataFile) : ReplaceDeleteFilesOverride :=
  { producer with addedDataFiles := producer.addedDataFiles ++ [dataFile] }

def deleteDataFile (dataFile : DataFile) : ReplaceDeleteFilesOverride :=
  { producer with deletedDataFiles := producer.deletedDataFiles ++ [dataFile] }

/-- The manifests of the parent snapshot, if there is one. -/
def previousManifests : Except Error (List ManifestFile) :=
  match producer.parentSnapshotId with
  | none => .ok []
  | some parentSnapshotId =>
      match producer.snapshotById parentSnapshotId with
      | none => .error .valueError
      | some manifests => .ok manifests

def writeAddedManifest : List ManifestFile :=
  if producer.addedDataFiles ≠ [] then
    [writer.toManifestFile producer.snapshotId (producer.addedDataFiles.map fun dataFile =>
      ⟨.added, some producer.snapshotId, none, none, dataFile⟩)]
  else []

def existingManifests : Except Error (List ManifestFile) := do
  return (← producer.previousManifests).filter fun manifest =>
    manifest.hasAddedFiles || manifest.hasExistingFiles ||
      manifest.addedSnapshotId = producer.snapshotId

def deletedEntries : Except Error (List ManifestEntry) := do
  return (← producer.previousManifests).flatMap fun manifest =>
    (manifest.fetchManifestEntry.filter fun entry =>
      entry.dataFile.content = .equalityDeletes ∧
        entry.dataFile.filePath ∈ producer.deletedDataFiles.map (·.filePath)).map
      fun entry => { entry with status := .deleted }

/-- One manifest of deleted entries for each partition spec. -/
def writeDeleteManifest : Except Error (List ManifestFile) := do
  let deletedEntries ← producer.deletedEntries
  return (deletedEntries.map (·.dataFile.specId)).eraseDups.map fun specId =>
    writer.toManifestFile producer.snapshotId (deletedEntries.filter (·.dataFile.specId = specId))

/-- `_manifests`. -/
def manifests : Except Error (List ManifestFile) := do
  let existingManifests ← producer.existingManifests
  let deleteManifests ← producer.writeDeleteManifest writer
  return producer.writeAddedManifest writer ++ existingManifests ++ deleteManifests

end ReplaceDeleteFilesOverride

/-- `replace_delete_files_override`, for an update with the given snapshots. -/
def replaceDeleteFilesOverride (snapshotId : ℤ) (parentSnapshotId : Option ℤ)
    (snapshotById : Snapshots) : ReplaceDeleteFilesOverride where
  snapshotId := snapshotId
  parentSnapshotId := parentSnapshotId
  snapshotById := snapshotById

/-- The manifests that `commit_replace_snapshot` commits. -/
def commitReplaceSnapshot (writer : ManifestWriter) (snapshotId : ℤ)
    (parentSnapshotId : Option ℤ) (snapshotById : Snapshots)
    (newPositionDeleteFiles toBeDeletedFiles : List DataFile) : Except Error (List ManifestFile) :=
  let producer := replaceDeleteFilesOverride snapshotId parentSnapshotId snapshotById
  let producer := newPositionDeleteFiles.foldl .appendDataFile producer
  (toBeDeletedFiles.foldl .deleteDataFile producer).manifests writer

section Specification

/-- A file with the path is live in a snapshot with the manifests. -/
def Live (manifests : List ManifestFile) (path : String) : Prop :=
  ∃ manifest ∈ manifests, ∃ entry ∈ manifest.entries,
    entry.status ≠ .deleted ∧ entry.dataFile.filePath = path

/-- After the commit, the live files are those before without the removed and with the new. -/
def ReplacesDeleteFiles (writer : ManifestWriter) (snapshotId parentSnapshotId : ℤ)
    (snapshotById : Snapshots) (parent : List ManifestFile)
    (newPositionDeleteFiles toBeDeletedFiles : List DataFile) : Prop :=
  ∃ manifests, commitReplaceSnapshot writer snapshotId (some parentSnapshotId) snapshotById
      newPositionDeleteFiles toBeDeletedFiles = .ok manifests ∧
    ∀ path, Live manifests path ↔
      Live parent path ∧ path ∉ toBeDeletedFiles.map (·.filePath) ∨
        path ∈ newPositionDeleteFiles.map (·.filePath)

end Specification

section Commit

variable {writer : ManifestWriter} {producer : ReplaceDeleteFilesOverride}
  {parent : List ManifestFile} {newPositionDeleteFiles toBeDeletedFiles : List DataFile}
  {path : String}

theorem live_append {left right : List ManifestFile} :
    Live (left ++ right) path ↔ Live left path ∨ Live right path := by
  simp only [Live, List.mem_append, or_and_right, exists_or]

/-- The summary of a manifest with a live entry does not hide it. -/
theorem ManifestFile.hasFiles_of_live {manifest : ManifestFile} {entry : ManifestEntry}
    (entryMem : entry ∈ manifest.entries) (isLive : entry.status ≠ .deleted) :
    manifest.hasAddedFiles || manifest.hasExistingFiles := by
  have counted : 0 < countStatus manifest.entries entry.status := by
    rw [countStatus, List.countP_pos_iff]
    exact ⟨entry, entryMem, by simp⟩
  rw [Bool.or_eq_true]
  cases status : entry.status with
  | added =>
      left
      rw [status] at counted
      simp only [hasAddedFiles, Option.all_eq_true, decide_eq_true_eq]
      intro count isCount
      rw [manifest.addedCounted count isCount]
      exact counted
  | existing =>
      right
      rw [status] at counted
      simp only [hasExistingFiles, Option.all_eq_true, decide_eq_true_eq]
      intro count isCount
      rw [manifest.existingCounted count isCount]
      exact counted
  | deleted => exact absurd status isLive

/-- Carrying over manifests keeps the live files. -/
theorem live_filter (keep : ManifestFile → Bool)
    (keepsFiles : ∀ manifest, manifest.hasAddedFiles || manifest.hasExistingFiles → keep manifest) :
    Live (parent.filter keep) path ↔ Live parent path := by
  constructor
  · rintro ⟨manifest, manifestMem, isListed⟩
    exact ⟨manifest, List.mem_of_mem_filter manifestMem, isListed⟩
  · rintro ⟨manifest, manifestMem, entry, entryMem, isLive, isPath⟩
    have kept := keepsFiles manifest (manifest.hasFiles_of_live entryMem isLive)
    exact ⟨manifest, List.mem_filter.mpr ⟨manifestMem, kept⟩, entry, entryMem, isLive, isPath⟩

/-- What is live in a manifest that was written is live in its entries. -/
theorem live_toManifestFile {snapshotId : ℤ} {entries : List ManifestEntry} :
    Live [writer.toManifestFile snapshotId entries] path ↔
      ∃ entry ∈ entries, entry.status ≠ .deleted ∧ entry.dataFile.filePath = path := by
  have liveIn : ∀ listed : List ManifestEntry,
      (∃ entry ∈ listed, entry.status ≠ .deleted ∧ entry.dataFile.filePath = path) ↔
        ∃ pair ∈ listed.map fun entry => (entry.status, entry.dataFile),
          pair.1 ≠ .deleted ∧ pair.2.filePath = path := by
    intro listed
    simp
  simp only [Live, List.mem_singleton, exists_eq_left]
  rw [liveIn, liveIn, writer.keepsFiles]

theorem live_writeAddedManifest :
    Live (producer.writeAddedManifest writer) path ↔
      path ∈ producer.addedDataFiles.map (·.filePath) := by
  rw [ReplaceDeleteFilesOverride.writeAddedManifest]
  split_ifs with isAdded
  · simp [live_toManifestFile]
  · simp [Live, not_not.mp isAdded]

/-- The manifests of deleted entries list no live files. -/
theorem not_live_writeDeleteManifest {manifests : List ManifestFile}
    (areWritten : producer.writeDeleteManifest writer = .ok manifests) :
    ¬Live manifests path := by
  rcases except_bind_eq_ok.mp areWritten with ⟨deletedEntries, areDeleted, areWritten⟩
  rcases except_bind_eq_ok.mp areDeleted with ⟨previous, _, areDeleted⟩
  cases areWritten
  cases areDeleted
  rintro ⟨manifest, manifestMem, isListed⟩
  rcases List.mem_map.mp manifestMem with ⟨specId, _, rfl⟩
  rcases live_toManifestFile.mp ⟨_, List.mem_singleton_self _, isListed⟩ with
    ⟨entry, entryMem, isLive, _⟩
  have isDeleted := List.mem_of_mem_filter entryMem
  simp only [List.mem_flatMap, List.mem_map] at isDeleted
  rcases isDeleted with ⟨_, _, _, _, rfl⟩
  exact isLive rfl

theorem foldl_appendDataFile :
    newPositionDeleteFiles.foldl .appendDataFile producer =
      { producer with addedDataFiles := producer.addedDataFiles ++ newPositionDeleteFiles } := by
  induction newPositionDeleteFiles generalizing producer with
  | nil => simp
  | cons dataFile dataFiles ih =>
      rw [List.foldl_cons, ih]
      simp [ReplaceDeleteFilesOverride.appendDataFile]

theorem foldl_deleteDataFile :
    toBeDeletedFiles.foldl .deleteDataFile producer =
      { producer with deletedDataFiles := producer.deletedDataFiles ++ toBeDeletedFiles } := by
  induction toBeDeletedFiles generalizing producer with
  | nil => simp
  | cons dataFile dataFiles ih =>
      rw [List.foldl_cons, ih]
      simp [ReplaceDeleteFilesOverride.deleteDataFile]

/-- The manifests after a parent snapshot that was found. -/
theorem exists_manifests (previous : producer.previousManifests = .ok parent) :
    ∃ deleteManifests, producer.writeDeleteManifest writer = .ok deleteManifests ∧
      producer.manifests writer = .ok (producer.writeAddedManifest writer ++
        (parent.filter fun manifest =>
        manifest.hasAddedFiles || manifest.hasExistingFiles ||
          manifest.addedSnapshotId = producer.snapshotId) ++ deleteManifests) := by
  cases areDeleted : producer.writeDeleteManifest writer with
  | error err =>
      simp [ReplaceDeleteFilesOverride.writeDeleteManifest,
        ReplaceDeleteFilesOverride.deletedEntries, previous, bind, Except.bind, pure,
        Except.pure] at areDeleted
  | ok deleteManifests =>
      refine ⟨deleteManifests, rfl, ?_⟩
      simp only [ReplaceDeleteFilesOverride.manifests,
        ReplaceDeleteFilesOverride.existingManifests, previous, areDeleted, bind, Except.bind,
        pure, Except.pure]

/-- The commit only adds live files. -/
theorem live_commitReplaceSnapshot {snapshotId parentSnapshotId : ℤ} {snapshotById : Snapshots}
    (isParent : snapshotById parentSnapshotId = some parent) :
    ∃ manifests, commitReplaceSnapshot writer snapshotId (some parentSnapshotId) snapshotById
        newPositionDeleteFiles toBeDeletedFiles = .ok manifests ∧
      ∀ path, Live manifests path ↔
        Live parent path ∨ path ∈ newPositionDeleteFiles.map (·.filePath) := by
  rw [commitReplaceSnapshot, foldl_appendDataFile, foldl_deleteDataFile]
  have previous : (ReplaceDeleteFilesOverride.mk snapshotId (some parentSnapshotId) snapshotById
      ([] ++ newPositionDeleteFiles) ([] ++ toBeDeletedFiles)).previousManifests = .ok parent := by
    simp [ReplaceDeleteFilesOverride.previousManifests, isParent]
  rcases @exists_manifests writer _ _ previous with ⟨deleteManifests, areDeleted, areManifests⟩
  refine ⟨_, areManifests, ?_⟩
  intro path
  rw [live_append, live_append, live_writeAddedManifest, live_filter,
    or_iff_left (not_live_writeDeleteManifest areDeleted), or_comm]
  · rw [List.nil_append]
  · intro manifest hasFiles
    simp [hasFiles]

/-- Removed files stay live, so that they are only replaced if they are added again. -/
theorem replacesDeleteFiles_iff {snapshotId parentSnapshotId : ℤ} {snapshotById : Snapshots}
    (isParent : snapshotById parentSnapshotId = some parent)
    (areLive : ∀ dataFile ∈ toBeDeletedFiles, Live parent dataFile.filePath) :
    ReplacesDeleteFiles writer snapshotId parentSnapshotId snapshotById parent
        newPositionDeleteFiles toBeDeletedFiles ↔
      ∀ dataFile ∈ toBeDeletedFiles,
        dataFile.filePath ∈ newPositionDeleteFiles.map (·.filePath) := by
  rcases @live_commitReplaceSnapshot writer parent newPositionDeleteFiles toBeDeletedFiles
    snapshotId parentSnapshotId snapshotById isParent with ⟨manifests, areCommitted, live⟩
  constructor
  · rintro ⟨otherManifests, otherCommitted, replaced⟩
    rw [areCommitted] at otherCommitted
    cases otherCommitted
    intro dataFile dataFileMem
    have isLive := (live _).mpr (.inl (areLive dataFile dataFileMem))
    rcases (replaced _).mp isLive with ⟨_, notRemoved⟩ | isNew
    · exact absurd (List.mem_map_of_mem dataFileMem) notRemoved
    · exact isNew
  · intro addedAgain
    refine ⟨manifests, areCommitted, fun path => (live path).trans ?_⟩
    constructor
    · rintro (isLive | isNew)
      · by_cases isRemoved : path ∈ toBeDeletedFiles.map (·.filePath)
        · rcases List.mem_map.mp isRemoved with ⟨dataFile, dataFileMem, rfl⟩
          exact .inr (addedAgain dataFile dataFileMem)
        · exact .inl ⟨isLive, isRemoved⟩
      · exact .inr isNew
    · exact Or.imp_left And.left

/-- A manifest with its entries and their numbers. -/
def ManifestFile.ofEntries (snapshotId : ℤ) (entries : List ManifestEntry) : ManifestFile where
  addedSnapshotId := snapshotId
  entries := entries
  addedFilesCount := some (countStatus entries .added)
  existingFilesCount := some (countStatus entries .existing)
  addedCounted _ isCount := (Option.some.inj isCount).symm
  existingCounted _ isCount := (Option.some.inj isCount).symm

/-- A writer that leaves the entries as they are. -/
def writeEntries : ManifestWriter where
  toManifestFile := .ofEntries
  keepsFiles _ _ := rfl

/-- An equality delete file. -/
def equalityDeleteFile : DataFile := ⟨"equality-delete", .equalityDeletes, 0⟩

/-- A snapshot in which the equality delete file is live. -/
def deletingSnapshot : List ManifestFile :=
  [.ofEntries 1 [⟨.added, some 1, some 1, some 1, equalityDeleteFile⟩]]

theorem live_deletingSnapshot : Live deletingSnapshot equalityDeleteFile.filePath := by
  simp [Live, deletingSnapshot, ManifestFile.ofEntries]

/-- A live file that is removed and added again, beside a file that is added. -/
theorem replacesDeleteFiles_addedAgain :
    Live deletingSnapshot equalityDeleteFile.filePath ∧
      ReplacesDeleteFiles writeEntries 2 1 (fun _ => some deletingSnapshot) deletingSnapshot
        [⟨"position-delete", .positionDeletes, 0⟩, equalityDeleteFile] [equalityDeleteFile] :=
  ⟨live_deletingSnapshot,
    (replacesDeleteFiles_iff rfl (by simpa using live_deletingSnapshot)).mpr (by simp)⟩

theorem not_replacesDeleteFiles :
    ¬∀ (parent : List ManifestFile) (newPositionDeleteFiles toBeDeletedFiles : List DataFile),
      (∀ dataFile ∈ toBeDeletedFiles, Live parent dataFile.filePath) →
        ReplacesDeleteFiles writeEntries 2 1 (fun _ => some parent) parent newPositionDeleteFiles
          toBeDeletedFiles := by
  intro always
  rcases always deletingSnapshot [] [equalityDeleteFile] (by simpa using live_deletingSnapshot)
    with ⟨manifests, areCommitted, replaced⟩
  rcases @live_commitReplaceSnapshot writeEntries deletingSnapshot [] [equalityDeleteFile] 2 1
    (fun _ => some deletingSnapshot) rfl with ⟨otherManifests, otherCommitted, live⟩
  rw [areCommitted] at otherCommitted
  cases otherCommitted
  have staysLive := (live equalityDeleteFile.filePath).mpr (.inl live_deletingSnapshot)
  simpa using (replaced equalityDeleteFile.filePath).mp staysLive

end Commit

end Deltacat.Compute.Converter.Iceberg
