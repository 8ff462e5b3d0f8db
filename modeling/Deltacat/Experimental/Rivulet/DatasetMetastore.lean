import Deltacat.Library.Delimiter
import Deltacat.Storage.RevisionScan
import Mathlib.Data.List.MinMax

/-!
# The metastore of a dataset

`generate_manifests` goes through the delta directories of a partition and reads
one revision file of each, without a transaction. It takes the file with the
greatest path, whoever wrote it and whatever the operation. Paths also compare
the names of the partition directories between `rev` and the file as texts,
which is not the order of the revision numbers. The manifests are those of the
committed deltas exactly if in each directory with a file the file of the
greatest path is committed, no delete and the latest of the committed ones
(`readsCommittedDeltas_iff`).
-/

namespace Deltacat.Experimental.Rivulet.DatasetMetastore

open Deltacat.Library Deltacat.Storage Deltacat.Storage.MetafileRevisionInfo Deltacat.Utils

universe u

/-- A directory in the partition directory, with what is below its `rev` directory. -/
structure ChildDirectory where
  baseName : String
  rev : RevisionDirectory

namespace ChildDirectory

/-- `base_name.isdigit()`, which holds of the directories of deltas. -/
def IsDelta (child : ChildDirectory) : Prop :=
  child.baseName.toList ≠ [] ∧ child.baseName.toList.all Char.isDigit

instance : DecidablePred IsDelta :=
  fun child => inferInstanceAs (Decidable (child.baseName.toList ≠ [] ∧ _))

end ChildDirectory

/-- A partition directory: whether it has a `rev` directory, and the other directories in it. -/
structure PartitionDirectory where
  hasRev : Bool
  children : List ChildDirectory
  distinct : (children.map ChildDirectory.baseName).Nodup

/-- The path of a file relative to the `rev` directory. -/
def path (file : DirectoryEntry) : String :=
  file.parent.foldr (fun directory rest => directory ++ "/" ++ rest) file.name

/-- A revision file of a delta: the delta's directory and the file below its `rev` directory. -/
abbrev DeltaFile := String × DirectoryEntry

/-- What a metadata file of a delta holds for the readers of a dataset. -/
structure Delta (Schema : Type u) where
  schema : Schema
  streamPosition : ℕ
  level : ℕ
  entryUris : List String

structure DeltaContext (Schema : Type u) where
  schema : Schema
  streamPosition : ℕ
  level : ℕ

structure RivuletDelta (Schema : Type u) where
  dcDelta : Delta Schema
  context : DeltaContext Schema

namespace RivuletDelta

variable {Schema : Type u}

/-- `RivuletDelta.of`. -/
def of (delta : Delta Schema) : RivuletDelta Schema where
  dcDelta := delta
  context :=
    { schema := delta.schema, streamPosition := delta.streamPosition, level := delta.level }

/-- `sst_files`. -/
def sstFiles (delta : RivuletDelta Schema) : List String := delta.dcDelta.entryUris

end RivuletDelta

/-- `ManifestAccessor`, with the file that its manifest was read from. -/
structure ManifestAccessor (Schema : Type u) where
  source : DeltaFile
  manifest : RivuletDelta Schema

section Reading

variable {Schema : Type u} (read : DeltaFile → Delta Schema)

/-- The file `_get_delta` reads: the first one with the greatest path. -/
def latestRevision (child : ChildDirectory) : Option DirectoryEntry :=
  (child.rev.filesystem.filter fun item => item.isFile).argmax path

/-- `_get_delta`. -/
def getDelta (child : ChildDirectory) : Option (ManifestAccessor Schema) :=
  (latestRevision child).map fun file =>
    { source := (child.baseName, file), manifest := RivuletDelta.of (read (child.baseName, file)) }

/-- `generate_manifests`, of a partition directory if it exists. -/
def generateManifests (partition : Option PartitionDirectory) : List (ManifestAccessor Schema) :=
  match partition with
  | none => []
  | some directory =>
      if directory.hasRev then
        (directory.children.filter fun child => child.IsDelta).filterMap (getDelta read)
      else []

end Reading

/-- The latest revision of a delta that a successful transaction wrote. -/
def IsLatestCommitted (endTime : SuccessLog) (files : List MetafileRevisionInfo)
    (mri : MetafileRevisionInfo) : Prop :=
  mri ∈ files ∧ (endTime mri.txnId).isSome ∧
    ∀ other ∈ files, (endTime other.txnId).isSome → other.revision ≤ mri.revision

/-- The delta directories of a partition directory, if it exists. -/
def deltaDirectories (partition : Option PartitionDirectory) : List ChildDirectory :=
  match partition with
  | none => []
  | some directory => directory.children.filter fun child => child.IsDelta

/--
There is one manifest for each delta whose latest committed revision is no
delete, read from that revision, and no other manifest.
-/
structure ReadsCommittedDeltas {Schema : Type u} (endTime : SuccessLog)
    (read : DeltaFile → Delta Schema) (partition : Option PartitionDirectory) : Prop where
  once : ((generateManifests read partition).map fun accessor => accessor.source.1).Nodup
  committed : ∀ accessor ∈ generateManifests read partition,
    ∃ child ∈ deltaDirectories partition, ∃ mri,
      IsLatestCommitted endTime child.rev.files mri ∧ mri.txnOpType ≠ .delete ∧
        accessor.source = (child.baseName, mri.valuedFile.entry) ∧
        accessor.manifest = RivuletDelta.of (read accessor.source)
  complete : ∀ child ∈ deltaDirectories partition, ∀ mri,
    IsLatestCommitted endTime child.rev.files mri → mri.txnOpType ≠ .delete →
      ∃ accessor ∈ generateManifests read partition, accessor.source.1 = child.baseName

/--
There is no file, or the file of the greatest path is committed, no delete, and
the latest of the committed ones.
-/
def EndsCommitted (endTime : SuccessLog) (files : List MetafileRevisionInfo) : Prop :=
  files = [] ∨ ∃ mri, IsLatestCommitted endTime files mri ∧ mri.txnOpType ≠ .delete ∧
    ∀ other ∈ files, path other.valuedFile.entry ≤ path mri.valuedFile.entry

/--
Every delta directory ends with a committed file. If the partition itself has no
revisions there is no live delta in it.
-/
def Settled (endTime : SuccessLog) (partition : Option PartitionDirectory) : Prop :=
  ∀ directory ∈ partition, ∀ child ∈ directory.children, child.IsDelta →
    if directory.hasRev then EndsCommitted endTime child.rev.files
    else ∀ mri, IsLatestCommitted endTime child.rev.files mri → mri.txnOpType = .delete

section Paths

theorem toList_path_entry (mri : MetafileRevisionInfo) :
    (path mri.valuedFile.entry).toList =
      (outerCapacity mri.revision).repr.toList ++ (['/'] ++
        ((innerCapacity mri.revision).repr.toList ++ (['/'] ++ mri.fileName.toList))) := by
  simp [path, ValuedFile.entry, valuedFile, partitionPath]

theorem free_repr (number : ℕ) : Free ['/'] number.repr.toList := by
  intro present
  have isDigit := Nat.isDigit_of_mem_toDigits (by decide) (by decide)
    (show '/' ∈ Nat.toDigits 10 number by simpa [Nat.repr] using present.subset (by simp))
  exact absurd isDigit (by decide)

/-- Different revision files have different paths. -/
theorem path_injective {left right : MetafileRevisionInfo}
    (leftWrite : left.txnOpType.isWriteOperation) (rightWrite : right.txnOpType.isWriteOperation)
    (same : path left.valuedFile.entry = path right.valuedFile.entry) : left = right := by
  have borderFree : BorderFree ['/'] := by
    intro shift less positive
    simp only [List.length_singleton] at less
    omega
  have chars := congrArg String.toList same
  rw [toList_path_entry, toList_path_entry] at chars
  have afterOuter := (Free.append_cancel borderFree (free_repr _) (free_repr _) chars).2
  have afterInner := (Free.append_cancel borderFree (free_repr _) (free_repr _) afterOuter).2
  have parsed := congrArg parse (String.toList_injective afterInner)
  rw [parse_fileName left leftWrite, parse_fileName right rightWrite] at parsed
  exact Option.some.inj parsed

end Paths

section Latest

variable {Schema : Type u}

/-- The file that is read is the one of the greatest path. -/
theorem latestRevision_eq_some_iff {child : ChildDirectory} {file : DirectoryEntry} :
    latestRevision child = some file ↔
      ∃ mri ∈ child.rev.files, file = mri.valuedFile.entry ∧
        ∀ other ∈ child.rev.files, path other.valuedFile.entry ≤ path file := by
  have isFile (entry : DirectoryEntry) :
      entry ∈ child.rev.filesystem.filter (fun item => item.isFile) ↔
        ∃ mri ∈ child.rev.files, entry = mri.valuedFile.entry := by
    rw [List.mem_filter, child.rev.partitioned.isFile_iff]
    simp
  constructor
  · intro found
    rcases (isFile file).mp (List.argmax_mem found) with ⟨mri, present, rfl⟩
    refine ⟨mri, present, rfl, ?_⟩
    intro other otherPresent
    exact List.le_of_mem_argmax ((isFile _).mpr ⟨other, otherPresent, rfl⟩) found
  · rintro ⟨mri, present, rfl, greatest⟩
    cases found : latestRevision child with
    | none =>
        have noFile := List.argmax_eq_none.mp found
        have isOne := (isFile _).mpr ⟨mri, present, rfl⟩
        rw [noFile] at isOne
        cases isOne
    | some file =>
        rcases (isFile file).mp (List.argmax_mem found) with ⟨other, otherPresent, rfl⟩
        have atMost := List.le_of_mem_argmax ((isFile _).mpr ⟨mri, present, rfl⟩) found
        have same := path_injective (child.rev.isWrite other otherPresent)
          (child.rev.isWrite mri present) (le_antisymm (greatest other otherPresent) atMost)
        rw [same]

theorem latestRevision_eq_none_iff {child : ChildDirectory} :
    latestRevision child = none ↔ child.rev.files = [] := by
  constructor
  · intro found
    have noFile := List.argmax_eq_none.mp found
    apply List.eq_nil_iff_forall_not_mem.mpr
    intro mri present
    have isFile := (child.rev.partitioned.isFile_iff mri.valuedFile.entry).mpr
      ⟨mri.valuedFile, List.mem_map_of_mem present, rfl⟩
    exact List.eq_nil_iff_forall_not_mem.mp noFile _ (List.mem_filter.mpr isFile)
  · intro noFile
    cases found : latestRevision child with
    | none => rfl
    | some file =>
        rcases latestRevision_eq_some_iff.mp found with ⟨mri, present, _⟩
        rw [noFile] at present
        cases present

end Latest

section Manifests

variable {Schema : Type u} {read : DeltaFile → Delta Schema} {directory : PartitionDirectory}

theorem mem_deltaDirectories {child : ChildDirectory} :
    child ∈ deltaDirectories (some directory) ↔ child ∈ directory.children ∧ child.IsDelta := by
  simp [deltaDirectories]

theorem mem_generateManifests (hasRev : directory.hasRev) {accessor : ManifestAccessor Schema} :
    accessor ∈ generateManifests read (some directory) ↔
      ∃ child ∈ deltaDirectories (some directory), ∃ file, latestRevision child = some file ∧
        accessor =
          { source := (child.baseName, file),
            manifest := RivuletDelta.of (read (child.baseName, file)) } := by
  simp only [generateManifests, if_pos hasRev, List.mem_filterMap, getDelta, deltaDirectories,
    Option.map_eq_some_iff, @eq_comm _ accessor]

/-- Each delta directory is read once. -/
theorem nodup_generateManifests :
    ((generateManifests read (some directory)).map fun accessor => accessor.source.1).Nodup := by
  simp only [generateManifests]
  split
  · have distinct := List.pairwise_map.mp directory.distinct
    rw [List.map_filterMap, List.Nodup, List.pairwise_filterMap]
    apply (distinct.sublist List.filter_sublist).imp
    intro left right different leftName isLeft rightName isRight
    simp only [getDelta, Option.map_map, Option.map_eq_some_iff] at isLeft isRight
    rcases isLeft with ⟨_, _, rfl⟩
    rcases isRight with ⟨_, _, rfl⟩
    exact different
  · exact List.nodup_nil

theorem eq_of_baseName_eq {left right : ChildDirectory} (leftMem : left ∈ directory.children)
    (rightMem : right ∈ directory.children) (same : left.baseName = right.baseName) :
    left = right :=
  List.inj_on_of_nodup_map directory.distinct leftMem rightMem same

/-- A file that is read for a directory that ends with a committed one is that one. -/
theorem EndsCommitted.latestRevision {endTime : SuccessLog} {child : ChildDirectory}
    (ends : EndsCommitted endTime child.rev.files) {file : DirectoryEntry}
    (found : latestRevision child = some file) :
    ∃ mri, IsLatestCommitted endTime child.rev.files mri ∧ mri.txnOpType ≠ .delete ∧
      file = mri.valuedFile.entry := by
  rcases latestRevision_eq_some_iff.mp found with ⟨other, otherPresent, rfl, isGreatest⟩
  rcases ends with none | ⟨mri, latest, notDelete, greatest⟩
  · rw [none] at otherPresent
    cases otherPresent
  · have same := path_injective (child.rev.isWrite other otherPresent)
      (child.rev.isWrite mri latest.1)
      (le_antisymm (greatest other otherPresent) (isGreatest mri latest.1))
    exact ⟨mri, latest, notDelete, by rw [same]⟩

/--
The manifests are those of the committed deltas if and only if each delta
directory ends with a committed file that is no delete.
-/
theorem readsCommittedDeltas_iff (endTime : SuccessLog) (read : DeltaFile → Delta Schema)
    (partition : Option PartitionDirectory) :
    ReadsCommittedDeltas endTime read partition ↔ Settled endTime partition := by
  cases partition with
  | none =>
      constructor
      · rintro _ _ ⟨⟩
      · intro _
        exact ⟨List.nodup_nil, by simp [generateManifests], by simp [deltaDirectories]⟩
  | some directory =>
      constructor
      · rintro reads _ ⟨⟩ child childMem isDelta
        have isChild := mem_deltaDirectories.mpr ⟨childMem, isDelta⟩
        split
        · rename_i hasRev
          cases found : latestRevision child with
          | none => exact Or.inl (latestRevision_eq_none_iff.mp found)
          | some file =>
              have isRead := (@mem_generateManifests _ read _ hasRev _).mpr
                ⟨child, isChild, file, found, rfl⟩
              rcases reads.committed _ isRead with
                ⟨other, otherMem, mri, latest, notDelete, same, _⟩
              rw [Prod.mk.injEq] at same
              have sameChild := eq_of_baseName_eq childMem
                (mem_deltaDirectories.mp otherMem).1 same.1
              subst sameChild
              rcases latestRevision_eq_some_iff.mp found with ⟨_, _, _, greatest⟩
              rw [same.2] at greatest
              exact Or.inr ⟨mri, latest, notDelete, greatest⟩
        · rename_i noRev
          intro mri latest
          by_contra notDelete
          rcases reads.complete child isChild mri latest notDelete with ⟨accessor, isRead, _⟩
          simp [generateManifests, noRev] at isRead
      · intro settled
        refine ⟨nodup_generateManifests, ?_, ?_⟩
        · intro accessor isRead
          have hasRev : directory.hasRev := by
            by_contra noRev
            simp [generateManifests, noRev] at isRead
          rcases (mem_generateManifests hasRev).mp isRead with ⟨child, isChild, file, found, rfl⟩
          have childMem := mem_deltaDirectories.mp isChild
          have ends := settled directory rfl child childMem.1 childMem.2
          rw [if_pos hasRev] at ends
          rcases ends.latestRevision found with ⟨mri, latest, notDelete, rfl⟩
          exact ⟨child, isChild, mri, latest, notDelete, rfl, rfl⟩
        · intro child isChild mri latest notDelete
          have childMem := mem_deltaDirectories.mp isChild
          have ends := settled directory rfl child childMem.1 childMem.2
          by_cases hasRev : directory.hasRev
          · cases found : latestRevision child with
            | none =>
                have isEmpty := latestRevision_eq_none_iff.mp found
                rw [IsLatestCommitted, isEmpty] at latest
                cases latest.1
            | some file =>
                exact
                  ⟨_, (mem_generateManifests hasRev).mpr ⟨child, isChild, file, found, rfl⟩, rfl⟩
          · rw [if_neg hasRev] at ends
            exact absurd (ends mri latest) notDelete

end Manifests

/-- The transaction that created the delta and then failed or has not ended. -/
def started : TransactionId := .numbered 10 0

/-- The directory of a delta of a transaction without a success log. -/
def uncommittedDelta : ChildDirectory where
  baseName := "7"
  rev := RevisionDirectory.empty.write ⟨1, .create, started⟩
    (RevisionDirectory.partitionable_of_le_maxRevisionNumber (by decide) (by decide)) rfl

/-- A partition directory with no other delta. -/
def uncommitted : PartitionDirectory where
  hasRev := true
  children := [uncommittedDelta]
  distinct := List.nodup_singleton _

/-- The manifest of a delta that was never committed is read. -/
theorem not_readsCommittedDeltas_uncommitted :
    ¬ReadsCommittedDeltas (fun _ => none)
      (fun _ => { schema := (), streamPosition := 7, level := 0, entryUris := [] })
      (some uncommitted) := by
  intro reads
  have isChild : uncommittedDelta ∈ deltaDirectories (some uncommitted) :=
    mem_deltaDirectories.mpr ⟨List.mem_singleton.mpr rfl, by decide⟩
  cases found : latestRevision uncommittedDelta with
  | none => cases latestRevision_eq_none_iff.mp found
  | some file =>
      rcases reads.committed _
        ((mem_generateManifests rfl).mpr ⟨uncommittedDelta, isChild, file, found, rfl⟩) with
        ⟨_, _, _, ⟨_, isCommitted, _⟩, _⟩
      cases isCommitted

end Deltacat.Experimental.Rivulet.DatasetMetastore
