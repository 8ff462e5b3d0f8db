import Deltacat.Storage.CatalogState
import Mathlib.Tactic

/-!
# Reads and the snapshot of a transaction

A transaction should read the same object, with the same names, from any two
catalogs that show it the same files. Two things stand in the way. The lookups
that carry the transaction may be misled by a file that shadows the latest
visible revision. And `from_serializable` looks the namespace and the table of
an object up without the transaction, so that it takes their names from the
newest file, whoever wrote it. `Clear` excludes both for one read: no directory
that it looks at is shadowed, and the newest names are those that the
transaction may see. Then the read depends on the visible files only
(`readLatest_congr`).

The proof follows the read. Each lookup finds the newest visible file
(`IsNewest`), which the two catalogs share. Resolving the ancestors may differ
in one respect: it asks whether the directory of an ancestor exists, and an
invisible write may have made it. Nothing visible is below such a directory, so
that the read comes out empty either way (`Lost`).
-/

namespace Deltacat.Storage

open Deltacat.Library MetafileRevisionInfo

namespace Catalog

/-- The files that a transaction may see. -/
def Sees (catalog : Catalog) (txnId : TransactionId) (startTime : ℕ) (file : RevisionFile) :
    Prop :=
  file ∈ catalog.files ∧ IsVisible txnId startTime catalog.success file.info

/-- Two catalogs that show a transaction the same files. -/
def SameSnapshot (txnId : TransactionId) (startTime : ℕ) (left right : Catalog) : Prop :=
  ∀ file, left.Sees txnId startTime file ↔ right.Sees txnId startTime file

/-- The mapping directory that resolving a name looks at. -/
def mappingLookup (metafileRoot : List String) (name : LocatorName) : List RevisionDir :=
  if name.immutableId = none then [⟨metafileRoot, .mapping name⟩] else []

/-- The directories that resolving the names of the ancestors looks at. -/
def consultedFrom (catalog : Catalog) (reader : Reader) :
    List LocatorName → List String → List RevisionDir
  | [], _ => []
  | name :: names, metafileRoot =>
      mappingLookup metafileRoot name ++
        match catalog.locatorToId reader metafileRoot name with
        | .ok (some ancestorId) => catalog.consultedFrom reader names (metafileRoot ++ [ancestorId])
        | _ => []

/-- The directories that reading an object looks at on behalf of the transaction. -/
def consulted (catalog : Catalog) (reader : Reader) (metafile : Metafile) : List RevisionDir :=
  (if metafile.ancestorIds = [] then
    catalog.consultedFrom reader metafile.locator.parents [] else []) ++
  (match catalog.ancestorIds reader metafile, lookupName metafile, nonEmpty metafile.uuid with
    | .ok parentRoot, some name, none => mappingLookup parentRoot name
    | _, _, _ => []) ++
  match catalog.resolve reader metafile with
  | .ok (some dir) => [dir]
  | _ => []

/-- The ancestors whose names `from_serializable` restores into a metafile. -/
def restoredFrom (objectPath : List String) (metafile : Metafile) : List (List String) :=
  let restored (parentNumber : ℕ) : List (List String) :=
    let tablePath := objectPath.take (objectPath.length - parentNumber)
    [tablePath, tablePath.dropLast]
  match metafile.locator.name with
  | .namespaceName _ => []
  | .tableName _ => [objectPath.dropLast]
  | .tableVersionName _ => restored 1
  | .streamName _ _ | .streamAliasName _ => restored 2
  | .partitionName _ _ | .partitionAliasName _ _ => restored 3
  | .deltaName _ => restored 4

/--
The newest name of the object at a path is the one that the transaction may see,
and nothing shadows it.
-/
structure NameVisible (catalog : Catalog) (txnId : TransactionId) (startTime : ℕ)
    (objectPath : List String) : Prop where
  unshadowed : ∀ dir, revisionDirOf objectPath = some dir →
    Unshadowed (catalog.filesIn dir) (IsVisible txnId startTime catalog.success)
  newest : catalog.ancestorLocator ⟨none, none⟩ objectPath =
    catalog.ancestorLocator ⟨some txnId, some startTime⟩ objectPath

/--
Nothing invisible gets in the way of reading an object: no directory that the
read looks at is shadowed, and the newest names of the namespace and the table
of the object are the visible ones.
-/
structure Clear (catalog : Catalog) (txnId : TransactionId) (startTime : ℕ)
    (metafile : Metafile) : Prop where
  unshadowed : ∀ dir ∈ catalog.consulted ⟨some txnId, some startTime⟩ metafile,
    Unshadowed (catalog.filesIn dir) (IsVisible txnId startTime catalog.success)
  restored : ∀ dir file id content,
    catalog.resolve ⟨some txnId, some startTime⟩ metafile = .ok (some dir) →
    catalog.latest ⟨some txnId, some startTime⟩ dir = .ok (some file) →
    file.dir.entry = .metafile id → file.content = .metafile content →
      ∀ objectPath ∈ restoredFrom (file.dir.parentIds ++ [id]) content,
        catalog.NameVisible txnId startTime objectPath

/-- What a correct lookup finds: the newest of the visible files that a scan can reach. -/
def IsNewest (catalog : Catalog) (txnId : TransactionId) (startTime : ℕ) (dir : RevisionDir) :
    Option RevisionFile → Prop
  | some file =>
      catalog.Sees txnId startTime file ∧ file.dir = dir ∧
        file.info.revision ≤ maxRevisionNumber ∧ IsHead (catalog.filesIn dir) file.info ∧
        ∀ other, catalog.Sees txnId startTime other → other.dir = dir →
          other.info.revision ≤ maxRevisionNumber → other.info.revision ≤ file.info.revision
  | none =>
      ∀ other, catalog.Sees txnId startTime other → other.dir = dir →
        ¬other.info.revision ≤ maxRevisionNumber

variable {txnId : TransactionId} {startTime : ℕ} {left right catalog : Catalog}

theorem SameSnapshot.symm (same : SameSnapshot txnId startTime left right) :
    SameSnapshot txnId startTime right left :=
  fun file => (same file).symm

section Newest

variable {dir : RevisionDir}

theorem Sees.mem_filesIn {file : RevisionFile} (sees : catalog.Sees txnId startTime file)
    (inDir : file.dir = dir) : file.info ∈ catalog.filesIn dir :=
  Catalog.mem_filesIn.mpr ⟨file, sees.1, inDir, rfl⟩

/-- The newest visible file is the same in both catalogs. -/
theorem isNewest_unique (leftFormed : left.WellFormed)
    (same : SameSnapshot txnId startTime left right) {leftFound rightFound : Option RevisionFile}
    (leftNewest : left.IsNewest txnId startTime dir leftFound)
    (rightNewest : right.IsNewest txnId startTime dir rightFound) : leftFound = rightFound := by
  cases leftFound with
  | none =>
      cases rightFound with
      | none => rfl
      | some file =>
          rcases rightNewest with ⟨sees, inDir, atMost, _⟩
          exact absurd atMost (leftNewest file ((same file).mpr sees) inDir)
  | some file =>
      rcases leftNewest with ⟨sees, inDir, atMost, isHead, greatest⟩
      cases rightFound with
      | none => exact absurd atMost (rightNewest file ((same file).mp sees) inDir)
      | some other =>
          rcases rightNewest with ⟨otherSees, otherInDir, otherAtMost, otherHead, otherGreatest⟩
          have seesOther := (same other).mpr otherSees
          have otherSeesFile := (same file).mp sees
          have sameRevision : other.info.revision = file.info.revision :=
            le_antisymm (greatest other seesOther otherInDir otherAtMost)
              (otherGreatest file otherSeesFile inDir atMost)
          -- Each of the two heads its revision number, so that their names are equal.
          have sameName : other.info.fileName = file.info.fileName :=
            le_antisymm (isHead.greatest other.info (seesOther.mem_filesIn otherInDir) sameRevision)
              (otherHead.greatest file.info (otherSeesFile.mem_filesIn inDir) sameRevision.symm)
          have sameInfo := (leftFormed.wellNamed dir).eq_of_fileName_eq
            (seesOther.mem_filesIn otherInDir) (sees.mem_filesIn inDir) sameName
          rw [leftFormed.eq_of_path_eq seesOther.1 sees.1
            (Prod.ext (otherInDir.trans inDir.symm) sameInfo)]

theorem IsScan.sees {found : Option RevisionFile}
    (isScan : catalog.IsScan (IsVisible txnId startTime catalog.success) dir found) :
    ∀ file ∈ found, catalog.Sees txnId startTime file ∧ file.dir = dir := by
  rintro file ⟨⟩
  exact ⟨⟨(isScan.mem file rfl).1, isScan.scan.2.1⟩, (isScan.mem file rfl).2⟩

/-- An unshadowed lookup of the transaction finds the newest visible file. -/
theorem IsScan.isNewest {found : Option RevisionFile}
    (isScan : catalog.IsScan (IsVisible txnId startTime catalog.success) dir found)
    (unshadowed : Unshadowed (catalog.filesIn dir) (IsVisible txnId startTime catalog.success)) :
    catalog.IsNewest txnId startTime dir found := by
  have isLatest := isScan.scan.isLatestVisible_iff.mpr unshadowed
  cases found with
  | none =>
      intro other sees inDir _
      exact isLatest other.info (sees.mem_filesIn inDir) sees.2
  | some file =>
      rcases isScan.sees file rfl with ⟨sees, inDir⟩
      refine ⟨sees, inDir, isScan.scan.2.2.1, isScan.scan.1, ?_⟩
      intro other otherSees otherInDir _
      exact isLatest.2.2 other.info (otherSees.mem_filesIn otherInDir) otherSees.2

end Newest

section Congruence

variable (leftFormed : left.WellFormed) (rightFormed : right.WellFormed)
  (same : SameSnapshot txnId startTime left right)

include leftFormed rightFormed same

/-- A lookup of the transaction finds the same file in both catalogs. -/
theorem latest_congr {dir : RevisionDir}
    (leftClear : Unshadowed (left.filesIn dir) (IsVisible txnId startTime left.success))
    (rightClear : Unshadowed (right.filesIn dir) (IsVisible txnId startTime right.success)) :
    left.latest ⟨some txnId, some startTime⟩ dir =
      right.latest ⟨some txnId, some startTime⟩ dir := by
  rcases latest_scan leftFormed txnId startTime dir with ⟨leftFound, leftScan, leftLatest⟩
  rcases latest_scan rightFormed txnId startTime dir with ⟨rightFound, rightScan, rightLatest⟩
  rw [leftLatest, rightLatest, isNewest_unique leftFormed same (leftScan.isNewest leftClear)
    (rightScan.isNewest rightClear)]

theorem ancestorLocator_congr {objectPath : List String}
    (leftVisible : left.NameVisible txnId startTime objectPath)
    (rightVisible : right.NameVisible txnId startTime objectPath) :
    left.ancestorLocator ⟨none, none⟩ objectPath =
      right.ancestorLocator ⟨none, none⟩ objectPath := by
  rw [leftVisible.newest, rightVisible.newest]
  unfold ancestorLocator
  cases isDir : revisionDirOf objectPath with
  | none => rfl
  | some dir =>
      simp only [latest_congr leftFormed rightFormed same (leftVisible.unshadowed dir isDir)
        (rightVisible.unshadowed dir isDir)]

theorem tableLocator_congr {tablePath : List String}
    (leftVisible : ∀ objectPath ∈ [tablePath, tablePath.dropLast],
      left.NameVisible txnId startTime objectPath)
    (rightVisible : ∀ objectPath ∈ [tablePath, tablePath.dropLast],
      right.NameVisible txnId startTime objectPath) :
    left.tableLocator ⟨none, none⟩ tablePath = right.tableLocator ⟨none, none⟩ tablePath := by
  unfold tableLocator
  rw [ancestorLocator_congr leftFormed rightFormed same (leftVisible tablePath (by simp))
      (rightVisible tablePath (by simp)),
    ancestorLocator_congr leftFormed rightFormed same (leftVisible tablePath.dropLast (by simp))
      (rightVisible tablePath.dropLast (by simp))]

/-- The names restored into a metafile are the same in both catalogs. -/
theorem read_congr {objectPath : List String} {metafile : Metafile}
    (leftVisible : ∀ ancestor ∈ restoredFrom objectPath metafile,
      left.NameVisible txnId startTime ancestor)
    (rightVisible : ∀ ancestor ∈ restoredFrom objectPath metafile,
      right.NameVisible txnId startTime ancestor) :
    left.read objectPath metafile = right.read objectPath metafile := by
  unfold restoredFrom at leftVisible rightVisible
  unfold read
  cases isName : metafile.locator.name with
  | namespaceName value => rfl
  | tableName value =>
      simp only [isName] at leftVisible rightVisible ⊢
      rw [ancestorLocator_congr leftFormed rightFormed same
        (leftVisible objectPath.dropLast (by simp)) (rightVisible objectPath.dropLast (by simp))]
  | _ =>
      simp only [isName] at leftVisible rightVisible ⊢
      rw [tableLocator_congr leftFormed rightFormed same leftVisible rightVisible]

theorem locatorToId_congr {metafileRoot : List String} {name : LocatorName}
    (leftClear : ∀ dir ∈ mappingLookup metafileRoot name,
      Unshadowed (left.filesIn dir) (IsVisible txnId startTime left.success))
    (rightClear : ∀ dir ∈ mappingLookup metafileRoot name,
      Unshadowed (right.filesIn dir) (IsVisible txnId startTime right.success)) :
    left.locatorToId ⟨some txnId, some startTime⟩ metafileRoot name =
      right.locatorToId ⟨some txnId, some startTime⟩ metafileRoot name := by
  unfold locatorToId
  cases isMutable : name.immutableId with
  | some id => rfl
  | none =>
      simp only [mappingLookup, isMutable, if_true, List.mem_singleton, forall_eq]
        at leftClear rightClear
      rw [latest_congr leftFormed rightFormed same leftClear rightClear]

end Congruence

/-- Nothing that the transaction may see is below an object. -/
def NothingBelow (catalog : Catalog) (txnId : TransactionId) (startTime : ℕ)
    (objectPath : List String) : Prop :=
  ∀ file, catalog.Sees txnId startTime file → ¬objectPath <+: file.dir.parentIds

/-- The ancestors do not lead to anything that the transaction may see. -/
def Lost (catalog : Catalog) (txnId : TransactionId) (startTime : ℕ)
    (ancestorIds : Except Error (List String)) : Prop :=
  ancestorIds = .error .objectNotFoundError ∨
    ∃ metafileRoot, ancestorIds = .ok metafileRoot ∧
      catalog.NothingBelow txnId startTime metafileRoot

section Lost

theorem NothingBelow.child {objectPath : List String}
    (nothing : catalog.NothingBelow txnId startTime objectPath) (id : String) :
    catalog.NothingBelow txnId startTime (objectPath ++ [id]) :=
  fun file sees below => nothing file sees ((List.prefix_append _ _).trans below)

theorem NothingBelow.latest {objectPath : List String} (formed : catalog.WellFormed)
    (nothing : catalog.NothingBelow txnId startTime objectPath) (entry : RevisionEntry) :
    catalog.latest ⟨some txnId, some startTime⟩ ⟨objectPath, entry⟩ = .ok none := by
  rcases latest_scan formed txnId startTime ⟨objectPath, entry⟩ with ⟨found, isScan, isLatest⟩
  cases found with
  | none => exact isLatest
  | some file =>
      rcases isScan.sees file rfl with ⟨sees, inDir⟩
      exact absurd (by rw [inDir]) (nothing file sees)

/-- A path whose directory does not exist has nothing below it. -/
theorem nothingBelow_of_not_mem {objectPath : List String} (formed : catalog.WellFormed)
    (missing : objectPath ∉ catalog.objectDirs) (nonempty : objectPath ≠ []) :
    catalog.NothingBelow txnId startTime objectPath := by
  intro file sees below
  apply missing
  apply formed.housed file sees.1
  have isInit : ∀ path, objectPath <+: path → objectPath ∈ path.inits.tail := by
    intro path isPrefix
    have inInits := (List.mem_inits objectPath path).mpr isPrefix
    cases path with
    | nil => exact absurd (List.prefix_nil.mp isPrefix) nonempty
    | cons head tail => simpa [nonempty] using inInits
  unfold directoriesOf
  split
  · exact isInit _ (below.trans (List.prefix_append _ _))
  · exact isInit _ below

theorem lost_of_nothingBelow (formed : catalog.WellFormed) (names : List LocatorName)
    {metafileRoot : List String} (nothing : catalog.NothingBelow txnId startTime metafileRoot) :
    catalog.Lost txnId startTime
      (catalog.ancestorIdsFrom ⟨some txnId, some startTime⟩ names metafileRoot) := by
  induction names generalizing metafileRoot with
  | nil => exact Or.inr ⟨metafileRoot, rfl, nothing⟩
  | cons name names ih =>
      unfold ancestorIdsFrom locatorToId
      cases isMutable : name.immutableId with
      | none =>
          left
          simp [nothing.latest formed, bind, Except.bind, pure, Except.pure]
      | some id =>
          simp only [bind, Except.bind, pure, Except.pure]
          split
          · exact ih (nothing.child id)
          · exact Or.inl rfl

/-- Below lost ancestors an object is not resolved, or to where there is nothing to see. -/
theorem resolve_lost (formed : catalog.WellFormed) {metafile : Metafile}
    (lost : catalog.Lost txnId startTime
      (catalog.ancestorIds ⟨some txnId, some startTime⟩ metafile)) :
    catalog.resolve ⟨some txnId, some startTime⟩ metafile = .ok none ∨
      ∃ metafileRoot id, catalog.NothingBelow txnId startTime metafileRoot ∧
        catalog.resolve ⟨some txnId, some startTime⟩ metafile =
          .ok (some ⟨metafileRoot, .metafile id⟩) := by
  unfold resolve
  rcases lost with isMissing | ⟨metafileRoot, isRoot, nothing⟩
  · rw [isMissing]
    exact Or.inl rfl
  · rw [isRoot]
    cases lookupName metafile with
    | none => exact Or.inl rfl
    | some name =>
        have mapped : ∀ immutableId : Option String,
            (Except.ok ((nonEmpty immutableId).map fun id => ⟨metafileRoot, .metafile id⟩) :
                Except Error (Option RevisionDir)) = .ok none ∨
              ∃ root id, catalog.NothingBelow txnId startTime root ∧
                (Except.ok ((nonEmpty immutableId).map fun id => ⟨metafileRoot, .metafile id⟩) :
                  Except Error (Option RevisionDir)) = .ok (some ⟨root, .metafile id⟩) := by
          intro immutableId
          cases nonEmpty immutableId with
          | none => exact Or.inl rfl
          | some id => exact Or.inr ⟨metafileRoot, id, nothing, rfl⟩
        cases nonEmpty metafile.uuid with
        | some uuid => exact mapped (some uuid)
        | none =>
            simp only [locatorToId]
            cases name.immutableId with
            | some id => exact mapped (some id)
            | none =>
                rw [nothing.latest formed]
                exact mapped none

/-- Reading below lost ancestors finds nothing. -/
theorem latestOf_lost (formed : catalog.WellFormed) {metafile : Metafile}
    (lost : catalog.Lost txnId startTime
      (catalog.ancestorIds ⟨some txnId, some startTime⟩ metafile)) (materialize : Bool) :
    catalog.latestOf ⟨some txnId, some startTime⟩ metafile materialize = .ok none := by
  unfold latestOf
  rcases resolve_lost formed lost with isNone | ⟨metafileRoot, id, nothing, isSome⟩
  · rw [isNone]
    rfl
  · simp [isSome, nothing.latest formed, bind, Except.bind, pure, Except.pure]

/-- The ancestors are resolved alike in both catalogs, or lead nowhere in both. -/
theorem ancestorIdsFrom_congr (leftFormed : left.WellFormed) (rightFormed : right.WellFormed)
    (same : SameSnapshot txnId startTime left right) (names : List LocatorName)
    (metafileRoot : List String)
    (leftClear : ∀ dir ∈ left.consultedFrom ⟨some txnId, some startTime⟩ names metafileRoot,
      Unshadowed (left.filesIn dir) (IsVisible txnId startTime left.success))
    (rightClear : ∀ dir ∈ right.consultedFrom ⟨some txnId, some startTime⟩ names metafileRoot,
      Unshadowed (right.filesIn dir) (IsVisible txnId startTime right.success)) :
    left.ancestorIdsFrom ⟨some txnId, some startTime⟩ names metafileRoot =
        right.ancestorIdsFrom ⟨some txnId, some startTime⟩ names metafileRoot ∨
      left.Lost txnId startTime
          (left.ancestorIdsFrom ⟨some txnId, some startTime⟩ names metafileRoot) ∧
        right.Lost txnId startTime
          (right.ancestorIdsFrom ⟨some txnId, some startTime⟩ names metafileRoot) := by
  induction names generalizing metafileRoot with
  | nil => exact Or.inl rfl
  | cons name names ih =>
      unfold consultedFrom at leftClear rightClear
      have sameId := locatorToId_congr leftFormed rightFormed same
        (fun dir dirMem => leftClear dir (List.mem_append_left _ dirMem))
        (fun dir dirMem => rightClear dir (List.mem_append_left _ dirMem))
      unfold ancestorIdsFrom
      rw [← sameId] at rightClear ⊢
      cases isId : left.locatorToId ⟨some txnId, some startTime⟩ metafileRoot name with
      | error error => exact Or.inl rfl
      | ok found =>
          cases found with
          | none => exact Or.inl rfl
          | some ancestorId =>
              rw [isId] at leftClear rightClear
              have deeper := ih (metafileRoot ++ [ancestorId])
                (fun dir dirMem => leftClear dir (List.mem_append_right _ dirMem))
                (fun dir dirMem => rightClear dir (List.mem_append_right _ dirMem))
              have nonempty : metafileRoot ++ [ancestorId] ≠ [] := by simp
              simp only [bind, Except.bind]
              by_cases inLeft : metafileRoot ++ [ancestorId] ∈ left.objectDirs
              · by_cases inRight : metafileRoot ++ [ancestorId] ∈ right.objectDirs
                · rw [if_pos inLeft, if_pos inRight]
                  exact deeper
                · -- An invisible write made the directory in the left catalog only.
                  have nothing : right.NothingBelow txnId startTime _ :=
                    nothingBelow_of_not_mem rightFormed inRight nonempty
                  right
                  rw [if_pos inLeft, if_neg inRight]
                  refine ⟨lost_of_nothingBelow leftFormed names ?_, Or.inl rfl⟩
                  exact fun file sees => nothing file ((same file).mp sees)
              · by_cases inRight : metafileRoot ++ [ancestorId] ∈ right.objectDirs
                · have nothing : left.NothingBelow txnId startTime _ :=
                    nothingBelow_of_not_mem leftFormed inLeft nonempty
                  right
                  rw [if_neg inLeft, if_pos inRight]
                  refine ⟨Or.inl rfl, lost_of_nothingBelow rightFormed names ?_⟩
                  exact fun file sees => nothing file ((same file).mpr sees)
                · rw [if_neg inLeft, if_neg inRight]
                  exact Or.inl rfl

theorem ancestorIds_congr (leftFormed : left.WellFormed) (rightFormed : right.WellFormed)
    (same : SameSnapshot txnId startTime left right) {metafile : Metafile}
    (leftClear : left.Clear txnId startTime metafile)
    (rightClear : right.Clear txnId startTime metafile) :
    left.ancestorIds ⟨some txnId, some startTime⟩ metafile =
        right.ancestorIds ⟨some txnId, some startTime⟩ metafile ∨
      left.Lost txnId startTime (left.ancestorIds ⟨some txnId, some startTime⟩ metafile) ∧
        right.Lost txnId startTime (right.ancestorIds ⟨some txnId, some startTime⟩ metafile) := by
  unfold ancestorIds
  by_cases isUnknown : metafile.ancestorIds = []
  · rw [if_pos isUnknown, if_pos isUnknown]
    apply ancestorIdsFrom_congr leftFormed rightFormed same
    · intro dir dirMem
      apply leftClear.unshadowed dir
      simp [consulted, isUnknown, dirMem]
    · intro dir dirMem
      apply rightClear.unshadowed dir
      simp [consulted, isUnknown, dirMem]
  · rw [if_neg isUnknown, if_neg isUnknown]
    exact Or.inl rfl

/-- With the same ancestors, an object is resolved alike in both catalogs. -/
theorem resolve_congr (leftFormed : left.WellFormed) (rightFormed : right.WellFormed)
    (same : SameSnapshot txnId startTime left right) {metafile : Metafile}
    (leftClear : left.Clear txnId startTime metafile)
    (rightClear : right.Clear txnId startTime metafile)
    (sameAncestors : left.ancestorIds ⟨some txnId, some startTime⟩ metafile =
      right.ancestorIds ⟨some txnId, some startTime⟩ metafile) :
    left.resolve ⟨some txnId, some startTime⟩ metafile =
      right.resolve ⟨some txnId, some startTime⟩ metafile := by
  have leftLookups := leftClear.unshadowed
  have rightLookups := rightClear.unshadowed
  unfold consulted at leftLookups rightLookups
  unfold resolve
  rw [← sameAncestors] at rightLookups ⊢
  cases isRoot : left.ancestorIds ⟨some txnId, some startTime⟩ metafile with
  | error error => cases error <;> rfl
  | ok parentRoot =>
      cases isName : lookupName metafile with
      | none => rfl
      | some name =>
          cases isUuid : nonEmpty metafile.uuid with
          | some uuid => rfl
          | none =>
              rw [isRoot, isName, isUuid] at leftLookups rightLookups
              have leftLookup : ∀ dir ∈ mappingLookup parentRoot name,
                  Unshadowed (left.filesIn dir) (IsVisible txnId startTime left.success) :=
                fun dir dirMem => leftLookups dir (by simp [dirMem])
              have rightLookup : ∀ dir ∈ mappingLookup parentRoot name,
                  Unshadowed (right.filesIn dir) (IsVisible txnId startTime right.success) :=
                fun dir dirMem => rightLookups dir (by simp [dirMem])
              simp only [locatorToId_congr leftFormed rightFormed same leftLookup rightLookup]

/-- Reading the latest revision of an object depends on what the transaction may see only. -/
theorem latestOf_congr (leftFormed : left.WellFormed) (rightFormed : right.WellFormed)
    (same : SameSnapshot txnId startTime left right) {metafile : Metafile}
    (leftClear : left.Clear txnId startTime metafile)
    (rightClear : right.Clear txnId startTime metafile) (materialize : Bool) :
    left.latestOf ⟨some txnId, some startTime⟩ metafile materialize =
      right.latestOf ⟨some txnId, some startTime⟩ metafile materialize := by
  rcases ancestorIds_congr leftFormed rightFormed same leftClear rightClear with
    sameAncestors | ⟨leftLost, rightLost⟩
  · have sameDir := resolve_congr leftFormed rightFormed same leftClear rightClear sameAncestors
    unfold latestOf
    cases isResolved : left.resolve ⟨some txnId, some startTime⟩ metafile with
    | error error => rw [← sameDir, isResolved]; rfl
    | ok resolved =>
        rw [← sameDir, isResolved]
        cases resolved with
        | none => rfl
        | some dir =>
            have rightResolved := sameDir.symm.trans isResolved
            have sameLatest := latest_congr leftFormed rightFormed same
              (leftClear.unshadowed dir (by simp [consulted, isResolved]))
              (rightClear.unshadowed dir (by simp [consulted, rightResolved]))
            simp only [bind, Except.bind, ← sameLatest]
            cases isLatest : left.latest ⟨some txnId, some startTime⟩ dir with
            | error error => rfl
            | ok found =>
                cases found with
                | none => rfl
                | some file =>
                    have rightLatest := sameLatest.symm.trans isLatest
                    have sameItem : left.readFile file = right.readFile file := by
                      unfold readFile
                      split
                      case h_1 id content isEntry isContent =>
                        exact read_congr leftFormed rightFormed same
                          (leftClear.restored dir file id content isResolved isLatest isEntry
                            isContent)
                          (rightClear.restored dir file id content rightResolved rightLatest isEntry
                            isContent)
                      case h_2 => rfl
                    simp only [sameItem]
  · rw [latestOf_lost leftFormed leftLost, latestOf_lost rightFormed rightLost]

end Lost

/--
Two catalogs that show a transaction the same files give it the same object with
the same names, if nothing invisible gets in the way in either of them.
-/
theorem readLatest_congr (leftFormed : left.WellFormed) (rightFormed : right.WellFormed)
    (same : SameSnapshot txnId startTime left right) {metafile : Metafile}
    (leftClear : left.Clear txnId startTime metafile)
    (rightClear : right.Clear txnId startTime metafile) (limit : Option ℕ) :
    left.readTxn ⟨some txnId, some startTime⟩ (.readLatest metafile limit) =
      right.readTxn ⟨some txnId, some startTime⟩ (.readLatest metafile limit) := by
  unfold readTxn
  simp only [latestOf_congr leftFormed rightFormed same leftClear rightClear]

section Examples

/-- The transaction that created the namespace and the table below. -/
def author : TransactionId := .numbered 5 0

/-- A transaction that has not ended. -/
def intruder : TransactionId := .numbered 8 2

/-- The transaction that reads. -/
def observer : TransactionId := .numbered 10 1

def storeNamespace (name : String) : Metafile where
  locator := ⟨[], .namespaceName name⟩
  uuid := some "n1"

def storeTable (name uuid : String) : Metafile where
  locator := ⟨[.namespaceName "sales"], .tableName name⟩
  uuid := some uuid

/-- A namespace `sales` with a table `orders`, committed at time 6. -/
def store : Catalog :=
  { ((Catalog.empty.writeTxn author (.create (storeNamespace "sales"))).1.writeTxn author
      (.create (storeTable "orders" "t1"))).1 with
    success := fun txnId => if txnId = author then some 6 else none }

/-- The same, while another transaction is renaming the namespace. -/
def renamedStore : Catalog :=
  (store.writeTxn intruder (.update (storeNamespace "sales") (storeNamespace "retail") rfl)).1

/-- The same, while another transaction is creating a second table. -/
def extendedStore : Catalog :=
  (store.writeTxn intruder (.create (storeTable "returns" "t2"))).1

def ordersQuery : Metafile where
  locator := ⟨[.namespaceName "sales"], .tableName "orders"⟩

private theorem store_wellFormed : store.WellFormed := by
  have created := (WellFormed.empty.writeTxn author
    (show (TransactionOperation.create (storeNamespace "sales")).isWrite from rfl)).writeTxn author
    (show (TransactionOperation.create (storeTable "orders" "t1")).isWrite from rfl)
  exact { created with }

private theorem renamedStore_wellFormed : renamedStore.WellFormed :=
  store_wellFormed.writeTxn intruder rfl

private theorem extendedStore_wellFormed : extendedStore.WellFormed :=
  store_wellFormed.writeTxn intruder rfl

private theorem sameSnapshot_of_forall
    (forth : ∀ file ∈ left.files, IsVisible txnId startTime left.success file.info →
      file ∈ right.files ∧ IsVisible txnId startTime right.success file.info)
    (back : ∀ file ∈ right.files, IsVisible txnId startTime right.success file.info →
      file ∈ left.files ∧ IsVisible txnId startTime left.success file.info) :
    SameSnapshot txnId startTime left right :=
  fun file => ⟨fun sees => forth file sees.1 sees.2, fun sees => back file sees.1 sees.2⟩

private theorem unshadowed_of_forall {files : List MetafileRevisionInfo}
    {visible : MetafileRevisionInfo → Prop}
    (allVisible : ∀ mri ∈ files, visible mri ∧ mri.revision ≤ maxRevisionNumber) :
    Unshadowed files visible := by
  intro mri mriMem _ _
  rcases exists_isHead mriMem with ⟨head, isHead, sameRevision⟩
  exact ⟨(allVisible mri mriMem).2, head, isHead, sameRevision, (allVisible head isHead.mem).1⟩

/-- Reading the table looks at few directories, which are evaluated here. -/
private theorem clear_ordersQuery {found : RevisionFile} {content : Metafile}
    (lookups : ∀ dir ∈ ⟨[], .metafile "n1"⟩ :: catalog.consulted (readerOf observer) ordersQuery,
      ∀ mri ∈ catalog.filesIn dir,
        IsVisible observer 10 catalog.success mri ∧ mri.revision ≤ maxRevisionNumber)
    (isResolved : catalog.resolve (readerOf observer) ordersQuery =
      .ok (some ⟨["n1"], .metafile "t1"⟩))
    (isLatest : catalog.latest (readerOf observer) ⟨["n1"], .metafile "t1"⟩ = .ok (some found))
    (isDir : found.dir = ⟨["n1"], .metafile "t1"⟩) (isContent : found.content = .metafile content)
    (isTable : content.locator.name = .tableName "orders")
    (isNewest : catalog.ancestorLocator ⟨none, none⟩ ["n1"] =
      catalog.ancestorLocator (readerOf observer) ["n1"]) :
    catalog.Clear observer 10 ordersQuery := by
  have unshadowed : ∀ dir ∈ (⟨[], .metafile "n1"⟩ : RevisionDir) ::
      catalog.consulted (readerOf observer) ordersQuery,
        Unshadowed (catalog.filesIn dir) (IsVisible observer 10 catalog.success) :=
    fun dir dirMem => unshadowed_of_forall (lookups dir dirMem)
  refine ⟨fun dir dirMem => unshadowed dir (List.mem_cons_of_mem _ dirMem), ?_⟩
  intro dir file id other resolved latest isEntry otherContent objectPath isAncestor
  obtain rfl : dir = ⟨["n1"], .metafile "t1"⟩ := by
    simpa using resolved.symm.trans isResolved
  obtain rfl : file = found := by
    simpa using latest.symm.trans isLatest
  obtain rfl : other = content := by
    simpa using otherContent.symm.trans isContent
  obtain rfl : id = "t1" := by
    rw [isDir] at isEntry
    simpa using isEntry.symm
  simp only [restoredFrom, isTable, isDir, List.cons_append, List.nil_append,
    List.dropLast_cons_cons, List.dropLast_singleton, List.mem_singleton] at isAncestor
  subst isAncestor
  refine ⟨?_, isNewest⟩
  intro dir isParent
  obtain rfl : dir = ⟨[], .metafile "n1"⟩ := by
    simpa [revisionDirOf] using isParent.symm
  exact unshadowed _ List.mem_cons_self

/-- A transaction that creates another table does not show through a read of this one. -/
theorem readLatest_congr_extendedStore :
    store.files ≠ extendedStore.files ∧
      store.readTxn (readerOf observer) (.readLatest ordersQuery none) =
        extendedStore.readTxn (readerOf observer) (.readLatest ordersQuery none) := by
  refine ⟨by decide +kernel, ?_⟩
  apply readLatest_congr store_wellFormed extendedStore_wellFormed
  · exact sameSnapshot_of_forall (by decide +kernel) (by decide +kernel)
  · exact clear_ordersQuery (by decide +kernel) (by decide +kernel) rfl rfl rfl rfl
      (by decide +kernel)
  · exact clear_ordersQuery (by decide +kernel) (by decide +kernel) rfl rfl rfl rfl
      (by decide +kernel)

/--
A transaction that is renaming the namespace shows through a read of the table:
the locator of the table names the new namespace.
-/
theorem not_readLatest_congr :
    store.WellFormed ∧ renamedStore.WellFormed ∧ SameSnapshot observer 10 store renamedStore ∧
      store.readTxn (readerOf observer) (.readLatest ordersQuery none) ≠
        renamedStore.readTxn (readerOf observer) (.readLatest ordersQuery none) := by
  refine ⟨store_wellFormed, renamedStore_wellFormed, ?_, by decide +kernel⟩
  exact sameSnapshot_of_forall (by decide +kernel) (by decide +kernel)

end Examples

end Catalog

end Deltacat.Storage
