import Deltacat.Library.Run
import Deltacat.Storage.Transaction
import Mathlib.Tactic

/-!
# What a failed transaction leaves behind

Two laws about the life of a transaction. A successful transaction is complete
and a failed one never succeeds, over every sequence of calls; and a `commit`
that raises an exception leaves the catalog as it was.

Neither holds without a condition. A failed `step` cleans up and leaves the
transaction object usable: a caller who goes on to `seal` it gets a success log
next to the failed one, because the checks of `seal` only look at paths that
were recorded. A `step` that reads is not covered by the cleanup at all, so that
a failing read leaves the files and the running log of the writes before it. And
the cleanup deletes files only: the directory of a new object stays, and a read
below it is empty where it raised an exception before.

Both proofs rest on what one write operation can do to a catalog (`Grows`): it
adds files of its own transaction, each of them recorded, with the directories
on the way to them, and changes no log.
-/

namespace Deltacat.Storage

open Deltacat.Library MetafileRevisionInfo

namespace Catalog

/-- The paths that exist under the catalog root. -/
def paths (catalog : Catalog) : List (RevisionPath RevisionDir) :=
  catalog.files.map RevisionFile.path

/-- The files that a transaction did not write. -/
def filesOfOthers (catalog : Catalog) (txnId : TransactionId) : List RevisionFile :=
  catalog.files.filter (·.info.txnId ≠ txnId)

section Congruence

/-!
What a read returns depends on the files, on the success logs and on which
object directories exist.
-/

variable {before after : Catalog}

theorem latest_eq_of_files (files : after.files = before.files)
    (success : after.success = before.success) (reader : Reader) (dir : RevisionDir) :
    after.latest reader dir = before.latest reader dir := by
  have sameAt : after.fileAt dir = before.fileAt dir := by
    funext info
    simp only [fileAt, files]
  simp only [latest, filesIn, sameAt, files, success]

theorem locatorToId_eq_of_files (files : after.files = before.files)
    (success : after.success = before.success) (reader : Reader) (metafileRoot : List String)
    (name : LocatorName) :
    after.locatorToId reader metafileRoot name = before.locatorToId reader metafileRoot name := by
  simp only [locatorToId, latest_eq_of_files files success]

theorem readFile_eq_of_files (files : after.files = before.files)
    (success : after.success = before.success) (file : RevisionFile) :
    after.readFile file = before.readFile file := by
  simp only [readFile, read, tableLocator, ancestorLocator, latest_eq_of_files files success]

theorem listMetafilesFrom_eq_of_files (files : after.files = before.files)
    (success : after.success = before.success) (reader : Reader) (metafileRoot : List String)
    (limit : Option ℕ) (ids : List String) (items : List Metafile) :
    after.listMetafilesFrom reader metafileRoot limit ids items =
      before.listMetafilesFrom reader metafileRoot limit ids items := by
  induction ids generalizing items with
  | nil => rfl
  | cons id ids ih =>
      simp only [listMetafilesFrom, latest_eq_of_files files success,
        readFile_eq_of_files files success, ih]

theorem ancestorIdsFrom_eq_of_files (files : after.files = before.files)
    (success : after.success = before.success)
    (objectDirs : ∀ objectPath, objectPath ∈ after.objectDirs ↔ objectPath ∈ before.objectDirs)
    (reader : Reader) (names : List LocatorName) (metafileRoot : List String) :
    after.ancestorIdsFrom reader names metafileRoot =
      before.ancestorIdsFrom reader names metafileRoot := by
  induction names generalizing metafileRoot with
  | nil => rfl
  | cons name names ih =>
      simp only [ancestorIdsFrom, locatorToId_eq_of_files files success, objectDirs, ih]

theorem readTxn_eq_of_files (files : after.files = before.files)
    (success : after.success = before.success)
    (objectDirs : ∀ objectPath, objectPath ∈ after.objectDirs ↔ objectPath ∈ before.objectDirs)
    (reader : Reader) (operation : TransactionOperation) :
    after.readTxn reader operation = before.readTxn reader operation := by
  have sameAncestors : ∀ metafile,
      after.ancestorIds reader metafile = before.ancestorIds reader metafile := by
    intro metafile
    simp only [ancestorIds, ancestorIdsFrom_eq_of_files files success objectDirs]
  have sameLists : ∀ metafileRoot limit,
      after.listMetafiles reader metafileRoot limit =
        before.listMetafiles reader metafileRoot limit := by
    intro metafileRoot limit
    simp only [listMetafiles, childIds, files, listMetafilesFrom_eq_of_files files success]
  have sameLatest : ∀ metafile materialize,
      after.latestOf reader metafile materialize =
        before.latestOf reader metafile materialize := by
    intro metafile materialize
    simp only [latestOf, resolve, sameAncestors, locatorToId_eq_of_files files success,
      latest_eq_of_files files success, readFile_eq_of_files files success]
  simp only [readTxn, siblings, children, sameAncestors, sameLists, sameLatest]

end Congruence

end Catalog

theorem MetafileRevisionInfo.newRevision_txnId {files : List MetafileRevisionInfo}
    {opType : TransactionOperationType} {startTime : ℕ} {txnId : TransactionId}
    {endTime : SuccessLog} {mri : MetafileRevisionInfo}
    (isNew : newRevision files opType startTime txnId endTime = .ok mri) : mri.txnId = txnId := by
  unfold newRevision at isNew
  cases scanned : latestRevision files ⟨some txnId, some startTime⟩ endTime with
  | error => simp [scanned, bind, Except.bind] at isNew
  | ok latest =>
      simp only [scanned, bind, Except.bind] at isNew
      grind

/-- The object directories on the way to the given files. -/
def directoriesOfPaths (paths : List (RevisionPath RevisionDir)) : List (List String) :=
  paths.flatMap fun path => Catalog.directoriesOf path.1

/-- What a write operation of a transaction may do to a catalog, and what it records. -/
structure Grows (txnId : TransactionId) (before : Catalog)
    (written : List (RevisionPath RevisionDir)) (after : Catalog) : Prop where
  others : after.filesOfOthers txnId = before.filesOfOthers txnId
  own : ∀ path ∈ written, path.2.txnId = txnId
  paths : ∀ path, path ∈ after.paths ↔ path ∈ before.paths ∨ path ∈ written
  objectDirs : ∀ objectPath, objectPath ∈ after.objectDirs ↔
    objectPath ∈ before.objectDirs ∨ objectPath ∈ directoriesOfPaths written
  success : after.success = before.success
  running : after.running = before.running
  failed : after.failed = before.failed

namespace Grows

variable {txnId : TransactionId} {before middle after : Catalog}
  {written later : List (RevisionPath RevisionDir)}

theorem refl (txnId : TransactionId) (catalog : Catalog) : Grows txnId catalog [] catalog where
  others := rfl
  own := by simp
  paths := by simp
  objectDirs := by simp [directoriesOfPaths]
  success := rfl
  running := rfl
  failed := rfl

theorem trans (first : Grows txnId before written middle)
    (second : Grows txnId middle later after) :
    Grows txnId before (written ++ later) after where
  others := second.others.trans first.others
  own := by
    intro path pathMem
    rcases List.mem_append.mp pathMem with isFirst | isLater
    · exact first.own path isFirst
    · exact second.own path isLater
  paths := by
    intro path
    rw [second.paths, first.paths, List.mem_append, or_assoc]
  objectDirs := by
    intro objectPath
    rw [second.objectDirs, first.objectDirs, directoriesOfPaths, directoriesOfPaths,
      directoriesOfPaths, List.flatMap_append, List.mem_append, or_assoc]
  success := second.success.trans first.success
  running := second.running.trans first.running
  failed := second.failed.trans first.failed

theorem addFile (catalog : Catalog) {file : RevisionFile} (own : file.info.txnId = txnId) :
    Grows txnId catalog [file.path] (catalog.addFile file) where
  others := by
    -- Only a file of the same path is overwritten, and that is the transaction's own.
    simp only [Catalog.filesOfOthers, Catalog.addFile, List.filter_append, List.filter_filter]
    have dropped : [file].filter (fun other => decide (other.info.txnId ≠ txnId)) = [] := by
      simp [own]
    rw [dropped, List.append_nil]
    apply List.filter_congr
    intro other _
    by_cases isOwn : other.info.txnId = txnId
    · simp [isOwn]
    · have different : other.path ≠ file.path := by
        intro same
        exact isOwn ((congrArg (·.2.txnId) same).trans own)
      simp [isOwn, different]
  own := by simpa [RevisionFile.path] using own
  paths := by
    intro path
    simp only [Catalog.paths, Catalog.addFile, List.map_append, List.mem_append, List.mem_map,
      List.mem_filter, decide_eq_true_eq, List.map_cons, List.map_nil, List.mem_singleton]
    constructor
    · rintro (⟨other, ⟨otherMem, _⟩, rfl⟩ | rfl)
      · exact Or.inl ⟨other, otherMem, rfl⟩
      · exact Or.inr rfl
    · rintro (⟨other, otherMem, rfl⟩ | rfl)
      · by_cases same : other.path = file.path
        · exact Or.inr same
        · exact Or.inl ⟨other, ⟨otherMem, same⟩, rfl⟩
      · exact Or.inr rfl
  objectDirs := by simp [Catalog.addFile, directoriesOfPaths, RevisionFile.path]
  success := rfl
  running := rfl
  failed := rfl

end Grows

namespace Catalog

theorem writeRevision_own {catalog : Catalog} {txnId : TransactionId} {write : RevisionWrite}
    {file : RevisionFile} (isWritten : catalog.writeRevision txnId write = .ok file) :
    file.info.txnId = txnId := by
  unfold writeRevision at isWritten
  cases isNew : newRevision (catalog.filesIn write.dir) write.opType txnId.startTime txnId
      catalog.success with
  | error => simp [isNew, bind, Except.bind] at isWritten
  | ok mri =>
      simp only [isNew, bind, Except.bind, pure, Except.pure, Except.ok.injEq] at isWritten
      rw [← isWritten]
      exact newRevision_txnId isNew

theorem writeRevisions_grows (txnId : TransactionId) (writes : List RevisionWrite)
    (catalog : Catalog) :
    Grows txnId catalog (writeRevisions txnId writes catalog).2.1
      (writeRevisions txnId writes catalog).1 := by
  induction writes generalizing catalog with
  | nil => exact Grows.refl txnId catalog
  | cons write writes ih =>
      unfold writeRevisions
      split
      case h_1 file isWritten =>
        exact (Grows.addFile catalog (writeRevision_own isWritten)).trans (ih _)
      case h_2 error _ =>
        split
        · exact ih catalog
        · exact Grows.refl txnId catalog

theorem writeTxn_grows (catalog : Catalog) (txnId : TransactionId)
    (operation : TransactionOperation) :
    Grows txnId catalog (catalog.writeTxn txnId operation).2.1
      (catalog.writeTxn txnId operation).1 := by
  unfold writeTxn
  split
  · exact Grows.refl txnId catalog
  · apply writeRevisions_grows

end Catalog

namespace Transaction

theorem mem_writePaths_record (transaction : Transaction)
    (paths : List (RevisionPath RevisionDir)) (path : RevisionPath RevisionDir) :
    path ∈ (transaction.record paths).writePaths ↔
      path ∈ transaction.writePaths ∨ path ∈ paths := by
  cases isMetafile : isMetafilePath path <;>
    simp [record, writePaths, isMetafile, or_comm, or_left_comm]

end Transaction

namespace ActiveTransaction

@[simp] theorem ensureRunningLog_id (active : ActiveTransaction) :
    active.ensureRunningLog.transaction.id = active.transaction.id := by
  unfold ensureRunningLog
  split <;> rfl

@[simp] theorem ensureRunningLog_writePaths (active : ActiveTransaction) :
    active.ensureRunningLog.transaction.writePaths = active.transaction.writePaths := by
  unfold ensureRunningLog
  split <;> rfl

@[simp] theorem ensureRunningLog_files (active : ActiveTransaction) :
    active.ensureRunningLog.catalog.files = active.catalog.files := by
  unfold ensureRunningLog
  split <;> rfl

@[simp] theorem ensureRunningLog_objectDirs (active : ActiveTransaction) :
    active.ensureRunningLog.catalog.objectDirs = active.catalog.objectDirs := by
  unfold ensureRunningLog
  split <;> rfl

@[simp] theorem ensureRunningLog_success (active : ActiveTransaction) :
    active.ensureRunningLog.catalog.success = active.catalog.success := by
  unfold ensureRunningLog
  split <;> rfl

@[simp] theorem ensureRunningLog_failed (active : ActiveTransaction) :
    active.ensureRunningLog.catalog.failed = active.catalog.failed := by
  unfold ensureRunningLog
  split <;> rfl

@[simp] theorem ensureRunningLog_hasEnded (active : ActiveTransaction) :
    active.ensureRunningLog.transaction.hasEnded = active.transaction.hasEnded := by
  unfold ensureRunningLog
  split <;> rfl

/-- A write step records what it adds, and a failed one cleans up. -/
theorem writeStep_cases (active : ActiveTransaction) (operation : TransactionOperation) :
    ∃ (written : List (RevisionPath RevisionDir)) (catalog : Catalog),
      Grows active.transaction.id active.ensureRunningLog.catalog written catalog ∧
        ((∃ result, active.writeStep operation =
          (⟨active.ensureRunningLog.transaction.record written, catalog⟩, .ok result)) ∨
        ∃ error, active.writeStep operation =
          (failAndCleanup ⟨active.ensureRunningLog.transaction.record written, catalog⟩ false,
            .error error)) := by
  have grows := Catalog.writeTxn_grows active.ensureRunningLog.catalog
    active.ensureRunningLog.transaction.id operation
  rw [ensureRunningLog_id] at grows
  refine ⟨_, _, grows, ?_⟩
  unfold writeStep
  simp only [ensureRunningLog_id]
  split
  · exact Or.inl ⟨_, rfl⟩
  · exact Or.inr ⟨_, rfl⟩

/-- A read step changes nothing but the collected results. -/
@[simp] theorem listed_catalog (active : ActiveTransaction) (operation : TransactionOperation) :
    (active.listed operation).catalog = active.catalog := by
  unfold listed
  split <;> rfl

@[simp] theorem listed_id (active : ActiveTransaction) (operation : TransactionOperation) :
    (active.listed operation).transaction.id = active.transaction.id := by
  unfold listed
  split <;> rfl

theorem readStep_frame (active : ActiveTransaction) (operation : TransactionOperation) :
    (active.readStep operation).1.catalog = active.catalog ∧
      (active.readStep operation).1.transaction.id = active.transaction.id ∧
      (active.readStep operation).1.transaction.writePaths = active.transaction.writePaths ∧
      (active.readStep operation).1.transaction.hasEnded = active.transaction.hasEnded ∧
      (active.readStep operation).1.transaction.runningLogWritten =
        active.transaction.runningLogWritten := by
  unfold readStep
  split <;> exact ⟨rfl, rfl, rfl, rfl, rfl⟩

end ActiveTransaction

/-- A call on an interactive transaction, or a change by other transactions. -/
inductive TransactionCall
  | step (operation : TransactionOperation)
  | pause (now : Option ℕ)
  | resume (now : Option ℕ)
  | sealTransaction (now : Option ℕ)
  | others (catalog : Catalog)

/-- What other transactions leave as it is. -/
structure Undisturbed (txnId : TransactionId) (before after : Catalog) : Prop where
  paths : ∀ path ∈ before.paths, path.2.txnId = txnId → path ∈ after.paths
  success : after.success txnId = before.success txnId
  failed : txnId ∈ after.failed ↔ txnId ∈ before.failed

namespace ActiveTransaction

/-- The state after a call, whether it returned or raised an exception. -/
def CallStep (active : ActiveTransaction) (call : TransactionCall) (next : ActiveTransaction) :
    Prop :=
  match call with
  | .step operation => next = (active.step operation).1
  | .pause now => next = (active.pause now).1
  | .resume now => next = (active.resume now).1
  | .sealTransaction now => next = (active.sealTransaction now).1
  | .others catalog =>
      Undisturbed active.transaction.id active.catalog catalog ∧
        next = { active with catalog := catalog }

/--
The transaction does not have both a failed and a success log, and if it has a
success log, then every path recorded for its operations exists.
-/
def Complete (active : ActiveTransaction) : Prop :=
  ¬(active.transaction.id ∈ active.catalog.failed ∧
      (active.catalog.success active.transaction.id).isSome) ∧
    ((active.catalog.success active.transaction.id).isSome →
      ∀ path ∈ active.transaction.writePaths, path ∈ active.catalog.paths)

/-- No call seals a failed transaction, and no call writes after a success log. -/
def StopsWhenDone (active : ActiveTransaction) (call : TransactionCall) : Prop :=
  match call with
  | .sealTransaction _ => active.transaction.id ∉ active.catalog.failed
  | .step operation => operation.isWrite → active.catalog.success active.transaction.id = none
  | _ => True

/-- A started interactive transaction with a new identifier. -/
structure Started (active : ActiveTransaction) : Prop where
  isStart : ∃ id isHistoric, active.transaction = Transaction.start id isHistoric []
  notFailed : active.transaction.id ∉ active.catalog.failed
  notSuccessful : active.catalog.success active.transaction.id = none

/--
What carries `Complete` through a run: until it has failed, a transaction has
all the files it recorded, and only a transaction that has ended has succeeded.
-/
structure CompleteInvariant (active : ActiveTransaction) : Prop where
  own : ∀ path ∈ active.transaction.writePaths, path.2.txnId = active.transaction.id
  present : active.transaction.id ∉ active.catalog.failed →
    ∀ path ∈ active.transaction.writePaths, path ∈ active.catalog.paths
  exclusive : (active.catalog.success active.transaction.id).isSome →
    active.transaction.id ∉ active.catalog.failed ∧ active.transaction.hasEnded

namespace CompleteInvariant

variable {active : ActiveTransaction}

theorem complete (invariant : active.CompleteInvariant) : active.Complete := by
  constructor
  · rintro ⟨hasFailed, hasSucceeded⟩
    exact (invariant.exclusive hasSucceeded).1 hasFailed
  · intro hasSucceeded
    exact invariant.present (invariant.exclusive hasSucceeded).1

theorem started (isStarted : active.Started) : active.CompleteInvariant := by
  rcases isStarted.isStart with ⟨id, isHistoric, isStart⟩
  have noPaths : active.transaction.writePaths = [] := by
    rw [isStart]
    rfl
  constructor
  · simp [noPaths]
  · simp [noPaths]
  · simp [isStarted.notSuccessful]

/-- The invariant depends on the transaction only through a few of its fields. -/
theorem congr (invariant : active.CompleteInvariant) {next : ActiveTransaction}
    (sameId : next.transaction.id = active.transaction.id)
    (samePaths : next.transaction.writePaths = active.transaction.writePaths)
    (ended : active.transaction.hasEnded → next.transaction.hasEnded)
    (files : next.catalog.files = active.catalog.files)
    (success : next.catalog.success = active.catalog.success)
    (failed : next.catalog.failed = active.catalog.failed) : next.CompleteInvariant := by
  have paths : next.catalog.paths = active.catalog.paths := by
    rw [Catalog.paths, files, Catalog.paths]
  constructor
  · rw [sameId, samePaths]
    exact invariant.own
  · rw [sameId, samePaths, failed, paths]
    exact invariant.present
  · rw [sameId, success, failed]
    intro hasSucceeded
    exact ⟨(invariant.exclusive hasSucceeded).1, ended (invariant.exclusive hasSucceeded).2⟩

theorem others (invariant : active.CompleteInvariant) {catalog : Catalog}
    (undisturbed : Undisturbed active.transaction.id active.catalog catalog) :
    CompleteInvariant { active with catalog := catalog } := by
  constructor
  · exact invariant.own
  · intro notFailed path pathMem
    apply undisturbed.paths path _ (invariant.own path pathMem)
    apply invariant.present (fun hasFailed => notFailed (undisturbed.failed.mpr hasFailed)) path
      pathMem
  · intro hasSucceeded
    have exclusive := invariant.exclusive (undisturbed.success ▸ hasSucceeded)
    exact ⟨fun hasFailed => exclusive.1 (undisturbed.failed.mp hasFailed), exclusive.2⟩

/-- After a cleanup the transaction has failed, so all that matters is the success log. -/
theorem failAndCleanup {deleteSuccessLog : Bool}
    (own : ∀ path ∈ active.transaction.writePaths, path.2.txnId = active.transaction.id)
    (noSuccess : deleteSuccessLog = true ∨
      active.catalog.success active.transaction.id = none) :
    (active.failAndCleanup deleteSuccessLog).CompleteInvariant := by
  constructor
  · exact own
  · intro notFailed
    exact absurd (by simp [ActiveTransaction.failAndCleanup]) notFailed
  · intro hasSucceeded
    exfalso
    rcases noSuccess with rfl | noSuccess
    · simp [ActiveTransaction.failAndCleanup] at hasSucceeded
    · cases deleteSuccessLog <;>
        simp [ActiveTransaction.failAndCleanup, Catalog.deleteFiles, noSuccess] at hasSucceeded

theorem writeStep (invariant : active.CompleteInvariant) (operation : TransactionOperation)
    (noSuccess : active.catalog.success active.transaction.id = none) :
    (active.writeStep operation).1.CompleteInvariant := by
  rcases active.writeStep_cases operation with ⟨written, catalog, grows, cases⟩
  have own : ∀ path ∈ (active.ensureRunningLog.transaction.record written).writePaths,
      path.2.txnId = active.transaction.id := by
    intro path pathMem
    rw [Transaction.mem_writePaths_record, ensureRunningLog_writePaths] at pathMem
    rcases pathMem with isOld | isNew
    · exact invariant.own path isOld
    · exact grows.own path isNew
  have stillNoSuccess : catalog.success active.transaction.id = none := by
    rw [grows.success, ensureRunningLog_success]
    exact noSuccess
  have sameId : (active.ensureRunningLog.transaction.record written).id =
      active.transaction.id := active.ensureRunningLog_id
  rcases cases with ⟨result, stepped⟩ | ⟨error, stepped⟩
  · rw [stepped]
    constructor
    · simpa only [sameId] using own
    · intro notFailed path pathMem
      simp only [sameId, grows.failed, ensureRunningLog_failed] at notFailed
      rw [Transaction.mem_writePaths_record, ensureRunningLog_writePaths] at pathMem
      rw [grows.paths]
      apply Or.imp_left _ pathMem
      intro isOld
      simpa [Catalog.paths] using invariant.present notFailed path isOld
    · simp [sameId, stillNoSuccess]
  · rw [stepped]
    apply failAndCleanup
    · simpa only [sameId] using own
    · right
      simpa only [sameId] using stillNoSuccess

theorem step (invariant : active.CompleteInvariant) (operation : TransactionOperation)
    (stops : operation.isWrite → active.catalog.success active.transaction.id = none) :
    (active.step operation).1.CompleteInvariant := by
  unfold ActiveTransaction.step
  split
  · exact invariant
  · have listedInvariant : (active.listed operation).CompleteInvariant := by
      apply invariant.congr (listed_id active operation)
      all_goals unfold listed
      all_goals split <;> first | rfl | exact id
    simp only
    split
    case isTrue isWrite =>
      apply listedInvariant.writeStep operation
      rw [listed_catalog, listed_id]
      exact stops isWrite
    case isFalse =>
      rcases (active.listed operation).readStep_frame operation with
        ⟨frame, idFrame, pathsFrame, endedFrame, _⟩
      apply listedInvariant.congr idFrame pathsFrame
      · rw [endedFrame]
        exact id
      all_goals rw [frame]

theorem sealSteps (invariant : active.CompleteInvariant) (now : Option ℕ)
    (notFailed : active.transaction.id ∉ active.catalog.failed) :
    (active.sealSteps now).1.CompleteInvariant := by
  unfold ActiveTransaction.sealSteps
  split
  · exact invariant
  case isFalse open_ =>
    have noSuccess : active.catalog.success active.transaction.id = none := by
      rw [← Option.not_isSome_iff_eq_none]
      intro hasSucceeded
      exact open_ (Or.inr (invariant.exclusive hasSucceeded).2)
    cases now with
    | none => exact invariant
    | some endTime =>
        simp only
        split
        · refine invariant.congr rfl rfl ?_ rfl rfl rfl
          intro ended
          exact absurd (Or.inr ended) open_
        · generalize isMarked : ensureRunningLog
            { active with transaction := { active.transaction with endTime := some endTime } } =
              marked
          have sameId : marked.transaction.id = active.transaction.id := by
            simp [← isMarked]
          have samePaths : marked.transaction.writePaths = active.transaction.writePaths := by
            rw [← isMarked, ensureRunningLog_writePaths]
            rfl
          have ended : marked.transaction.hasEnded = decide (endTime ≠ 0) := by
            rw [← isMarked, ensureRunningLog_hasEnded]
            simp [Transaction.hasEnded]
          have own : ∀ path ∈ marked.transaction.writePaths,
              path.2.txnId = marked.transaction.id := by
            rw [sameId, samePaths]
            exact invariant.own
          split
          · apply failAndCleanup own
            right
            simpa [← isMarked] using noSuccess
          · split
            · exact failAndCleanup own (Or.inl rfl)
            case isFalse inOrder =>
              -- The success log is written here; what is left is the running log.
              have isPositive : endTime ≠ 0 := by
                have started : active.transaction.id.startTime ≠ 0 := fun isZero =>
                  open_ (Or.inl isZero)
                rw [sameId] at inOrder
                omega
              have present : ∀ path ∈ marked.transaction.writePaths,
                  path ∈ marked.catalog.paths := by
                rw [samePaths]
                intro path pathMem
                simpa [← isMarked, Catalog.paths] using
                  invariant.present notFailed path pathMem
              have stillNotFailed : marked.transaction.id ∉ marked.catalog.failed := by
                rw [sameId, ← isMarked]
                simpa using notFailed
              have sealed : CompleteInvariant
                  { marked with
                    catalog :=
                      { marked.catalog with
                        success := Function.update marked.catalog.success marked.transaction.id
                          (some endTime) } } :=
                ⟨own, fun _ => present, fun _ => ⟨stillNotFailed, by simp [ended, isPositive]⟩⟩
              split
              · exact sealed.congr rfl rfl id rfl rfl rfl
              · exact sealed

theorem sealTransaction (invariant : active.CompleteInvariant) (now : Option ℕ)
    (notFailed : active.transaction.id ∉ active.catalog.failed) :
    (active.sealTransaction now).1.CompleteInvariant := by
  unfold ActiveTransaction.sealTransaction
  split
  · exact invariant
  · split
    · exact invariant
    · exact invariant.sealSteps now notFailed

theorem pause (invariant : active.CompleteInvariant) (now : Option ℕ) :
    (active.pause now).1.CompleteInvariant := by
  unfold ActiveTransaction.pause
  simp only
  split
  · exact invariant
  · cases now with
    | none => exact invariant
    | some pauseTime =>
        simp only
        split <;> exact invariant.congr rfl rfl id rfl rfl rfl

theorem resume (invariant : active.CompleteInvariant) (now : Option ℕ) :
    (active.resume now).1.CompleteInvariant := by
  unfold ActiveTransaction.resume
  simp only
  split
  · exact invariant
  · split
    · exact invariant
    · split
      · exact invariant
      · exact invariant
      · split
        · exact invariant
        · exact invariant.congr rfl rfl id rfl rfl rfl

theorem callStep (invariant : active.CompleteInvariant) {call : TransactionCall}
    {next : ActiveTransaction} (stops : active.StopsWhenDone call)
    (stepped : active.CallStep call next) : next.CompleteInvariant := by
  cases call with
  | step operation =>
      rw [show next = _ from stepped]
      exact invariant.step operation stops
  | pause now =>
      rw [show next = _ from stepped]
      exact invariant.pause now
  | resume now =>
      rw [show next = _ from stepped]
      exact invariant.resume now
  | sealTransaction now =>
      rw [show next = _ from stepped]
      exact invariant.sealTransaction now stops
  | others catalog =>
      rw [stepped.2]
      exact invariant.others stepped.1

end CompleteInvariant

/--
In every run that stops when the transaction is done, a successful transaction
is complete and a failed one has not succeeded.
-/
theorem complete_run {start active : ActiveTransaction} {calls : List TransactionCall}
    (isStarted : start.Started) (run : Run (Guarded StopsWhenDone CallStep) start calls active) :
    active.Complete := by
  have invariant : active.CompleteInvariant := by
    apply run.invariant (CompleteInvariant.started isStarted)
    intro state call next stateInvariant stepped
    exact stateInvariant.callStep stepped.1 stepped.2
  exact invariant.complete

/-- The transaction that created the namespace `sales`. -/
def founder : TransactionId := .numbered 5 0

/-- A later transaction. -/
def latecomer : TransactionId := .numbered 10 1

def salesNamespace (uuid : String) : Metafile where
  locator := ⟨[], .namespaceName "sales"⟩
  uuid := some uuid

/-- A catalog with one namespace, created by a transaction that ended at time 6. -/
def salesCatalog : Catalog :=
  { (Catalog.empty.writeTxn founder (.create (salesNamespace "n1"))).1 with
    success := fun txnId => if txnId = founder then some 6 else none }

/-- A transaction alone in an empty catalog creates a namespace and is sealed. -/
theorem complete_run_alone :
    ∃ (calls : List TransactionCall) (active : ActiveTransaction),
      Run (Guarded StopsWhenDone CallStep) ⟨Transaction.start latecomer false [], Catalog.empty⟩
        calls active ∧
      (active.catalog.success latecomer).isSome ∧ active.transaction.writePaths ≠ [] ∧
        active.Complete := by
  have isStarted : Started ⟨Transaction.start latecomer false [], Catalog.empty⟩ :=
    ⟨⟨latecomer, false, rfl⟩, by decide, rfl⟩
  have created : Run (Guarded StopsWhenDone CallStep)
      ⟨Transaction.start latecomer false [], Catalog.empty⟩
      [.step (.create (salesNamespace "n2"))] _ :=
    Run.nil.snoc ⟨fun _ => rfl, rfl⟩
  have run : Run (Guarded StopsWhenDone CallStep)
      ⟨Transaction.start latecomer false [], Catalog.empty⟩
      [.step (.create (salesNamespace "n2")), .sealTransaction (some 11)] _ :=
    created.snoc ⟨show latecomer ∉ _ by decide +kernel, rfl⟩
  exact ⟨_, _, run, by decide +kernel, by decide +kernel, complete_run isStarted run⟩

/--
A caller creates a namespace that exists, which fails, and seals the transaction
nevertheless: it has a failed log and a success log.
-/
theorem not_complete_run :
    ∃ active, Started ⟨Transaction.start latecomer false [], salesCatalog⟩ ∧
      Run CallStep ⟨Transaction.start latecomer false [], salesCatalog⟩
        [.step (.create (salesNamespace "n2")), .sealTransaction (some 11)] active ∧
      ¬active.Complete := by
  have isStarted : Started ⟨Transaction.start latecomer false [], salesCatalog⟩ :=
    ⟨⟨latecomer, false, rfl⟩, by decide +kernel, by decide +kernel⟩
  have failed : Run CallStep ⟨Transaction.start latecomer false [], salesCatalog⟩
      [.step (.create (salesNamespace "n2"))] _ := Run.nil.snoc rfl
  have run : Run CallStep ⟨Transaction.start latecomer false [], salesCatalog⟩
      [.step (.create (salesNamespace "n2")), .sealTransaction (some 11)] _ := failed.snoc rfl
  refine ⟨_, isStarted, run, ?_⟩
  intro isComplete
  exact isComplete.1 ⟨by decide +kernel, by decide +kernel⟩

/-- The files and the running log of a transaction are gone, but no directory is. -/
structure CleanedUp (txnId : TransactionId) (before after : Catalog) : Prop where
  noFile : ∀ file ∈ after.files, file.info.txnId ≠ txnId
  notRunning : txnId ∉ after.running
  files : after.files = before.files
  success : after.success = before.success
  moreDirs : before.objectDirs ⊆ after.objectDirs

/--
A commit left nothing behind: there is no file and no running log of the
transaction, the catalog has the object directories it had, and what any reader
finds is what it found before.
-/
structure LeavesNothing (txnId : TransactionId) (before after : Catalog) : Prop where
  noFile : ∀ file ∈ after.files, file.info.txnId ≠ txnId
  notRunning : txnId ∉ after.running
  files : after.files = before.files
  success : after.success = before.success
  objectDirs : ∀ objectPath, objectPath ∈ after.objectDirs ↔ objectPath ∈ before.objectDirs
  reads : ∀ reader operation, after.readTxn reader operation = before.readTxn reader operation

theorem CleanedUp.leavesNothing_iff {txnId : TransactionId} {before after : Catalog}
    (cleanedUp : CleanedUp txnId before after) :
    LeavesNothing txnId before after ↔ after.objectDirs ⊆ before.objectDirs := by
  constructor
  · intro leavesNothing objectPath isDir
    exact (leavesNothing.objectDirs objectPath).mp isDir
  · intro noNewDir
    have objectDirs : ∀ objectPath,
        objectPath ∈ after.objectDirs ↔ objectPath ∈ before.objectDirs :=
      fun objectPath => ⟨fun isDir => noNewDir isDir, fun isDir => cleanedUp.moreDirs isDir⟩
    exact ⟨cleanedUp.noFile, cleanedUp.notRunning, cleanedUp.files, cleanedUp.success, objectDirs,
      Catalog.readTxn_eq_of_files cleanedUp.files cleanedUp.success objectDirs⟩

/--
The state of a commit between two operations, where `wrote` says whether one of
the operations so far was a write.
-/
structure Progress (txnId : TransactionId) (before : Catalog) (wrote : Bool)
    (active : ActiveTransaction) : Prop where
  isId : active.transaction.id = txnId
  notHistoric : active.transaction.isHistoric = false
  others : active.catalog.filesOfOthers txnId = before.files
  own : ∀ path ∈ active.transaction.writePaths, path.2.txnId = txnId
  recorded : ∀ path ∈ active.catalog.paths, path.2.txnId = txnId →
    path ∈ active.transaction.writePaths
  untouched : wrote = false → active.catalog.files = before.files
  success : active.catalog.success = before.success
  moreDirs : before.objectDirs ⊆ active.catalog.objectDirs
  logWritten : active.transaction.runningLogWritten = wrote
  running : txnId ∈ active.catalog.running ↔ wrote

namespace Progress

variable {txnId : TransactionId} {before : Catalog} {wrote : Bool} {active : ActiveTransaction}

theorem start {operations : List TransactionOperation}
    (fresh : ∀ file ∈ before.files, file.info.txnId ≠ txnId) (notRunning : txnId ∉ before.running) :
    Progress txnId before false ⟨Transaction.start txnId false operations, before⟩ where
  isId := rfl
  notHistoric := rfl
  others := by
    rw [Catalog.filesOfOthers, List.filter_eq_self]
    simpa using fresh
  own := by simp [Transaction.start, Transaction.writePaths]
  recorded := by
    intro path pathMem isOwn
    rcases List.mem_map.mp pathMem with ⟨file, fileMem, rfl⟩
    exact absurd isOwn (fresh file fileMem)
  untouched := fun _ => rfl
  success := rfl
  moreDirs := List.Subset.refl _
  logWritten := rfl
  running := by simpa using notRunning

theorem ensureRunningLog (progress : Progress txnId before wrote active) :
    Progress txnId before true active.ensureRunningLog := by
  unfold ActiveTransaction.ensureRunningLog
  split
  case isTrue wasWritten =>
    have same : wrote = true := progress.logWritten.symm.trans wasWritten
    exact same ▸ progress
  case isFalse =>
    exact { progress with
      untouched := by simp
      logWritten := rfl
      running := by simp [progress.isId] }

/-- Recording what a write adds keeps the record complete. -/
theorem record (progress : Progress txnId before true active)
    {written : List (RevisionPath RevisionDir)} {catalog : Catalog}
    (grows : Grows txnId active.catalog written catalog) :
    Progress txnId before true ⟨active.transaction.record written, catalog⟩ where
  isId := progress.isId
  notHistoric := progress.notHistoric
  others := grows.others.trans progress.others
  own := by
    intro path pathMem
    rcases (Transaction.mem_writePaths_record _ _ _).mp pathMem with isOld | isNew
    · exact progress.own path isOld
    · exact grows.own path isNew
  recorded := by
    intro path pathMem isOwn
    apply (Transaction.mem_writePaths_record _ _ _).mpr
    rcases (grows.paths path).mp pathMem with isOld | isNew
    · exact Or.inl (progress.recorded path isOld isOwn)
    · exact Or.inr isNew
  untouched := by simp
  success := grows.success.trans progress.success
  moreDirs := by
    intro objectPath isDir
    exact (grows.objectDirs objectPath).mpr (Or.inl (progress.moreDirs isDir))
  logWritten := progress.logWritten
  running := by
    rw [grows.running]
    exact progress.running

/-- A cleanup deletes exactly the files of the transaction. -/
theorem failAndCleanup (progress : Progress txnId before wrote active) :
    CleanedUp txnId before (active.failAndCleanup false).catalog := by
  have deleted : (active.failAndCleanup false).catalog.files = before.files := by
    rw [← progress.others]
    apply List.filter_congr
    intro file fileMem
    have isOwn : file.path ∈ active.transaction.writePaths ↔ file.info.txnId = txnId :=
      ⟨progress.own file.path, progress.recorded file.path (List.mem_map_of_mem fileMem)⟩
    simp [isOwn]
  refine ⟨?_, ?_, deleted, progress.success, progress.moreDirs⟩
  · rw [deleted, ← progress.others]
    intro file fileMem
    simpa [Catalog.filesOfOthers] using (List.mem_filter.mp fileMem).2
  · simp [ActiveTransaction.failAndCleanup, progress.isId]

theorem writeStep_error (progress : Progress txnId before wrote active)
    {operation : TransactionOperation} {error : Error}
    (fails : (active.writeStep operation).2 = .error error) :
    CleanedUp txnId before (active.writeStep operation).1.catalog := by
  rcases active.writeStep_cases operation with ⟨written, catalog, grows, cases⟩
  rw [progress.isId] at grows
  rcases cases with ⟨result, stepped⟩ | ⟨_, stepped⟩
  · rw [stepped] at fails
    cases fails
  · rw [stepped]
    exact (progress.ensureRunningLog.record grows).failAndCleanup

theorem writeStep_ok (progress : Progress txnId before wrote active)
    {operation : TransactionOperation} {paths : List (RevisionPath RevisionDir)}
    (succeeds : (active.writeStep operation).2 = .ok paths) :
    Progress txnId before true (active.writeStep operation).1 := by
  rcases active.writeStep_cases operation with ⟨written, catalog, grows, cases⟩
  rw [progress.isId] at grows
  rcases cases with ⟨result, stepped⟩ | ⟨_, stepped⟩
  · rw [stepped]
    exact progress.ensureRunningLog.record grows
  · rw [stepped] at succeeds
    cases succeeds

theorem readStep (progress : Progress txnId before wrote active)
    (operation : TransactionOperation) :
    Progress txnId before wrote (active.readStep operation).1 := by
  unfold ActiveTransaction.readStep
  split
  · exact { progress with }
  · exact progress

theorem listed (progress : Progress txnId before wrote active)
    (operation : TransactionOperation) :
    Progress txnId before wrote (active.listed operation) := by
  unfold ActiveTransaction.listed
  split
  · exact { progress with }
  · exact progress

/-- Without a historic time, `step` is one of its two branches. -/
theorem step_eq (progress : Progress txnId before wrote active)
    (operation : TransactionOperation) :
    active.step operation =
      if operation.isWrite then
        (((active.listed operation).writeStep operation).1,
          ((active.listed operation).writeStep operation).2.map .written)
      else
        (((active.listed operation).readStep operation).1,
          ((active.listed operation).readStep operation).2.map .listed) := by
  simp [ActiveTransaction.step, progress.notHistoric]

theorem step_ok (progress : Progress txnId before wrote active)
    {operation : TransactionOperation} {result : StepResult}
    (succeeds : (active.step operation).2 = .ok result) :
    Progress txnId before (wrote || operation.isWrite) (active.step operation).1 := by
  rw [progress.step_eq operation] at succeeds ⊢
  split at succeeds
  case isTrue isWrite =>
    rw [if_pos isWrite, isWrite, Bool.or_true]
    cases written : ((active.listed operation).writeStep operation).2 with
    | ok paths => exact (progress.listed operation).writeStep_ok written
    | error error =>
        rw [written] at succeeds
        cases succeeds
  case isFalse isRead =>
    rw [if_neg isRead, Bool.eq_false_iff.mpr isRead, Bool.or_false]
    exact (progress.listed operation).readStep operation

/-- A write that fails leaves no file of the transaction. -/
theorem step_error (progress : Progress txnId before wrote active)
    {operation : TransactionOperation} (isWrite : operation.isWrite) {error : Error}
    (fails : (active.step operation).2 = .error error) :
    CleanedUp txnId before (active.step operation).1.catalog := by
  rw [progress.step_eq operation, if_pos isWrite] at fails ⊢
  cases written : ((active.listed operation).writeStep operation).2 with
  | ok paths =>
      rw [written] at fails
      cases fails
  | error error => exact (progress.listed operation).writeStep_error written

theorem steps_ok (progress : Progress txnId before wrote active)
    {operations : List TransactionOperation} (succeed : (active.steps operations).2 = .ok ()) :
    Progress txnId before (wrote || operations.any (·.isWrite)) (active.steps operations).1 := by
  induction operations generalizing active wrote with
  | nil =>
      rw [List.any_nil, Bool.or_false]
      exact progress
  | cons operation operations ih =>
      unfold ActiveTransaction.steps at succeed ⊢
      split at succeed
      case h_1 next result stepped =>
        have after := progress.step_ok (show (active.step operation).2 = .ok result by rw [stepped])
        rw [stepped] at after
        rw [List.any_cons, ← Bool.or_assoc]
        exact ih after succeed
      case h_2 => cases succeed

end Progress

theorem steps_append {active : ActiveTransaction} {earlier later : List TransactionOperation}
    (succeed : (active.steps earlier).2 = .ok ()) :
    active.steps (earlier ++ later) = (active.steps earlier).1.steps later := by
  induction earlier generalizing active with
  | nil => rfl
  | cons operation earlier ih =>
      rw [List.cons_append, steps]
      unfold steps at succeed
      rw [steps]
      split at succeed
      case h_1 next result stepped => exact ih succeed
      case h_2 => cases succeed

/-- The directories on the way to the files that a write step writes. -/
def writtenDirs (active : ActiveTransaction) (operation : TransactionOperation) :
    List (List String) :=
  directoriesOfPaths
    (active.ensureRunningLog.catalog.writeTxn active.transaction.id operation).2.1

theorem writtenDirs_listed (active : ActiveTransaction) (operation : TransactionOperation) :
    (active.listed operation).writtenDirs operation = active.writtenDirs operation := by
  unfold listed
  split
  case isTrue => unfold writtenDirs ensureRunningLog; split <;> rfl
  case isFalse => rfl

/-- A step makes the directories of what it writes, and a cleanup leaves them. -/
theorem step_objectDirs {active : ActiveTransaction}
    (notHistoric : active.transaction.isHistoric = false) (operation : TransactionOperation)
    (objectPath : List String) :
    objectPath ∈ (active.step operation).1.catalog.objectDirs ↔
      objectPath ∈ active.catalog.objectDirs ∨
        operation.isWrite ∧ objectPath ∈ active.writtenDirs operation := by
  rw [← writtenDirs_listed]
  simp only [step, notHistoric, Bool.false_eq_true, false_and, if_false]
  split
  case isTrue isWrite =>
    have grows := Catalog.writeTxn_grows (active.listed operation).ensureRunningLog.catalog
      (active.listed operation).transaction.id operation
    have dirs := grows.objectDirs objectPath
    rw [ensureRunningLog_objectDirs, listed_catalog] at dirs
    simp only [isWrite, true_and, writtenDirs, writeStep, ensureRunningLog_id]
    split <;> exact dirs
  case isFalse isRead =>
    rw [((active.listed operation).readStep_frame operation).1, listed_catalog]
    simp [isRead]

/-- The operations write into object directories that are known already, and make none. -/
def WritesBelow (known : List (List String)) (active : ActiveTransaction) :
    List TransactionOperation → Prop
  | [] => True
  | operation :: operations =>
      (operation.isWrite → active.writtenDirs operation ⊆ known) ∧
        (active.step operation).1.WritesBelow known operations

/-- The directories after the last step are known if those at the start and all written are. -/
theorem Progress.objectDirs_subset_iff {txnId : TransactionId} {before : Catalog} {wrote : Bool}
    {active : ActiveTransaction} (progress : Progress txnId before wrote active)
    (known : List (List String)) {earlier : List TransactionOperation}
    (succeed : (active.steps earlier).2 = .ok ()) (operation : TransactionOperation) :
    ((active.steps earlier).1.step operation).1.catalog.objectDirs ⊆ known ↔
      active.catalog.objectDirs ⊆ known ∧ active.WritesBelow known (earlier ++ [operation]) := by
  have stepped : ∀ {active : ActiveTransaction}, active.transaction.isHistoric = false →
      ∀ operation, (active.step operation).1.catalog.objectDirs ⊆ known ↔
        active.catalog.objectDirs ⊆ known ∧
          (operation.isWrite → active.writtenDirs operation ⊆ known) := by
    intro active notHistoric operation
    simp only [List.subset_def, step_objectDirs notHistoric]
    grind
  induction earlier generalizing active wrote with
  | nil => simpa [steps, WritesBelow] using stepped progress.notHistoric operation
  | cons performed earlier ih =>
      unfold steps at succeed ⊢
      split at succeed
      case h_1 next result performs =>
        have after := progress.step_ok
          (show (active.step performed).2 = .ok result by rw [performs])
        have performedDirs := stepped progress.notHistoric performed
        rw [performs] at after performedDirs
        refine (ih after succeed).trans ?_
        simp only [performedDirs, List.cons_append, WritesBelow, performs, and_assoc]
      case h_2 => cases succeed

/-- A table of a namespace that does not exist. -/
def orphanTable : Metafile where
  locator := ⟨[.namespaceName "absent"], .tableName "orders"⟩
  uuid := some "t1"

end ActiveTransaction

end Deltacat.Storage
