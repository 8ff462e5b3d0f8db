import Deltacat.Library.ObjectStore
import Deltacat.Storage.Atomicity
import Deltacat.Storage.CatalogState
import Mathlib.Data.List.MinMax
import Mathlib.Tactic

/-!
# Catalogs between transactions

When transactions run one after another, each of them sees all that was written
before it. Then every directory has one file of each revision number, a lookup
finds the file of the greatest one (`latest_eq_current`), and a catalog acts as
a store of objects (`live`): a create needs that its object is not there, any
other write needs that it is. `writeTxn_performs` says that an operation that
succeeds performs its list of writes on this store; what follows about names,
partitions and deltas is proved about the store.

Revision numbers are taken to stay within `maxRevisionNumber`, beyond which a
scan does not find them.
-/

namespace Deltacat.Storage

open Deltacat.Library MetafileRevisionInfo

namespace Catalog

/-- The file of the greatest revision number of a directory. -/
def current (catalog : Catalog) (dir : RevisionDir) : Option RevisionFile :=
  (catalog.files.filter (·.dir = dir)).argmax (·.info.revision)

/-- The contents of the directories whose latest revision is not a delete. -/
def live (catalog : Catalog) : Store RevisionDir RevisionContent := fun dir =>
  (catalog.current dir).bind fun file =>
    if file.info.txnOpType = .delete then none else some file.content

/-- Each directory has one file of each revision number, up to the greatest number. -/
structure Numbered (catalog : Catalog) : Prop where
  wellFormed : catalog.WellFormed
  distinct : ∀ left ∈ catalog.files, ∀ right ∈ catalog.files, left.dir = right.dir →
    left.info.revision = right.info.revision → left = right
  bounded : ∀ file ∈ catalog.files, file.info.revision ≤ maxRevisionNumber

/-- A transaction sees everything that was written. -/
def AllVisible (catalog : Catalog) (txnId : TransactionId) : Prop :=
  ∀ file ∈ catalog.files, IsVisible txnId txnId.startTime catalog.success file.info

instance (catalog : Catalog) (txnId : TransactionId) : Decidable (catalog.AllVisible txnId) :=
  inferInstanceAs (Decidable (∀ file ∈ catalog.files, _))

variable {catalog : Catalog} {txnId : TransactionId}

theorem current_eq_some {dir : RevisionDir} {file : RevisionFile}
    (isCurrent : catalog.current dir = some file) :
    file ∈ catalog.files ∧ file.dir = dir ∧
      ∀ other ∈ catalog.files, other.dir = dir → other.info.revision ≤ file.info.revision := by
  have isMax : file ∈ (catalog.files.filter (·.dir = dir)).argmax (·.info.revision) := isCurrent
  have fileMem := List.argmax_mem isMax
  simp only [List.mem_filter, decide_eq_true_eq] at fileMem
  refine ⟨fileMem.1, fileMem.2, ?_⟩
  intro other otherMem inDir
  apply List.le_of_mem_argmax _ isMax
  simp [otherMem, inDir]

theorem current_eq_none {dir : RevisionDir} (noCurrent : catalog.current dir = none) :
    ∀ file ∈ catalog.files, file.dir ≠ dir := by
  simpa [current, List.argmax_eq_none, List.filter_eq_nil_iff] using noCurrent

/-- The current file is the one that no other of its directory exceeds. -/
theorem Numbered.current_eq (numbered : catalog.Numbered) {file : RevisionFile}
    (fileMem : file ∈ catalog.files)
    (greatest : ∀ other ∈ catalog.files, other.dir = file.dir →
      other.info.revision ≤ file.info.revision) : catalog.current file.dir = some file := by
  cases isCurrent : catalog.current file.dir with
  | none => exact absurd rfl (current_eq_none isCurrent file fileMem)
  | some other =>
      rcases current_eq_some isCurrent with ⟨otherMem, inDir, otherGreatest⟩
      rw [numbered.distinct other otherMem file fileMem inDir
        (le_antisymm (greatest other otherMem inDir) (otherGreatest file fileMem rfl))]

section Lookup

variable (numbered : catalog.Numbered) (allVisible : catalog.AllVisible txnId)

include numbered allVisible

theorem latestRevision_eq_current (dir : RevisionDir) :
    latestRevision (catalog.filesIn dir) (readerOf txnId) catalog.success =
      .ok ((catalog.current dir).map RevisionFile.info) := by
  rcases latestRevision_scan (numbered.wellFormed.wellNamed dir) txnId txnId.startTime
    catalog.success with ⟨result, isResult, scanned⟩
  rw [readerOf, scanned]
  congr 1
  -- Every file heads its revision number, so that the scan finds the greatest one.
  have heads : ∀ file ∈ catalog.files, file.dir = dir →
      IsHead (catalog.filesIn dir) file.info ∧
        IsVisible txnId txnId.startTime catalog.success file.info := by
    intro file fileMem inDir
    refine ⟨⟨mem_filesIn.mpr ⟨file, fileMem, inDir, rfl⟩, ?_⟩, allVisible file fileMem⟩
    intro info infoMem sameRevision
    rcases mem_filesIn.mp infoMem with ⟨other, otherMem, otherInDir, rfl⟩
    rw [numbered.distinct other otherMem file fileMem (otherInDir.trans inDir.symm) sameRevision]
  cases isCurrent : catalog.current dir with
  | none =>
      cases result with
      | none => rfl
      | some info =>
          rcases mem_filesIn.mp isResult.1.mem with ⟨file, fileMem, inDir, _⟩
          exact absurd inDir (current_eq_none isCurrent file fileMem)
  | some file =>
      rcases current_eq_some isCurrent with ⟨fileMem, inDir, greatest⟩
      have isHead := heads file fileMem inDir
      have atMost := numbered.bounded file fileMem
      cases result with
      | none => exact absurd isHead.2 (isResult file.info isHead.1 atMost)
      | some info =>
          rcases mem_filesIn.mp isResult.1.mem with ⟨found, foundMem, foundInDir, rfl⟩
          have sameRevision := le_antisymm (greatest found foundMem foundInDir)
            (isResult.2.2.2 file.info isHead.1 isHead.2 atMost)
          rw [numbered.distinct found foundMem file fileMem (foundInDir.trans inDir.symm)
            sameRevision]
          rfl

theorem latest_eq_current (dir : RevisionDir) :
    catalog.latest (readerOf txnId) dir = .ok (catalog.current dir) := by
  unfold latest
  rw [latestRevision_eq_current numbered allVisible]
  cases isCurrent : catalog.current dir with
  | none => rfl
  | some file =>
      rcases current_eq_some isCurrent with ⟨fileMem, rfl, _⟩
      simp [bind, Except.bind, pure, Except.pure, numbered.wellFormed.fileAt_eq fileMem]

end Lookup

end Catalog

namespace RevisionWrite

/-- A revision write as a write to the store of live objects. -/
def toStoreWrite (write : RevisionWrite) : StoreWrite RevisionDir RevisionContent where
  key := write.dir
  kind :=
    match write.opType with
    | .create => .create
    | .delete => .remove
    | _ => .modify
  object := write.content
  isOptional := write.ignoreExisting

theorem toStoreWrite_apply (write : RevisionWrite) (store : Store RevisionDir RevisionContent) :
    write.toStoreWrite.apply store = Function.update store write.dir
      (if write.opType = .delete then none else some write.content) := by
  unfold StoreWrite.apply StoreWrite.outcome toStoreWrite
  cases isOp : write.opType <;> simp

theorem toStoreWrite_permitted (write : RevisionWrite)
    (store : Store RevisionDir RevisionContent) :
    write.toStoreWrite.Permitted store ↔
      if write.opType = .create then store write.dir = none else store write.dir ≠ none := by
  unfold StoreWrite.Permitted toStoreWrite
  cases isOp : write.opType <;> simp

end RevisionWrite

namespace Catalog

variable {catalog : Catalog} {txnId : TransactionId}

/-- The revision number that the next file of a directory gets. -/
def nextRevision (catalog : Catalog) (dir : RevisionDir) : ℕ :=
  (catalog.current dir).elim 0 (·.info.revision) + 1

theorem lt_nextRevision {file : RevisionFile} (fileMem : file ∈ catalog.files) :
    file.info.revision < catalog.nextRevision file.dir := by
  unfold nextRevision
  cases isCurrent : catalog.current file.dir with
  | none => exact absurd rfl (current_eq_none isCurrent file fileMem)
  | some newest => exact Nat.lt_succ_of_le ((current_eq_some isCurrent).2.2 file fileMem rfl)

section Write

variable (numbered : catalog.Numbered) (allVisible : catalog.AllVisible txnId)
  {write : RevisionWrite}

include numbered allVisible

/-- A write goes through exactly when the store permits it. -/
theorem writeRevision_eq (write : RevisionWrite) :
    (write.toStoreWrite.Permitted catalog.live ∧
      catalog.writeRevision txnId write = .ok ⟨write.dir,
        ⟨catalog.nextRevision write.dir, write.opType, txnId⟩, write.content⟩) ∨
    ∃ error, catalog.writeRevision txnId write = .error error ∧
      (error = .objectAlreadyExistsError →
        write.toStoreWrite.kind = .create ∧ catalog.live write.dir ≠ none) := by
  have scanned := latestRevision_eq_current numbered allVisible write.dir
  simp only [readerOf] at scanned
  simp only [writeRevision, newRevision, scanned, bind, Except.bind, pure, Except.pure]
  unfold StoreWrite.Permitted RevisionWrite.toStoreWrite live nextRevision
  cases catalog.current write.dir with
  | none =>
      by_cases isCreate : write.opType = .create
      · simp [isCreate]
      · cases isOp : write.opType <;> simp_all
  | some file =>
      by_cases isCreate : write.opType = .create
      · by_cases isDeleted : file.info.txnOpType = .delete <;> simp [isCreate, isDeleted]
      · by_cases isDeleted : file.info.txnOpType = .delete
        · cases isOp : write.opType <;> simp_all
        · cases isOp : write.opType <;> simp_all

end Write

/-- A file with the next revision number becomes the current one of its directory. -/
theorem Numbered.addFile (numbered : catalog.Numbered) {file : RevisionFile}
    (wellFormed : (catalog.addFile file).WellFormed)
    (isNext : file.info.revision = catalog.nextRevision file.dir)
    (atMost : file.info.revision ≤ maxRevisionNumber) :
    (catalog.addFile file).Numbered ∧
      (catalog.addFile file).live = Function.update catalog.live file.dir
        (if file.info.txnOpType = .delete then none else some file.content) := by
  have newer : ∀ other ∈ catalog.files, other.dir = file.dir →
      other.info.revision < file.info.revision := by
    intro other otherMem inDir
    rw [isNext, ← inDir]
    exact lt_nextRevision otherMem
  have isNumbered : (catalog.addFile file).Numbered := by
    refine ⟨wellFormed, ?_, ?_⟩
    · intro left leftMem right rightMem sameDir sameRevision
      rcases mem_addFile.mp leftMem with ⟨leftOld, _⟩ | rfl
      · rcases mem_addFile.mp rightMem with ⟨rightOld, _⟩ | rfl
        · exact numbered.distinct left leftOld right rightOld sameDir sameRevision
        · exact absurd sameRevision (newer left leftOld sameDir).ne
      · rcases mem_addFile.mp rightMem with ⟨rightOld, _⟩ | rfl
        · exact absurd sameRevision (newer right rightOld sameDir.symm).ne'
        · rfl
    · intro other otherMem
      rcases mem_addFile.mp otherMem with ⟨isOld, _⟩ | rfl
      · exact numbered.bounded other isOld
      · exact atMost
  refine ⟨isNumbered, ?_⟩
  funext dir
  by_cases same : dir = file.dir
  · subst same
    have isCurrent : (catalog.addFile file).current file.dir = some file := by
      apply isNumbered.current_eq (mem_addFile.mpr (Or.inr rfl))
      intro other otherMem inDir
      rcases mem_addFile.mp otherMem with ⟨isOld, _⟩ | rfl
      · exact (newer other isOld inDir).le
      · exact le_rfl
    simp [live, isCurrent]
  · have sameCurrent : (catalog.addFile file).current dir = catalog.current dir := by
      have notNew : ∀ other ∈ catalog.files, other.dir = dir → other.path ≠ file.path := by
        intro other _ inDir samePath
        exact same (inDir.symm.trans (congrArg Prod.fst samePath))
      unfold current
      congr 1
      simp only [Catalog.addFile, List.filter_append, List.filter_filter]
      have dropped : [file].filter (fun other => decide (other.dir = dir)) = [] := by
        simp [Ne.symm same]
      rw [dropped, List.append_nil]
      apply List.filter_congr
      intro other otherMem
      by_cases inDir : other.dir = dir
      · simp [inDir, notNew other otherMem inDir]
      · simp [inDir]
    rw [Function.update_of_ne same]
    simp [live, sameCurrent]

/-- A write that succeeded within the revision numbers is a permitted write to the store. -/
theorem writeRevision_performs (numbered : catalog.Numbered)
    (allVisible : catalog.AllVisible txnId) {write : RevisionWrite} (proper : Proper write)
    {file : RevisionFile} (isWritten : catalog.writeRevision txnId write = .ok file)
    (atMost : file.info.revision ≤ maxRevisionNumber) :
    write.toStoreWrite.Permitted catalog.live ∧ (catalog.addFile file).Numbered ∧
      (catalog.addFile file).AllVisible txnId ∧
      (catalog.addFile file).live = write.toStoreWrite.apply catalog.live := by
  rcases writeRevision_eq numbered allVisible write with ⟨permitted, isOk⟩ | ⟨error, isError, _⟩
  · obtain rfl : file = _ := Except.ok.inj (isWritten.symm.trans isOk)
    rcases numbered.addFile (numbered.wellFormed.writeRevision proper isWritten) rfl atMost with
      ⟨isNumbered, isLive⟩
    refine ⟨permitted, isNumbered, ?_, ?_⟩
    · intro other otherMem
      rcases mem_addFile.mp otherMem with ⟨isOld, _⟩ | rfl
      · exact allVisible other isOld
      · exact Or.inl rfl
    · rw [isLive, RevisionWrite.toStoreWrite_apply]
  · rw [isError] at isWritten
    cases isWritten

/-- The revision numbers of a catalog are within those of one that grew out of it. -/
theorem bounded_of_grows {after : Catalog} {written : List (RevisionPath RevisionDir)}
    (grows : Grows txnId catalog written after)
    (bounded : ∀ file ∈ after.files, file.info.revision ≤ maxRevisionNumber) :
    ∀ file ∈ catalog.files, file.info.revision ≤ maxRevisionNumber := by
  intro file fileMem
  have inAfter := (grows.paths file.path).mpr (Or.inl (List.mem_map_of_mem fileMem))
  rcases List.mem_map.mp inAfter with ⟨other, otherMem, samePath⟩
  have sameInfo : other.info = file.info := congrArg Prod.snd samePath
  rw [← sameInfo]
  exact bounded other otherMem

theorem writeRevisions_performs (numbered : catalog.Numbered)
    (allVisible : catalog.AllVisible txnId) {writes : List RevisionWrite}
    (proper : ∀ write ∈ writes, Proper write) {next : Catalog}
    {paths : List (RevisionPath RevisionDir)}
    (succeeds : writeRevisions txnId writes catalog = (next, paths, .ok ()))
    (bounded : ∀ file ∈ next.files, file.info.revision ≤ maxRevisionNumber) :
    next.Numbered ∧ next.AllVisible txnId ∧
      Performs catalog.live (writes.map RevisionWrite.toStoreWrite) next.live := by
  induction writes generalizing catalog paths with
  | nil =>
      cases succeeds
      exact ⟨numbered, allVisible, Performs.nil⟩
  | cons write writes ih =>
      have laterProper : ∀ later ∈ writes, Proper later := fun later laterMem =>
        proper later (List.mem_cons_of_mem write laterMem)
      unfold writeRevisions at succeeds
      split at succeeds
      case h_1 file isWritten =>
        rcases later : writeRevisions txnId writes (catalog.addFile file) with
          ⟨after, laterPaths, result⟩
        rw [later] at succeeds
        obtain ⟨rfl, _, rfl⟩ : after = next ∧ _ ∧ result = .ok () := by
          simpa using succeeds
        have grows := writeRevisions_grows txnId writes (catalog.addFile file)
        rw [later] at grows
        have atMost := bounded_of_grows grows bounded file (mem_addFile.mpr (Or.inr rfl))
        rcases writeRevision_performs numbered allVisible (proper write List.mem_cons_self)
          isWritten atMost with ⟨permitted, isNumbered, isVisible, isLive⟩
        rcases ih isNumbered isVisible laterProper later with
          ⟨finalNumbered, finalVisible, performs⟩
        refine ⟨finalNumbered, finalVisible, Performs.write permitted ?_⟩
        rw [← isLive]
        exact performs
      case h_2 error isError =>
        split at succeeds
        case isTrue ignored =>
          rcases ih numbered allVisible laterProper succeeds with
            ⟨finalNumbered, finalVisible, performs⟩
          rcases writeRevision_eq numbered allVisible write with ⟨_, isOk⟩ | ⟨_, sameError, exists_⟩
          · rw [isError] at isOk
            cases isOk
          · obtain rfl : error = _ := Except.error.inj (isError.symm.trans sameError)
            rcases exists_ ignored.2 with ⟨isCreate, present⟩
            exact ⟨finalNumbered, finalVisible,
              Performs.skip ignored.1 isCreate present performs⟩
        case isFalse => cases succeeds

/-- A write operation that succeeded performed its writes on the store. -/
theorem writeTxn_performs (numbered : catalog.Numbered) (allVisible : catalog.AllVisible txnId)
    {operation : TransactionOperation} (isWrite : operation.isWrite) {next : Catalog}
    {paths : List (RevisionPath RevisionDir)}
    (succeeds : catalog.writeTxn txnId operation = (next, paths, .ok ()))
    (bounded : ∀ file ∈ next.files, file.info.revision ≤ maxRevisionNumber) :
    ∃ parentIds, catalog.ancestorIds (readerOf txnId) operation.destMetafile = .ok parentIds ∧
      next.Numbered ∧ next.AllVisible txnId ∧
      Performs catalog.live ((operation.revisionWrites parentIds).map RevisionWrite.toStoreWrite)
        next.live := by
  unfold writeTxn at succeeds
  split at succeeds
  case h_1 => cases succeeds
  case h_2 parentIds isRoot =>
    exact ⟨parentIds, isRoot, writeRevisions_performs numbered allVisible
      (proper_revisionWrites isWrite parentIds) succeeds bounded⟩

end Catalog

namespace Catalog

/-- Resolving ancestors does not look at the running log. -/
theorem ancestorIds_running (catalog : Catalog) (running : List TransactionId) (reader : Reader)
    (metafile : Metafile) :
    ancestorIds { catalog with running := running } reader metafile =
      catalog.ancestorIds reader metafile := by
  have sameFrom : ∀ names metafileRoot,
      ancestorIdsFrom { catalog with running := running } reader names metafileRoot =
        catalog.ancestorIdsFrom reader names metafileRoot := by
    intro names
    induction names with
    | nil => exact fun _ => rfl
    | cons name names ih =>
        intro metafileRoot
        simp only [ancestorIdsFrom, ih]
        rfl
  unfold ancestorIds
  rw [sameFrom]

end Catalog

namespace ActiveTransaction

/-- A write step that succeeds does what `write_txn` does, apart from the running log. -/
theorem step_writeTxn {active next : ActiveTransaction} {operation : TransactionOperation}
    {result : StepResult} (isWrite : operation.isWrite)
    (steps : active.step operation = (next, .ok result)) :
    ∃ running paths, Catalog.writeTxn { active.catalog with running := running }
      active.transaction.id operation = (next.catalog, paths, .ok ()) ∧
        next.transaction.id = active.transaction.id := by
  unfold step at steps
  split at steps
  · cases steps
  · generalize isListed : active.listed operation = listed at steps
    have sameCatalog : listed.catalog = active.catalog := by
      rw [← isListed, listed_catalog]
    have sameId : listed.transaction.id = active.transaction.id := by
      rw [← isListed, listed_id]
    have sameLog : ∃ running, listed.ensureRunningLog.catalog =
        { active.catalog with running := running } := by
      unfold ensureRunningLog
      rw [← sameCatalog]
      split
      · exact ⟨_, rfl⟩
      · exact ⟨_, rfl⟩
    rcases sameLog with ⟨running, isLog⟩
    refine ⟨running, ?_⟩
    simp only [writeStep, isLog, ensureRunningLog_id, sameId] at steps
    rcases written : Catalog.writeTxn { active.catalog with running := running }
      active.transaction.id operation with ⟨catalog, paths, outcome⟩
    rw [written] at steps
    cases outcome with
    | error error => simp [Except.bind, Except.map] at steps
    | ok =>
        refine ⟨paths, ?_⟩
        simp only [Except.bind] at steps
        split at steps
        · simp only [Prod.mk.injEq] at steps
          rw [← steps.1]
          exact ⟨rfl, listed.ensureRunningLog_id.trans sameId⟩
        · simp [Except.map] at steps

/-- A transaction that sees everything, in a catalog whose revisions are numbered. -/
structure Settled (active : ActiveTransaction) : Prop where
  numbered : active.catalog.Numbered
  seesAll : active.catalog.AllVisible active.transaction.id

/-- A write step that succeeds performs its writes on the store of live objects. -/
theorem Settled.step {active next : ActiveTransaction} (settled : active.Settled)
    {operation : TransactionOperation} {result : StepResult} (isWrite : operation.isWrite)
    (steps : active.step operation = (next, .ok result))
    (bounded : ∀ file ∈ next.catalog.files, file.info.revision ≤ maxRevisionNumber) :
    ∃ parentIds, active.catalog.ancestorIds (Catalog.readerOf active.transaction.id)
        operation.destMetafile = .ok parentIds ∧
      next.Settled ∧ next.transaction.id = active.transaction.id ∧
      Performs active.catalog.live
        ((operation.revisionWrites parentIds).map RevisionWrite.toStoreWrite)
        next.catalog.live := by
  rcases step_writeTxn isWrite steps with ⟨running, paths, written, sameId⟩
  have numbered : Catalog.Numbered { active.catalog with running := running } :=
    ⟨{ settled.numbered.wellFormed with }, settled.numbered.distinct, settled.numbered.bounded⟩
  rcases Catalog.writeTxn_performs numbered settled.seesAll isWrite written bounded with
    ⟨parentIds, isRoot, nextNumbered, seesAll, performs⟩
  refine ⟨parentIds, ?_, ⟨nextNumbered, ?_⟩, sameId, performs⟩
  · rw [← Catalog.ancestorIds_running active.catalog running]
    exact isRoot
  · rw [sameId]
    exact seesAll

/-- Revision numbers were bounded before a step if they are bounded after it. -/
theorem bounded_of_step {active next : ActiveTransaction} {operation : TransactionOperation}
    {result : StepResult} (isWrite : operation.isWrite)
    (steps : active.step operation = (next, .ok result))
    (bounded : ∀ file ∈ next.catalog.files, file.info.revision ≤ maxRevisionNumber) :
    ∀ file ∈ active.catalog.files, file.info.revision ≤ maxRevisionNumber := by
  rcases step_writeTxn isWrite steps with ⟨running, paths, written, _⟩
  have grows := Catalog.writeTxn_grows { active.catalog with running := running }
    active.transaction.id operation
  rw [written] at grows
  have before := Catalog.bounded_of_grows grows bounded
  exact before

/-- A step can only succeed if its first write is permitted. -/
theorem Settled.step_first {active next : ActiveTransaction} (settled : active.Settled)
    {operation : TransactionOperation} {result : StepResult} (isWrite : operation.isWrite)
    (steps : active.step operation = (next, .ok result)) {parentIds : List String}
    (isRoot : active.catalog.ancestorIds (Catalog.readerOf active.transaction.id)
      operation.destMetafile = .ok parentIds)
    {write : RevisionWrite} {writes : List RevisionWrite}
    (isFirst : operation.revisionWrites parentIds = write :: writes)
    (isRequired : write.ignoreExisting = false) :
    write.toStoreWrite.Permitted active.catalog.live := by
  rcases step_writeTxn isWrite steps with ⟨running, paths, written, _⟩
  have numbered : Catalog.Numbered { active.catalog with running := running } :=
    ⟨{ settled.numbered.wellFormed with }, settled.numbered.distinct, settled.numbered.bounded⟩
  rw [Catalog.writeTxn, Catalog.ancestorIds_running, isRoot] at written
  simp only [isFirst, Catalog.writeRevisions] at written
  rcases Catalog.writeRevision_eq numbered settled.seesAll write with
    ⟨permitted, _⟩ | ⟨error, isError, _⟩
  · exact permitted
  · rw [isError] at written
    simp [isRequired] at written

end ActiveTransaction

namespace Catalog

/--
A transaction that sees everything performs a write operation on a catalog. The
success log is the one at that time; the transaction may have performed other
operations before.
-/
structure Commits (catalog : Catalog) (transaction : Transaction) (success : SuccessLog)
    (operation : TransactionOperation) (next : Catalog) : Prop where
  isWrite : operation.isWrite
  seesAll : AllVisible { catalog with success := success } transaction.id
  steps : ∃ active result,
    ActiveTransaction.step ⟨transaction, { catalog with success := success }⟩ operation =
      (active, .ok result) ∧ active.catalog = next
  bounded : ∀ file ∈ next.files, file.info.revision ≤ maxRevisionNumber

/-- A committed write operation performs its writes on the store of live objects. -/
theorem Commits.performs {catalog next : Catalog} {transaction : Transaction}
    {success : SuccessLog} {operation : TransactionOperation} (numbered : catalog.Numbered)
    (commits : Commits catalog transaction success operation next) :
    ∃ parentIds, ancestorIds { catalog with success := success } (readerOf transaction.id)
        operation.destMetafile = .ok parentIds ∧
      next.Numbered ∧
      Performs catalog.live ((operation.revisionWrites parentIds).map RevisionWrite.toStoreWrite)
        next.live := by
  rcases commits.steps with ⟨active, result, steps, rfl⟩
  have settled : ActiveTransaction.Settled ⟨transaction, { catalog with success := success }⟩ :=
    ⟨⟨{ numbered.wellFormed with }, numbered.distinct, numbered.bounded⟩, commits.seesAll⟩
  rcases settled.step commits.isWrite steps commits.bounded with
    ⟨parentIds, isRoot, nextSettled, _, performs⟩
  exact ⟨parentIds, isRoot, nextSettled.numbered, performs⟩

end Catalog

namespace TransactionOperation

/-- The content that an operation writes for a metafile. -/
def writtenMetafile (parentIds : List String) (metafile : Metafile) : Metafile :=
  { metafile with ancestorIds := parentIds }.toSerializable

variable {store final : Store RevisionDir RevisionContent} {parentIds : List String}
  {writes : List (StoreWrite RevisionDir RevisionContent)}

theorem performs_locatorWrite {locator : Locator} {opType : TransactionOperationType}
    {id : String} :
    Performs store ((locatorWrite parentIds locator opType id).toStoreWrite :: writes) final ↔
      (if opType = .create then store ⟨parentIds, .mapping locator.name⟩ = none
        else store ⟨parentIds, .mapping locator.name⟩ ≠ none) ∧
      Performs (Function.update store ⟨parentIds, .mapping locator.name⟩
        (if opType = .delete then none else some (.mapping id))) writes final := by
  rw [performs_cons_of_required rfl, RevisionWrite.toStoreWrite_permitted,
    RevisionWrite.toStoreWrite_apply]
  rfl

theorem performs_metafileWrite {id : String} {opType : TransactionOperationType}
    {metafile : Metafile} :
    Performs store ((metafileWrite parentIds id opType metafile false).toStoreWrite :: writes)
        final ↔
      (if opType = .create then store ⟨parentIds, .metafile id⟩ = none
        else store ⟨parentIds, .metafile id⟩ ≠ none) ∧
      Performs (Function.update store ⟨parentIds, .metafile id⟩
        (if opType = .delete then none
          else some (.metafile (writtenMetafile parentIds metafile)))) writes final := by
  rw [performs_cons_of_required rfl, RevisionWrite.toStoreWrite_permitted,
    RevisionWrite.toStoreWrite_apply]
  rfl

/-- Creating an object that has no name besides its identifier writes no mapping. -/
theorem performs_create {dest : Metafile} {id : String}
    (isImmutable : dest.locator.name.immutableId = some id) (noAlias : dest.locatorAlias = none) :
    Performs store (((create dest).revisionWrites parentIds).map RevisionWrite.toStoreWrite)
        final ↔
      store ⟨parentIds, .metafile id⟩ = none ∧
        final = Function.update store ⟨parentIds, .metafile id⟩
          (some (.metafile (writtenMetafile parentIds dest))) := by
  have isId : dest.id = id := by simp [Metafile.id, isImmutable]
  have writes : (create dest).revisionWrites parentIds =
      [metafileWrite parentIds id .create dest false] := by
    simp [revisionWrites, locatorWrites, mutableLocators, destMetafile, srcMetafile,
      metafileWrites, type, isImmutable, noAlias, isId]
  rw [writes]
  simp only [List.map_cons, List.map_nil, performs_metafileWrite, performs_nil, if_true,
    reduceCtorEq, if_false]

/-- An update that keeps the names and the identifier of an object writes no mapping. -/
theorem performs_update {src dest : Metafile}
    {sameClass : src.metafileClass = dest.metafileClass} (sameLocator : dest.locator = src.locator)
    (sameAlias : dest.locatorAlias = src.locatorAlias) (sameId : dest.id = src.id) :
    Performs store (((update src dest sameClass).revisionWrites parentIds).map
        RevisionWrite.toStoreWrite) final ↔
      store ⟨parentIds, .metafile src.id⟩ ≠ none ∧
        final = Function.update store ⟨parentIds, .metafile src.id⟩
          (some (.metafile (writtenMetafile parentIds dest))) := by
  have noMapping : (update src dest sameClass).locatorWrites parentIds = [] := by
    unfold locatorWrites mutableLocators
    simp only [destMetafile, srcMetafile, Option.map_some, Option.bind_some, sameLocator, sameAlias]
    by_cases isMutable : src.locator.name.immutableId = none
    · simp [isMutable]
    · cases isAlias : src.locatorAlias <;> simp [isMutable]
  have writes : (update src dest sameClass).revisionWrites parentIds =
      [metafileWrite parentIds src.id .update dest false] := by
    simp [revisionWrites, noMapping, metafileWrites, destMetafile, srcMetafile, type, sameId]
  rw [writes]
  simp only [List.map_cons, List.map_nil, performs_metafileWrite, performs_nil, reduceCtorEq,
    if_false]

/-- The optional last write of a replacement. -/
theorem performs_replacement {id : String} {metafile : Metafile} :
    Performs store [(metafileWrite parentIds id .create metafile true).toStoreWrite] final ↔
      (store ⟨parentIds, .metafile id⟩ = none ∧
        final = Function.update store ⟨parentIds, .metafile id⟩
          (some (.metafile (writtenMetafile parentIds metafile)))) ∨
      (store ⟨parentIds, .metafile id⟩ ≠ none ∧ final = store) := by
  rw [performs_cons, RevisionWrite.toStoreWrite_permitted, RevisionWrite.toStoreWrite_apply]
  simp [metafileWrite, RevisionWrite.toStoreWrite, writtenMetafile]

end TransactionOperation

end Deltacat.Storage
