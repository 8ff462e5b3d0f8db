import Deltacat.Storage.Metafile
import Mathlib.Tactic

/-!
# Transactions

The writing half of `Metafile` and the life of a transaction: `step`, `pause`,
`resume`, `seal` and `commit`, with the four transaction logs. A call that
raises an exception has still changed what it changed before, and the caller may
go on with the transaction. Each call is therefore a function that returns the
next state together with its result or the exception.

A write operation is a fixed list of revision writes (`locatorWrites` and
`metafileWrites`) once the ancestors are resolved. Each of them picks the next
revision of its directory, and the first one that fails ends the operation.
-/

namespace Deltacat.Storage

open Deltacat.Library MetafileRevisionInfo

/-- The class of a metafile. -/
inductive MetafileClass
  | namespaceClass
  | tableClass
  | tableVersionClass
  | streamClass
  | partitionClass
  | deltaClass
  deriving DecidableEq

namespace Metafile

def metafileClass (metafile : Metafile) : MetafileClass :=
  match metafile.locator.name with
  | .namespaceName _ => .namespaceClass
  | .tableName _ => .tableClass
  | .tableVersionName _ => .tableVersionClass
  | .streamName _ _ | .streamAliasName _ => .streamClass
  | .partitionName _ _ | .partitionAliasName _ _ => .partitionClass
  | .deltaName _ => .deltaClass

end Metafile

/--
The operations that `TransactionOperation.of` accepts: only updates and replaces
have a source, which is of the class of the destination, and only reads have a
limit.
-/
inductive TransactionOperation
  | create (destMetafile : Metafile)
  | update (srcMetafile destMetafile : Metafile)
      (sameClass : srcMetafile.metafileClass = destMetafile.metafileClass)
  | replace (srcMetafile destMetafile : Metafile)
      (sameClass : srcMetafile.metafileClass = destMetafile.metafileClass)
  | delete (destMetafile : Metafile)
  | readSiblings (destMetafile : Metafile) (readLimit : Option ℕ)
  | readChildren (destMetafile : Metafile) (readLimit : Option ℕ)
  | readLatest (destMetafile : Metafile) (readLimit : Option ℕ)
  | readExists (destMetafile : Metafile) (readLimit : Option ℕ)

namespace TransactionOperation

def type : TransactionOperation → TransactionOperationType
  | create _ => .create
  | update _ _ _ => .update
  | replace _ _ _ => .replace
  | delete _ => .delete
  | readSiblings _ _ => .readSiblings
  | readChildren _ _ => .readChildren
  | readLatest _ _ => .readLatest
  | readExists _ _ => .readExists

def destMetafile : TransactionOperation → Metafile
  | create dest | update _ dest _ | replace _ dest _ | delete dest => dest
  | readSiblings dest _ | readChildren dest _ | readLatest dest _ | readExists dest _ => dest

def srcMetafile : TransactionOperation → Option Metafile
  | update src _ _ | replace src _ _ => some src
  | _ => none

def isWrite (operation : TransactionOperation) : Bool :=
  operation.type.isWriteOperation

/--
The mutable source and destination locators of `_write_metafile_revisions`:
the locators of objects without an immutable identifier, else their aliases.
-/
def mutableLocators (operation : TransactionOperation) : Option Locator × Option Locator :=
  let dest := operation.destMetafile
  if dest.locator.name.immutableId = none then
    (operation.srcMetafile.map (·.locator), some dest.locator)
  else if dest.locatorAlias.isSome then
    (operation.srcMetafile.bind (·.locatorAlias), dest.locatorAlias)
  else (none, none)

end TransactionOperation

/--
One revision to be written. An existing object is no failure for the last write
of a replacement, whose destination may have been staged before.
-/
structure RevisionWrite where
  dir : RevisionDir
  opType : TransactionOperationType
  content : RevisionContent
  ignoreExisting : Bool

namespace TransactionOperation

/-- `_write_locator_to_id_map_file`. -/
def locatorWrite (parentIds : List String) (locator : Locator)
    (opType : TransactionOperationType) (id : String) : RevisionWrite where
  dir := ⟨parentIds, .mapping locator.name⟩
  opType := opType
  content := .mapping id
  ignoreExisting := false

/-- `_write_metafile_revision`; by now the metafile knows its ancestors. -/
def metafileWrite (parentIds : List String) (id : String) (opType : TransactionOperationType)
    (metafile : Metafile) (ignoreExisting : Bool) : RevisionWrite where
  dir := ⟨parentIds, .metafile id⟩
  opType := opType
  content := .metafile { metafile with ancestorIds := parentIds }.toSerializable
  ignoreExisting := ignoreExisting

/-- The name mappings that `_write_metafile_revisions` writes. -/
def locatorWrites (operation : TransactionOperation) (parentIds : List String) :
    List RevisionWrite :=
  match operation.mutableLocators with
  | (_, none) => []
  | (mutableSrcLocator, some mutableDestLocator) =>
      match operation with
      | update src dest _ =>
          if mutableSrcLocator = some mutableDestLocator then []
          else
            (mutableSrcLocator.map fun locator =>
              locatorWrite parentIds locator .delete src.id).toList ++
                [locatorWrite parentIds mutableDestLocator .create dest.id]
      | _ =>
          [locatorWrite parentIds mutableDestLocator operation.type operation.destMetafile.id]

/-- The metafile revisions that `_write_metafile_revisions` writes. -/
def metafileWrites (operation : TransactionOperation) (parentIds : List String) :
    List RevisionWrite :=
  let dest := operation.destMetafile
  match operation.srcMetafile with
  | none => [metafileWrite parentIds dest.id operation.type dest false]
  | some src =>
      if src.id ≠ dest.id then
        [metafileWrite parentIds src.id .delete dest false,
          metafileWrite parentIds dest.id .create dest true]
      else [metafileWrite parentIds dest.id operation.type dest false]

def revisionWrites (operation : TransactionOperation) (parentIds : List String) :
    List RevisionWrite :=
  operation.locatorWrites parentIds ++ operation.metafileWrites parentIds

end TransactionOperation

namespace Catalog

/-- The object directories on the way to a revision directory. -/
def directoriesOf (dir : RevisionDir) : List (List String) :=
  match dir.entry with
  | .metafile id => (dir.parentIds ++ [id]).inits.tail
  | .mapping _ => dir.parentIds.inits.tail

/-- `write_file_partitioned` of a revision file, overwriting a file of the same path. -/
def addFile (catalog : Catalog) (file : RevisionFile) : Catalog :=
  { catalog with
    files := catalog.files.filter (·.path ≠ file.path) ++ [file]
    objectDirs := catalog.objectDirs ++ directoriesOf file.dir }

/-- Delete the files at the given paths that are there. -/
def deleteFiles (catalog : Catalog) (paths : List (RevisionPath RevisionDir)) : Catalog :=
  { catalog with files := catalog.files.filter (·.path ∉ paths) }

/-- What a transaction reads with. -/
def readerOf (txnId : TransactionId) : Reader :=
  ⟨some txnId, some txnId.startTime⟩

/-- Write the next revision of a directory. -/
def writeRevision (catalog : Catalog) (txnId : TransactionId) (write : RevisionWrite) :
    Except Error RevisionFile := do
  let mri ← newRevision (catalog.filesIn write.dir) write.opType txnId.startTime txnId
    catalog.success
  return ⟨write.dir, mri, write.content⟩

/-- Write revisions up to the first failure; the paths written so far are recorded. -/
def writeRevisions (txnId : TransactionId) :
    List RevisionWrite → Catalog → Catalog × List (RevisionPath RevisionDir) × Except Error Unit
  | [], catalog => (catalog, [], .ok ())
  | write :: writes, catalog =>
      match catalog.writeRevision txnId write with
      | .ok file =>
          let (catalog, paths, result) := writeRevisions txnId writes (catalog.addFile file)
          (catalog, file.path :: paths, result)
      | .error error =>
          if write.ignoreExisting ∧ error = .objectAlreadyExistsError then
            writeRevisions txnId writes catalog
          else (catalog, [], .error error)

/-- `write_txn`. -/
def writeTxn (catalog : Catalog) (txnId : TransactionId) (operation : TransactionOperation) :
    Catalog × List (RevisionPath RevisionDir) × Except Error Unit :=
  match catalog.ancestorIds (readerOf txnId) operation.destMetafile with
  | .error error => (catalog, [], .error error)
  | .ok parentIds => writeRevisions txnId (operation.revisionWrites parentIds) catalog

/-- `check_for_concurrent_txn_conflict` for each of the given paths. -/
def checkForConflicts (catalog : Catalog) (paths : List (RevisionPath RevisionDir)) :
    Except Error Unit :=
  paths.forM fun path =>
    checkForConcurrentTxnConflict (catalog.filesIn path.1) catalog.success path.2

/-- `read_txn`; a revision that was not materialized is an empty dictionary. -/
def readTxn (catalog : Catalog) (reader : Reader) (operation : TransactionOperation) :
    Except Error (List (Option Metafile)) :=
  let latestItem (metafile : Metafile) (materialize : Bool) := do
    match ← catalog.latestOf reader metafile materialize with
    | none => return []
    | some (opType, item) => return if opType = .delete then [] else [item]
  match operation with
  | .readSiblings metafile limit => List.map some <$> catalog.siblings reader metafile limit
  | .readChildren metafile limit => List.map some <$> catalog.children reader metafile limit
  | .readLatest metafile _ => latestItem metafile true
  | .readExists metafile _ => latestItem metafile false
  | _ => .error .valueError

end Catalog

/--
A started transaction. The write paths of its operations are kept in one list
for the metafiles and one for the locators, in the order of the operations.
-/
structure Transaction where
  id : TransactionId
  isHistoric : Bool
  interactive : Bool
  operations : List TransactionOperation
  metafileWritePaths : List (RevisionPath RevisionDir)
  locatorWritePaths : List (RevisionPath RevisionDir)
  runningLogWritten : Bool
  pauseTime : Option ℕ
  endTime : Option ℕ
  listResults : List (List (Option Metafile))

namespace Transaction

/-- `start`, of a transaction with the given operations. -/
def start (id : TransactionId) (isHistoric : Bool) (operations : List TransactionOperation) :
    Transaction where
  id := id
  isHistoric := isHistoric
  interactive := operations.isEmpty
  operations := operations
  metafileWritePaths := []
  locatorWritePaths := []
  runningLogWritten := false
  pauseTime := none
  endTime := none
  listResults := []

def writePaths (transaction : Transaction) : List (RevisionPath RevisionDir) :=
  transaction.metafileWritePaths ++ transaction.locatorWritePaths

/-- Whether a path is that of a metafile revision rather than of a name mapping. -/
def isMetafilePath (path : RevisionPath RevisionDir) : Bool :=
  match path.1.entry with
  | .metafile _ => true
  | .mapping _ => false

/-- `append_metafile_write_path` and `append_locator_write_path`. -/
def record (transaction : Transaction) (paths : List (RevisionPath RevisionDir)) : Transaction :=
  { transaction with
    metafileWritePaths := transaction.metafileWritePaths ++ paths.filter isMetafilePath
    locatorWritePaths := transaction.locatorWritePaths ++ paths.filter (!isMetafilePath ·) }

/-- Whether an end time was set; zero counts as unset. -/
def hasEnded (transaction : Transaction) : Bool :=
  transaction.endTime.any (· ≠ 0)

end Transaction

/-- A started transaction and the catalog it works on. -/
structure ActiveTransaction where
  transaction : Transaction
  catalog : Catalog

namespace ActiveTransaction

/-- `_write_running_log`, unless the log was written before. -/
def ensureRunningLog (active : ActiveTransaction) : ActiveTransaction :=
  if active.transaction.runningLogWritten then active
  else
    { transaction := { active.transaction with runningLogWritten := true }
      catalog :=
        { active.catalog with
          running := List.insert active.transaction.id active.catalog.running } }

/--
`_fail_and_cleanup`: write the failed log, delete every file whose path was
recorded, and delete the running log and, if asked to, the success log.
-/
def failAndCleanup (active : ActiveTransaction) (deleteSuccessLog : Bool) : ActiveTransaction :=
  let txnId := active.transaction.id
  let catalog := active.catalog.deleteFiles active.transaction.writePaths
  { active with
    catalog :=
      { catalog with
        failed := List.insert txnId catalog.failed
        running := catalog.running.filter (· ≠ txnId)
        success := if deleteSuccessLog then Function.update catalog.success txnId none
          else catalog.success } }

/-- The branch of `step` for write operations. -/
def writeStep (active : ActiveTransaction) (operation : TransactionOperation) :
    ActiveTransaction × Except Error (List (RevisionPath RevisionDir)) :=
  let active := active.ensureRunningLog
  let (catalog, paths, written) := active.catalog.writeTxn active.transaction.id operation
  let active : ActiveTransaction :=
    { transaction := active.transaction.record paths, catalog := catalog }
  let ordered := paths.filter Transaction.isMetafilePath ++
    paths.filter (!Transaction.isMetafilePath ·)
  match written.bind fun _ => catalog.checkForConflicts ordered with
  | .ok () => (active, .ok ordered)
  | .error error => (active.failAndCleanup false, .error error)

/-- The branch of `step` for read operations. An exception leaves everything as it is. -/
def readStep (active : ActiveTransaction) (operation : TransactionOperation) :
    ActiveTransaction × Except Error (List (Option Metafile)) :=
  match active.catalog.readTxn (Catalog.readerOf active.transaction.id) operation with
  | .ok listResult =>
      ({ active with
        transaction :=
          { active.transaction with
            listResults := active.transaction.listResults ++ [listResult] } }, .ok listResult)
  | .error error => (active, .error error)

/-- What `step` returns: the result of a read, or the paths of a write. -/
inductive StepResult
  | listed (listResult : List (Option Metafile))
  | written (paths : List (RevisionPath RevisionDir))
  deriving DecidableEq

/-- The operations of an interactive transaction are listed as they come. -/
def listed (active : ActiveTransaction) (operation : TransactionOperation) : ActiveTransaction :=
  if active.transaction.interactive then
    { active with
      transaction :=
        { active.transaction with
          operations := active.transaction.operations ++ [operation] } }
  else active

/-- `step`. -/
def step (active : ActiveTransaction) (operation : TransactionOperation) :
    ActiveTransaction × Except Error StepResult :=
  if active.transaction.isHistoric ∧ operation.isWrite then (active, .error .runtimeError)
  else
    let active := active.listed operation
    if operation.isWrite then
      let (active, result) := active.writeStep operation
      (active, result.map .written)
    else
      let (active, result) := active.readStep operation
      (active, result.map .listed)

/--
`_seal_steps`, where the time is what the provider's `end_time` returns, if it
returns. The path of the success log is not part of the result.
-/
def sealSteps (active : ActiveTransaction) (now : Option ℕ) :
    ActiveTransaction ×
      Except Error (List (List (Option Metafile)) × List (RevisionPath RevisionDir)) :=
  if active.transaction.id.startTime = 0 ∨ active.transaction.hasEnded then
    (active, .error .runtimeError)
  else
    match now with
    | none => (active, .error .timeoutError)
    | some endTime =>
        let active : ActiveTransaction :=
          { active with transaction := { active.transaction with endTime := some endTime } }
        if active.transaction.operations.all (!·.isWrite) then
          (active, .ok (active.transaction.listResults, []))
        else
          let active := active.ensureRunningLog
          let txnId := active.transaction.id
          match active.catalog.checkForConflicts active.transaction.writePaths with
          | .error error => (active.failAndCleanup false, .error error)
          | .ok () =>
              let active : ActiveTransaction :=
                { active with
                  catalog :=
                    { active.catalog with
                      success := Function.update active.catalog.success txnId (some endTime) } }
              -- `_validate_txn_log_file`
              if endTime < txnId.startTime then (active.failAndCleanup true, .error .runtimeError)
              else if txnId ∈ active.catalog.running then
                ({ active with
                  catalog :=
                    { active.catalog with
                      running := active.catalog.running.filter (· ≠ txnId) } },
                  .ok (active.transaction.listResults, active.transaction.metafileWritePaths))
              else (active, .error .fileNotFoundError)

/-- `seal`. -/
def sealTransaction (active : ActiveTransaction) (now : Option ℕ) :
    ActiveTransaction ×
      Except Error (List (List (Option Metafile)) × List (RevisionPath RevisionDir)) :=
  if ¬active.transaction.interactive then (active, .error .runtimeError)
  else if active.transaction.isHistoric ∧ active.transaction.operations.any (·.isWrite) then
    (active, .error .runtimeError)
  else active.sealSteps now

/-- `pause`. -/
def pause (active : ActiveTransaction) (now : Option ℕ) :
    ActiveTransaction × Except Error Unit :=
  let txnId := active.transaction.id
  if txnId.startTime = 0 ∨ active.transaction.hasEnded then (active, .error .runtimeError)
  else
    match now with
    | none => (active, .error .timeoutError)
    | some pauseTime =>
        let active : ActiveTransaction :=
          { transaction := { active.transaction with pauseTime := some pauseTime }
            catalog :=
              { active.catalog with paused := List.insert txnId active.catalog.paused } }
        if txnId ∈ active.catalog.running then
          ({ active with
            catalog :=
              { active.catalog with
                running := active.catalog.running.filter (· ≠ txnId) } }, .ok ())
        else (active, .error .fileNotFoundError)

/--
`resume`. The paused log is read, but nothing of it is copied into the
transaction object: what `resume` updates are the attributes of the object, and
the log only has dictionary entries. The time provider of a historic transaction
cannot be restored.
-/
def resume (active : ActiveTransaction) (now : Option ℕ) :
    ActiveTransaction × Except Error Unit :=
  let txnId := active.transaction.id
  if txnId ∉ active.catalog.paused then (active, .error .fileNotFoundError)
  else if active.transaction.isHistoric then (active, .error .valueError)
  else
    match now, active.transaction.pauseTime with
    | none, _ => (active, .error .timeoutError)
    | some _, none => (active, .error .typeError)
    | some startTime, some pauseTime =>
        -- The message of the exception reads an attribute that does not exist.
        if startTime < pauseTime then (active, .error .attributeError)
        else
          ({ active with
            catalog :=
              { active.catalog with
                running := List.insert txnId active.catalog.running
                paused := active.catalog.paused.filter (· ≠ txnId) } }, .ok ())

/-- The loop of `commit`: perform the operations up to the first one that fails. -/
def steps (active : ActiveTransaction) :
    List TransactionOperation → ActiveTransaction × Except Error Unit
  | [] => (active, .ok ())
  | operation :: operations =>
      match active.step operation with
      | (active, .ok _) => active.steps operations
      | (active, .error error) => (active, .error error)

/-- `commit` of a started transaction with at least one operation. -/
def commit (active : ActiveTransaction) (now : Option ℕ) :
    ActiveTransaction ×
      Except Error (List (List (Option Metafile)) × List (RevisionPath RevisionDir)) :=
  match active.steps active.transaction.operations with
  | (active, .ok ()) => active.sealSteps now
  | (active, .error error) => (active, .error error)

end ActiveTransaction

end Deltacat.Storage
