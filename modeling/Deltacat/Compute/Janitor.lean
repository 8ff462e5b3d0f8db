import Deltacat.Library.Run
import Deltacat.Storage.Transaction
import Deltacat.Storage.TransactionLog
import Mathlib.Tactic

/-!
# The janitor

The janitor cleans up after transactions that did not finish. A first pass over
the running logs is to move those that have timed out to the failed logs and to
delete every file with their identifiers in its name; a second pass over the
failed logs deletes the files of those transactions that have a running log as
well. Nothing keeps the janitor and the transactions apart, so both are modelled
down to single filesystem operations: a call of a transaction or a job of the
janitor is a list of tasks, each of which is one operation and may put further
tasks in front of the remaining ones. An exception drops what is left of the
call, or of the janitor's work on one log.

The first pass takes the last part of a log's name for its end time. Running
logs are named by the transaction's identifier alone, and what remains of that
without its last part is no identifier, so the pass ends at every log that a
transaction writes. `float` and the comparison with the clock are a parameter:
nothing depends on them.
-/

namespace Deltacat.Compute

open Deltacat.Library Deltacat.Storage

abbrev WritePath := RevisionPath RevisionDir

/-- A transaction operation with its recorded write paths, as the logs list it. -/
structure LoggedOperation where
  operation : TransactionOperation
  metafileWritePaths : List WritePath
  locatorWritePaths : List WritePath

namespace LoggedOperation

def of (operation : TransactionOperation) : LoggedOperation := ⟨operation, [], []⟩

/-- `append_metafile_write_path` and `append_locator_write_path`. -/
def appendWritePath (logged : LoggedOperation) (path : WritePath) : LoggedOperation :=
  if Transaction.isMetafilePath path then
    { logged with metafileWritePaths := logged.metafileWritePaths ++ [path] }
  else { logged with locatorWritePaths := logged.locatorWritePaths ++ [path] }

def writePaths (logged : LoggedOperation) : List WritePath :=
  logged.metafileWritePaths ++ logged.locatorWritePaths

end LoggedOperation

/-- One filesystem operation of a transaction; operations are given by their positions. -/
inductive TransactionTask
  | step (index : ℕ)
  | ensureRunningLog
  | writeTxn (index : ℕ)
  | newRevision (index : ℕ) (write : RevisionWrite)
  | writeFile (index : ℕ) (file : RevisionFile)
  | checkWritten (index : ℕ)
  | check (path : WritePath)
  | sealSteps (now : Option ℕ)
  | checkRecorded
  | writeSuccessLog
  | validateTxnLogFile
  | deleteRunningLog
  | writeFailedLog
  | deleteFile (path : WritePath)
  | deleteSuccessLog
  | writePausedLog
  | writeRunningLog
  | deletePausedLog

/-- A started transaction, with what is left of the current call. -/
structure Session where
  isHistoric : Bool
  interactive : Bool
  operations : List LoggedOperation
  runningLogWritten : Bool
  pauseTime : Option ℕ
  endTime : Option ℕ
  tasks : List TransactionTask

namespace Session

def hasEnded (session : Session) : Bool :=
  session.endTime.any (· ≠ 0)

/-- The metafile write paths of all operations, then the locator write paths. -/
def writePaths (session : Session) : List WritePath :=
  session.operations.flatMap (·.metafileWritePaths) ++
    session.operations.flatMap (·.locatorWritePaths)

def record (session : Session) (index : ℕ) (path : WritePath) : Session :=
  { session with operations := session.operations.modify index (·.appendWritePath path) }

def withTasks (session : Session) (tasks : List TransactionTask) : Session :=
  { session with tasks := tasks }

/-- The tasks of `_fail_and_cleanup`. -/
def cleanupTasks (session : Session) (deleteSuccessLog : Bool) : List TransactionTask :=
  .writeFailedLog :: session.writePaths.map .deleteFile ++ [.deleteRunningLog] ++
    if deleteSuccessLog then [.deleteSuccessLog] else []

end Session

/-- What `recursive_search` comes across. -/
inductive SearchEntry
  | objectDir (path : List String)
  | revisionDir (dir : RevisionDir)
  | file (file : RevisionFile)

/-- One filesystem operation of the janitor. -/
inductive JanitorTask
  | listRunning
  | inspect (name : String)
  | readRunning (name : String) (txnId : TransactionId)
  | writeFailed (name : String) (txnId : TransactionId) (contents : List LoggedOperation)
  | deleteRunning (name : String) (txnId : TransactionId)
  | search (entry : SearchEntry)
  | listFailed
  | readFailed (txnId : TransactionId)
  | checkFailed (txnId : TransactionId) (log : List LoggedOperation) (second : Bool)
  | checkRunning (txnId : TransactionId) (log : List LoggedOperation) (second inFailed : Bool)
  | deleteWritePaths (txnId : TransactionId) (log : List LoggedOperation)
  | deleteFile (path : WritePath)
  | deleteRunningLog (txnId : TransactionId)

/-- A job of the janitor: the transactions it has timed out, and what is left to do. -/
structure Job where
  dirtyFiles : List TransactionId
  tasks : List JanitorTask

/--
The catalog with the contents of its running and failed logs, the transactions,
and the janitor's jobs. What the janitor did is recorded: the files that it
deleted, each with the end time in its transaction's success log at that moment,
and the failed logs that it wrote.
-/
structure SharedCatalog where
  catalog : Catalog
  runningLog : TransactionId → List LoggedOperation
  failedLog : TransactionId → List LoggedOperation
  sessions : TransactionId → Option Session
  jobs : ℕ → Job
  deletions : List (WritePath × Option ℕ)
  failures : List TransactionId

/-- The calls of an interactive transaction; `failed` is `__exit__` after an exception. -/
inductive Call
  | step (operation : TransactionOperation)
  | sealTransaction (now : Option ℕ)
  | pause (now : Option ℕ)
  | resume (now : Option ℕ)
  | failed

inductive JanitorEvent
  | start (txnId : TransactionId) (isHistoric : Bool)
  | commit (txnId : TransactionId) (operations : List TransactionOperation) (now : Option ℕ)
  | call (txnId : TransactionId) (call : Call)
  | transact (txnId : TransactionId)
  | startJob (job : ℕ)
  | clean (job : ℕ) (now : ℕ)

namespace SharedCatalog

def initial : SharedCatalog where
  catalog := .empty
  runningLog := fun _ => []
  failedLog := fun _ => []
  sessions := fun _ => none
  jobs := fun _ => ⟨[], []⟩
  deletions := []
  failures := []

def setSession (shared : SharedCatalog) (txnId : TransactionId) (session : Session) :
    SharedCatalog :=
  { shared with sessions := Function.update shared.sessions txnId (some session) }

def setJob (shared : SharedCatalog) (job : ℕ) (state : Job) : SharedCatalog :=
  { shared with jobs := Function.update shared.jobs job state }

def writeRunningLog (shared : SharedCatalog) (txnId : TransactionId)
    (contents : List LoggedOperation) : SharedCatalog :=
  { shared with
    catalog := { shared.catalog with running := List.insert txnId shared.catalog.running }
    runningLog := Function.update shared.runningLog txnId contents }

def deleteRunningLog (shared : SharedCatalog) (txnId : TransactionId) : SharedCatalog :=
  { shared with
    catalog := { shared.catalog with running := shared.catalog.running.filter (· ≠ txnId) } }

def writeFailedLog (shared : SharedCatalog) (txnId : TransactionId)
    (contents : List LoggedOperation) : SharedCatalog :=
  { shared with
    catalog := { shared.catalog with failed := List.insert txnId shared.catalog.failed }
    failedLog := Function.update shared.failedLog txnId contents }

def setSuccess (shared : SharedCatalog) (txnId : TransactionId) (log : Option ℕ) : SharedCatalog :=
  { shared with
    catalog :=
      { shared.catalog with success := Function.update shared.catalog.success txnId log } }

def setPaused (shared : SharedCatalog) (paused : List TransactionId) : SharedCatalog :=
  { shared with catalog := { shared.catalog with paused := paused } }

/-- Begin a call of a transaction that is idle. -/
def beginCall (session : Session) (txnId : TransactionId) (paused : List TransactionId) :
    Call → Session
  | .step operation =>
      if session.isHistoric ∧ operation.isWrite then session
      else
        { session with
          operations := session.operations ++ [.of operation]
          tasks := [.step session.operations.length] }
  | .sealTransaction now =>
      if session.isHistoric ∧ session.operations.any (·.operation.isWrite) then session
      else session.withTasks [.sealSteps now]
  | .pause now =>
      if txnId.startTime = 0 ∨ session.hasEnded then session
      else
        match now with
        | none => session
        | some pauseTime =>
            { session with
              pauseTime := some pauseTime
              tasks := [.writePausedLog, .deleteRunningLog] }
  | .resume now =>
      if txnId ∉ paused ∨ session.isHistoric then session
      else
        match now, session.pauseTime with
        | some startTime, some pauseTime =>
            if startTime < pauseTime then session
            else session.withTasks [.writeRunningLog, .deletePausedLog]
        | _, _ => session
  | .failed => session.withTasks (session.cleanupTasks false)

/-- One task of a transaction, with the tasks that come after it. -/
def transact (shared : SharedCatalog) (txnId : TransactionId) (session : Session)
    (rest : List TransactionTask) : TransactionTask → SharedCatalog
  | .step index =>
      match session.operations[index]? with
      | none => shared.setSession txnId (session.withTasks rest)
      | some logged =>
          if logged.operation.isWrite then
            shared.setSession txnId (session.withTasks
              (.ensureRunningLog :: .writeTxn index :: .checkWritten index :: rest))
          else
            match shared.catalog.readTxn (Catalog.readerOf txnId) logged.operation with
            | .ok _ => shared.setSession txnId (session.withTasks rest)
            | .error _ => shared.setSession txnId (session.withTasks [])
  | .ensureRunningLog =>
      if session.runningLogWritten then shared.setSession txnId (session.withTasks rest)
      else
        (shared.writeRunningLog txnId session.operations).setSession txnId
          { session with runningLogWritten := true, tasks := rest }
  | .writeTxn index =>
      match session.operations[index]? with
      | none => shared.setSession txnId (session.withTasks rest)
      | some logged =>
          match shared.catalog.ancestorIds (Catalog.readerOf txnId)
              logged.operation.destMetafile with
          | .error _ => shared.setSession txnId (session.withTasks (session.cleanupTasks false))
          | .ok parentIds =>
              shared.setSession txnId (session.withTasks
                ((logged.operation.revisionWrites parentIds).map (.newRevision index) ++ rest))
  | .newRevision index write =>
      match shared.catalog.writeRevision txnId write with
      | .ok file => shared.setSession txnId (session.withTasks (.writeFile index file :: rest))
      | .error error =>
          if write.ignoreExisting ∧ error = .objectAlreadyExistsError then
            shared.setSession txnId (session.withTasks rest)
          else shared.setSession txnId (session.withTasks (session.cleanupTasks false))
  | .writeFile index file =>
      { shared with catalog := shared.catalog.addFile file }.setSession txnId
        ((session.record index file.path).withTasks rest)
  | .checkWritten index =>
      match session.operations[index]? with
      | none => shared.setSession txnId (session.withTasks rest)
      | some logged =>
          shared.setSession txnId (session.withTasks (logged.writePaths.map .check ++ rest))
  | .check path =>
      match MetafileRevisionInfo.checkForConcurrentTxnConflict (shared.catalog.filesIn path.1)
          shared.catalog.success path.2 with
      | .ok () => shared.setSession txnId (session.withTasks rest)
      | .error _ => shared.setSession txnId (session.withTasks (session.cleanupTasks false))
  | .sealSteps now =>
      if txnId.startTime = 0 ∨ session.hasEnded then
        shared.setSession txnId (session.withTasks [])
      else
        match now with
        | none => shared.setSession txnId (session.withTasks [])
        | some endTime =>
            shared.setSession txnId
              { session with
                endTime := some endTime
                tasks :=
                  if session.operations.all (!·.operation.isWrite) then rest
                  else
                    .ensureRunningLog :: .checkRecorded :: .writeSuccessLog ::
                      .validateTxnLogFile :: .deleteRunningLog :: rest }
  | .checkRecorded =>
      shared.setSession txnId (session.withTasks (session.writePaths.map .check ++ rest))
  | .writeSuccessLog =>
      (shared.setSuccess txnId session.endTime).setSession txnId (session.withTasks rest)
  | .validateTxnLogFile =>
      if session.endTime.any (· < txnId.startTime) then
        shared.setSession txnId (session.withTasks (session.cleanupTasks true))
      else shared.setSession txnId (session.withTasks rest)
  | .deleteRunningLog =>
      (shared.deleteRunningLog txnId).setSession txnId (session.withTasks rest)
  | .writeFailedLog =>
      (shared.writeFailedLog txnId session.operations).setSession txnId (session.withTasks rest)
  | .deleteFile path =>
      { shared with catalog := shared.catalog.deleteFiles [path] }.setSession txnId
        (session.withTasks rest)
  | .deleteSuccessLog => (shared.setSuccess txnId none).setSession txnId (session.withTasks rest)
  | .writePausedLog =>
      (shared.setPaused (List.insert txnId shared.catalog.paused)).setSession txnId
        (session.withTasks rest)
  | .writeRunningLog =>
      (shared.writeRunningLog txnId session.operations).setSession txnId (session.withTasks rest)
  | .deletePausedLog =>
      (shared.setPaused (shared.catalog.paused.filter (· ≠ txnId))).setSession txnId
        (session.withTasks rest)

end SharedCatalog

namespace SearchEntry

/-- The base name of a revision file. -/
def baseName (file : RevisionFile) : String :=
  String.ofList (paddedDigits 20 file.info.revision) ++ "_" ++ file.info.txnOpType.value ++ "_" ++
    file.info.txnId.text ++
      match file.content with
      | .metafile _ => metafileExt
      | .mapping id => "." ++ id

/-- The entries of a directory; directories of the name `txn` are skipped. -/
def entries (catalog : Catalog) : SearchEntry → List SearchEntry
  | objectDir path =>
      (catalog.objectDirs.filter fun objectPath =>
          objectPath.dropLast = path ∧ objectPath ≠ [] ∧
            objectPath.getLast? ≠ some "txn").dedup.map objectDir ++
        (catalog.files.filter fun file =>
          match file.dir.entry with
          | .metafile id => file.dir.parentIds ++ [id] = path
          | .mapping _ => file.dir.parentIds = path).map (fun file => revisionDir file.dir)
  | revisionDir dir => (catalog.files.filter (·.dir = dir)).map file
  | file _ => []

end SearchEntry

namespace SharedCatalog

/-- `delete_file` by the janitor; a missing file is only reported. -/
def removeFile (shared : SharedCatalog) (path : WritePath) : SharedCatalog :=
  if shared.catalog.files.any (·.path = path) then
    { shared with
      catalog := shared.catalog.deleteFiles [path]
      deletions := shared.deletions ++ [(path, shared.catalog.success path.2.txnId)] }
  else shared

section Clean

variable (timedOut : String → ℕ → Option Bool)

/--
The transaction that `janitor_delete_timed_out_transaction` takes a running log
for, if the log has timed out by its name.
-/
def timedOutTransaction (name : String) (now : ℕ) : Option TransactionId :=
  let parts := name.toList.splitOn '_'
  if timedOut (String.ofList (parts.getLastD [])) now = some true then
    let txnId := String.ofList (['_'].intercalate parts.dropLast)
    match parseTransactionId txnId with
    | .ok (startTime, uuid) =>
        if separated : 0 ≤ startTime ∧ '_' ∉ uuid.toList then
          some ⟨startTime.toNat, uuid, separated.2⟩
        else none
    | .error _ => none
  else none

/-- One task of a job, with the tasks that come after it. -/
def clean (shared : SharedCatalog) (job : ℕ) (now : ℕ) (dirtyFiles : List TransactionId)
    (rest : List JanitorTask) : JanitorTask → SharedCatalog
  | .listRunning =>
      shared.setJob job ⟨dirtyFiles, shared.catalog.running.map (.inspect ·.text) ++ rest⟩
  | .inspect name =>
      match timedOutTransaction timedOut name now with
      | some txnId => shared.setJob job ⟨dirtyFiles, .readRunning name txnId :: rest⟩
      | none => shared.setJob job ⟨dirtyFiles, rest⟩
  | .readRunning name txnId =>
      match shared.catalog.running.find? (·.text = name) with
      | some source =>
          shared.setJob job ⟨dirtyFiles,
            .writeFailed name txnId (shared.runningLog source) :: .deleteRunning name txnId :: rest⟩
      | none => shared.setJob job ⟨dirtyFiles, rest⟩
  | .writeFailed _ txnId contents =>
      { shared.writeFailedLog txnId contents with
        failures := shared.failures ++ [txnId] }.setJob job ⟨dirtyFiles, rest⟩
  | .deleteRunning name txnId =>
      match shared.catalog.running.find? (·.text = name) with
      | some source =>
          (shared.deleteRunningLog source).setJob job ⟨dirtyFiles ++ [txnId], rest⟩
      | none => shared.setJob job ⟨dirtyFiles, rest⟩
  | .search entry =>
      match entry with
      | .file file =>
          if dirtyFiles.any fun txnId =>
              txnId.uuid.toList <:+: (SearchEntry.baseName file).toList then
            (shared.removeFile file.path).setJob job ⟨dirtyFiles, rest⟩
          else shared.setJob job ⟨dirtyFiles, rest⟩
      | directory =>
          shared.setJob job
            ⟨dirtyFiles, (directory.entries shared.catalog).map .search ++ rest⟩
  | .listFailed => shared.setJob job ⟨dirtyFiles, shared.catalog.failed.map .readFailed ++ rest⟩
  | .readFailed txnId =>
      if txnId ∈ shared.catalog.failed then
        shared.setJob job ⟨dirtyFiles, .checkFailed txnId (shared.failedLog txnId) false :: rest⟩
      else shared.setJob job ⟨dirtyFiles, rest⟩
  | .checkFailed txnId log second =>
      shared.setJob job
        ⟨dirtyFiles, .checkRunning txnId log second (txnId ∈ shared.catalog.failed) :: rest⟩
  | .checkRunning txnId log second inFailed =>
      let inRunning : Bool := txnId ∈ shared.catalog.running
      if second then
        -- `FAILED`
        if inFailed ∧ inRunning then
          shared.setJob job ⟨dirtyFiles, .deleteWritePaths txnId log :: rest⟩
        else shared.setJob job ⟨dirtyFiles, rest⟩
      -- `PURGED`
      else if inFailed ∧ ¬inRunning then shared.setJob job ⟨dirtyFiles, rest⟩
      else shared.setJob job ⟨dirtyFiles, .checkFailed txnId log true :: rest⟩
  | .deleteWritePaths txnId log =>
      match log with
      | [] => shared.setJob job ⟨dirtyFiles, .deleteRunningLog txnId :: rest⟩
      | logged :: log =>
          -- An operation without metafile paths or without locator paths has no such key.
          if logged.metafileWritePaths = [] ∨ logged.locatorWritePaths = [] then
            shared.setJob job ⟨dirtyFiles, rest⟩
          else
            shared.setJob job
              ⟨dirtyFiles, logged.writePaths.map .deleteFile ++
                .deleteWritePaths txnId log :: rest⟩
  | .deleteFile path => (shared.removeFile path).setJob job ⟨dirtyFiles, rest⟩
  -- The failed log is then moved to the path it already has.
  | .deleteRunningLog txnId => (shared.deleteRunningLog txnId).setJob job ⟨dirtyFiles, rest⟩

/-- A step of a transaction, of one of its callers or of a job of the janitor. -/
def step (shared : SharedCatalog) : JanitorEvent → Option SharedCatalog
  | .start txnId isHistoric =>
      match shared.sessions txnId with
      | none => some (shared.setSession txnId ⟨isHistoric, true, [], false, none, none, []⟩)
      | some _ => none
  | .commit txnId operations now =>
      match shared.sessions txnId with
      | none =>
          if operations = [] then none
          else
            some (shared.setSession txnId
              ⟨false, false, operations.map .of, false, none, none,
                (List.range operations.length).map .step ++ [.sealSteps now]⟩)
      | some _ => none
  | .call txnId call =>
      match shared.sessions txnId with
      | none => none
      | some session =>
          if session.interactive ∧ session.tasks.isEmpty then
            some (shared.setSession txnId (beginCall session txnId shared.catalog.paused call))
          else none
  | .transact txnId =>
      match shared.sessions txnId with
      | none => none
      | some session =>
          match session.tasks with
          | [] => none
          | task :: rest => some (shared.transact txnId session rest task)
  | .startJob job =>
      match (shared.jobs job).tasks with
      | [] => some (shared.setJob job ⟨[], [.listRunning, .search (.objectDir []), .listFailed]⟩)
      | _ :: _ => none
  | .clean job now =>
      match (shared.jobs job).tasks with
      | [] => none
      | task :: rest =>
          some (shared.clean timedOut job now (shared.jobs job).dirtyFiles rest task)

def Step (shared : SharedCatalog) (event : JanitorEvent) (next : SharedCatalog) : Prop :=
  shared.step timedOut event = some next

end Clean

end SharedCatalog

end Deltacat.Compute
