import Deltacat.Compute.Janitor
import Deltacat.Storage.Atomicity
import Mathlib.Tactic

/-!
# Safety of the janitor

The janitor deletes the files in a failed log when it has found the failed log
and the running log of the transaction, and it does not look again before it
deletes them. A transaction is not kept from going on after it has failed, so by
then the files may have been written anew and be those of a transaction with a
success log (`not_safe_run`). `Disciplined` asks that no transaction gets both a
failed log and a success log by its callers' doing; then no file that the
janitor deletes belongs to a transaction with a success log (`safe_run`).
-/

namespace Deltacat.Compute

open Deltacat.Library Deltacat.Storage

namespace TransactionTask

/-- The task belongs to a call that writes a failed log if it fails, or writes one itself. -/
def MayFail (operations : List LoggedOperation) : TransactionTask → Prop
  | step index => ∃ logged, operations[index]? = some logged ∧ logged.operation.isWrite
  | ensureRunningLog | writeTxn _ | newRevision _ _ | writeFile _ _ | checkWritten _ => True
  | check _ | checkRecorded | writeSuccessLog | writeFailedLog => True
  | _ => False

/-- The task is on the way to a success log. -/
def maySucceed : TransactionTask → Bool
  | sealSteps _ | writeSuccessLog => true
  | _ => false

/-- The success log that the task writes or checks does not end before the transaction starts. -/
def InTime (txnId : TransactionId) (endTime : Option ℕ) : TransactionTask → Prop
  | sealSteps now => ∀ time ∈ now, txnId.startTime ≤ time
  | writeSuccessLog | validateTxnLogFile =>
      txnId.startTime ≠ 0 ∧ ∃ time, endTime = some time ∧ txnId.startTime ≤ time
  | _ => True

/-- What is left to do once the success log is written. -/
def isClosing : TransactionTask → Bool
  | validateTxnLogFile | deleteRunningLog => true
  | _ => false

/-- A success log is written at the end of a call, and not after a failed log. -/
def Follows (earlier later : TransactionTask) : Prop :=
  (earlier.maySucceed → later.isClosing) ∧ (earlier = writeFailedLog → ¬later.maySucceed)

/-- The file that the task writes is the transaction's. -/
def Owned (txnId : TransactionId) : TransactionTask → Prop
  | writeFile _ file => file.info.txnId = txnId
  | _ => True

theorem owned_of_isClosing {task : TransactionTask} (isClosing : task.isClosing)
    {txnId : TransactionId} : task.Owned txnId := by
  cases task <;> trivial

theorem inTime_of_isClosing {task : TransactionTask} (isClosing : task.isClosing)
    {txnId : TransactionId} (positive : txnId.startTime ≠ 0) {endTime : ℕ}
    (inTime : txnId.startTime ≤ endTime) : task.InTime txnId (some endTime) := by
  cases task with
  | validateTxnLogFile => exact ⟨positive, endTime, rfl, inTime⟩
  | deleteRunningLog => trivial
  | _ => cases isClosing

theorem not_mayFail_of_isClosing {task : TransactionTask} (isClosing : task.isClosing)
    {operations : List LoggedOperation} : ¬task.MayFail operations := by
  cases task with
  | validateTxnLogFile | deleteRunningLog => exact id
  | _ => cases isClosing

end TransactionTask

/-- Every recorded path is the transaction's. -/
def LogOwned (txnId : TransactionId) (log : List LoggedOperation) : Prop :=
  ∀ logged ∈ log, ∀ path ∈ logged.writePaths, path.2.txnId = txnId

namespace JanitorTask

/-- The janitor only works on the transactions with a failed log, and on their files. -/
def Sound (failed : List TransactionId) : JanitorTask → Prop
  | listRunning | search _ | listFailed => True
  | inspect name => ∃ txnId : TransactionId, name = txnId.text
  | readRunning _ _ | writeFailed _ _ _ | deleteRunning _ _ => False
  | readFailed txnId | deleteRunningLog txnId => txnId ∈ failed
  | checkFailed txnId log _ | checkRunning txnId log _ _ | deleteWritePaths txnId log =>
      txnId ∈ failed ∧ LogOwned txnId log
  | deleteFile path => path.2.txnId ∈ failed

theorem Sound.mono {failed later : List TransactionId} (subset : failed ⊆ later)
    {task : JanitorTask} (sound : task.Sound failed) : task.Sound later := by
  cases task <;> grind [Sound]

end JanitorTask

namespace SharedCatalog

/--
No file that the janitor deleted belonged to a transaction with a success log
when it was deleted, or belongs to one now, and no transaction has a success log
and a failed log that the janitor wrote.
-/
def Safe (shared : SharedCatalog) : Prop :=
  (∀ deletion ∈ shared.deletions,
    deletion.2 = none ∧ shared.catalog.success deletion.1.2.txnId = none) ∧
  ∀ txnId ∈ shared.failures, shared.catalog.success txnId = none

/--
The condition on a call: a transaction with a failed log is not sealed, one with
a success log neither steps a write operation nor fails, and the end time is not
before the start time.
-/
def Disciplined (shared : SharedCatalog) : JanitorEvent → Prop
  | .call txnId (.step operation) => operation.isWrite → shared.catalog.success txnId = none
  | .call txnId (.sealTransaction now) =>
      txnId ∉ shared.catalog.failed ∧ ∀ time ∈ now, txnId.startTime ≤ time
  | .call txnId .failed => shared.catalog.success txnId = none
  | .commit txnId _ now => ∀ time ∈ now, txnId.startTime ≤ time
  | _ => True

instance (shared : SharedCatalog) (event : JanitorEvent) :
    Decidable (shared.Disciplined event) :=
  match event with
  | .call _ (.step _) => inferInstanceAs (Decidable (_ → _))
  | .call _ (.sealTransaction _) => inferInstanceAs (Decidable (_ ∧ ∀ _ ∈ _, _))
  | .call _ .failed => inferInstanceAs (Decidable (_ = _))
  | .call _ (.pause _) | .call _ (.resume _) => inferInstanceAs (Decidable True)
  | .commit _ _ _ => inferInstanceAs (Decidable (∀ _ ∈ _, _))
  | .start _ _ | .transact _ | .startJob _ | .clean _ _ => inferInstanceAs (Decidable True)

end SharedCatalog

/-- What holds of a transaction, given its success log and whether it has a failed log. -/
structure SessionInvariant (log : Option ℕ) (failed : Prop) (txnId : TransactionId)
    (session : Session) : Prop where
  owned : LogOwned txnId session.operations
  tasksOwned : ∀ task ∈ session.tasks, task.Owned txnId
  failing : ∀ task ∈ session.tasks, task.MayFail session.operations → log = none
  succeeding : ∀ task ∈ session.tasks, task.maySucceed → ¬failed
  inTime : ∀ task ∈ session.tasks, task.InTime txnId session.endTime
  ordered : session.tasks.Pairwise TransactionTask.Follows
  ended : log ≠ none → session.hasEnded

namespace SessionInvariant

variable {log : Option ℕ} {failed : Prop} {txnId : TransactionId} {session : Session}

/-- A session with other tasks. -/
theorem withTasks (invariant : SessionInvariant log failed txnId session)
    {tasks : List TransactionTask} (tasksOwned : ∀ task ∈ tasks, task.Owned txnId)
    (failing : ∀ task ∈ tasks, task.MayFail session.operations → log = none)
    (succeeding : ∀ task ∈ tasks, task.maySucceed → ¬failed)
    (inTime : ∀ task ∈ tasks, task.InTime txnId session.endTime)
    (ordered : tasks.Pairwise TransactionTask.Follows) :
    SessionInvariant log failed txnId (session.withTasks tasks) where
  owned := invariant.owned
  tasksOwned := tasksOwned
  failing := failing
  succeeding := succeeding
  inTime := inTime
  ordered := ordered
  ended := invariant.ended

theorem idle (invariant : SessionInvariant log failed txnId session) :
    SessionInvariant log failed txnId (session.withTasks []) := by
  apply invariant.withTasks <;> simp

/-- Going on with the tasks after the first one. -/
theorem rest (invariant : SessionInvariant log failed txnId session) {task : TransactionTask}
    {rest : List TransactionTask} (tasks : session.tasks = task :: rest) :
    SessionInvariant log failed txnId (session.withTasks rest) := by
  have later : ∀ other ∈ rest, other ∈ session.tasks := by
    intro other otherMem
    rw [tasks]
    exact List.mem_cons_of_mem _ otherMem
  apply invariant.withTasks
  · exact fun other otherMem => invariant.tasksOwned other (later other otherMem)
  · exact fun other otherMem => invariant.failing other (later other otherMem)
  · exact fun other otherMem => invariant.succeeding other (later other otherMem)
  · exact fun other otherMem => invariant.inTime other (later other otherMem)
  · exact (List.pairwise_cons.mp (tasks ▸ invariant.ordered)).2

/-- Replacing the first task by others of the same call that write no log. -/
theorem push (invariant : SessionInvariant log failed txnId session)
    (pushed : List TransactionTask) {task : TransactionTask} {rest : List TransactionTask}
    (tasks : session.tasks = task :: rest) (unlogged : log = none)
    (owned : ∀ other ∈ pushed, other.Owned txnId)
    (plain : ∀ other ∈ pushed, ¬other.maySucceed ∧ other ≠ .writeFailedLog)
    (inTime : ∀ other ∈ pushed, other.InTime txnId session.endTime) :
    SessionInvariant log failed txnId (session.withTasks (pushed ++ rest)) := by
  have after := invariant.rest tasks
  apply invariant.withTasks
  · intro other otherMem
    rcases List.mem_append.mp otherMem with new | old
    · exact owned other new
    · exact after.tasksOwned other old
  · exact fun _ _ _ => unlogged
  · intro other otherMem succeeds
    rcases List.mem_append.mp otherMem with new | old
    · exact absurd succeeds (plain other new).1
    · exact after.succeeding other old succeeds
  · intro other otherMem
    rcases List.mem_append.mp otherMem with new | old
    · exact inTime other new
    · exact after.inTime other old
  · have follows : ∀ earlier ∈ pushed, ∀ later, TransactionTask.Follows earlier later := by
      intro earlier earlierMem later
      refine ⟨fun succeeds => absurd succeeds (plain earlier earlierMem).1, ?_⟩
      exact fun isFailed => absurd isFailed (plain earlier earlierMem).2
    refine List.pairwise_append.mpr ⟨?_, after.ordered, fun earlier mem later _ =>
      follows earlier mem later⟩
    exact List.pairwise_of_forall_mem_list fun earlier mem later _ => follows earlier mem later

/-- The conflict checks of a write operation, or of all of them when the transaction is sealed. -/
theorem pushChecks (invariant : SessionInvariant log failed txnId session)
    {task : TransactionTask} {rest : List TransactionTask} (tasks : session.tasks = task :: rest)
    (unlogged : log = none) (paths : List WritePath) :
    SessionInvariant log failed txnId (session.withTasks (paths.map .check ++ rest)) := by
  apply invariant.push _ tasks unlogged <;> intro other otherMem <;>
    rcases List.mem_map.mp otherMem with ⟨path, _, rfl⟩
  · trivial
  · simp [TransactionTask.maySucceed]
  · trivial

/-- The tasks of `_seal_steps`, once the end time is taken. -/
theorem beginSeal (invariant : SessionInvariant log failed txnId session) {now : Option ℕ}
    {rest : List TransactionTask} (tasks : session.tasks = .sealSteps now :: rest)
    (unlogged : log = none) (positive : txnId.startTime ≠ 0) {endTime : ℕ}
    (inTime : txnId.startTime ≤ endTime) :
    SessionInvariant log failed txnId
      { session with
        endTime := some endTime
        tasks :=
          if session.operations.all (!·.operation.isWrite) then rest
          else
            .ensureRunningLog :: .checkRecorded :: .writeSuccessLog ::
              .validateTxnLogFile :: .deleteRunningLog :: rest } := by
  have closing : ∀ later ∈ rest, later.isClosing := by
    intro later laterMem
    exact ((List.pairwise_cons.mp (tasks ▸ invariant.ordered)).1 later laterMem).1 rfl
  have unfailed : ¬failed := invariant.succeeding (.sealSteps now) (by simp [tasks]) rfl
  have restOrdered : rest.Pairwise TransactionTask.Follows := (invariant.rest tasks).ordered
  generalize newTasks : (if session.operations.all (!·.operation.isWrite) then rest
    else .ensureRunningLog :: .checkRecorded :: .writeSuccessLog :: .validateTxnLogFile ::
      .deleteRunningLog :: rest) = pushed
  have known : ∀ task ∈ pushed, task.isClosing ∨ task = .ensureRunningLog ∨
      task = .checkRecorded ∨ task = .writeSuccessLog := by
    intro task taskMem
    rw [← newTasks] at taskMem
    split at taskMem
    · exact .inl (closing task taskMem)
    · simp only [List.mem_cons] at taskMem
      rcases taskMem with rfl | rfl | rfl | rfl | rfl | old <;>
        simp [TransactionTask.isClosing]
      exact .inl (closing task old)
  constructor
  · exact invariant.owned
  · intro task taskMem
    rcases known task taskMem with isClosing | rfl | rfl | rfl
    · exact TransactionTask.owned_of_isClosing isClosing
    all_goals trivial
  · exact fun _ _ _ => unlogged
  · exact fun _ _ _ => unfailed
  · intro task taskMem
    rcases known task taskMem with isClosing | rfl | rfl | rfl
    · exact TransactionTask.inTime_of_isClosing isClosing positive inTime
    · trivial
    · trivial
    · exact ⟨positive, endTime, rfl, inTime⟩
  · change pushed.Pairwise TransactionTask.Follows
    rw [← newTasks]
    split
    · exact restOrdered
    · simp only [List.pairwise_cons, List.mem_cons, TransactionTask.Follows,
        TransactionTask.maySucceed]
      grind [TransactionTask.isClosing]
  · exact fun logged => absurd unlogged logged

theorem mem_cleanupTasks {deleteSuccessLog : Bool} {task : TransactionTask}
    (taskMem : task ∈ session.cleanupTasks deleteSuccessLog) :
    task = .writeFailedLog ∨ (∃ path, task = .deleteFile path) ∨ task = .deleteRunningLog ∨
      task = .deleteSuccessLog := by
  cases deleteSuccessLog <;> simp [Session.cleanupTasks] at taskMem <;> grind

/-- `_fail_and_cleanup` of a transaction without a success log. -/
theorem cleanup (invariant : SessionInvariant log failed txnId session) (unlogged : log = none)
    (deleteSuccessLog : Bool) :
    SessionInvariant log failed txnId
      (session.withTasks (session.cleanupTasks deleteSuccessLog)) := by
  apply invariant.withTasks
  · intro task taskMem
    rcases mem_cleanupTasks taskMem with rfl | ⟨path, rfl⟩ | rfl | rfl <;> trivial
  · exact fun _ _ _ => unlogged
  · intro task taskMem succeeds
    rcases mem_cleanupTasks taskMem with rfl | ⟨path, rfl⟩ | rfl | rfl <;>
      simp [TransactionTask.maySucceed] at succeeds
  · intro task taskMem
    rcases mem_cleanupTasks taskMem with rfl | ⟨path, rfl⟩ | rfl | rfl <;> trivial
  · refine List.pairwise_of_forall_mem_list ?_
    intro earlier earlierMem later laterMem
    rcases mem_cleanupTasks earlierMem with rfl | ⟨path, rfl⟩ | rfl | rfl <;>
      rcases mem_cleanupTasks laterMem with rfl | ⟨path, rfl⟩ | rfl | rfl <;>
        simp [TransactionTask.Follows, TransactionTask.maySucceed]

end SessionInvariant

namespace SharedCatalog

structure Invariant (shared : SharedCatalog) : Prop where
  session : ∀ txnId session, shared.sessions txnId = some session →
    SessionInvariant (shared.catalog.success txnId) (txnId ∈ shared.catalog.failed) txnId session
  started : ∀ txnId, shared.sessions txnId = none →
    shared.catalog.success txnId = none ∧ txnId ∉ shared.catalog.failed
  failedOwned : ∀ txnId, LogOwned txnId (shared.failedLog txnId)
  exclusive : ∀ txnId ∈ shared.catalog.failed, shared.catalog.success txnId = none
  job : ∀ job, (shared.jobs job).dirtyFiles = [] ∧
    ∀ task ∈ (shared.jobs job).tasks, task.Sound shared.catalog.failed
  deleted : ∀ deletion ∈ shared.deletions,
    deletion.2 = none ∧ deletion.1.2.txnId ∈ shared.catalog.failed
  failures : shared.failures = []

theorem invariant_initial : initial.Invariant where
  session := by simp [initial]
  started := by simp [initial, Catalog.empty]
  failedOwned := by simp [initial, LogOwned]
  exclusive := by simp [initial, Catalog.empty]
  job := by simp [initial]
  deleted := by simp [initial]
  failures := rfl

namespace Invariant

variable {shared next : SharedCatalog}

theorem safe (invariant : shared.Invariant) : shared.Safe := by
  constructor
  · intro deletion deletionMem
    have deleted := invariant.deleted deletion deletionMem
    exact ⟨deleted.1, invariant.exclusive _ deleted.2⟩
  · simp [invariant.failures]

/-- A step of one transaction, which leaves the logs of the others and the janitor alone. -/
theorem act (invariant : shared.Invariant) {txnId : TransactionId} {session : Session}
    (sessions : next.sessions = Function.update shared.sessions txnId (some session))
    (jobs : next.jobs = shared.jobs) (deletions : next.deletions = shared.deletions)
    (failures : next.failures = shared.failures)
    (success : ∀ other, other ≠ txnId →
      next.catalog.success other = shared.catalog.success other)
    (failedKept : shared.catalog.failed ⊆ next.catalog.failed)
    (failedNew : ∀ other ∈ next.catalog.failed, other ≠ txnId → other ∈ shared.catalog.failed)
    (failedOwned : ∀ other, LogOwned other (next.failedLog other))
    (exclusive : txnId ∈ next.catalog.failed → next.catalog.success txnId = none)
    (own : SessionInvariant (next.catalog.success txnId) (txnId ∈ next.catalog.failed) txnId
      session) : next.Invariant where
  session := by
    intro other otherSession isOther
    rw [sessions] at isOther
    by_cases isActor : other = txnId
    · subst isActor
      obtain rfl : session = otherSession := by simpa using isOther
      exact own
    · rw [Function.update_of_ne isActor] at isOther
      have before := invariant.session other otherSession isOther
      rw [success other isActor]
      exact { before with
        succeeding := fun task taskMem succeeds isFailed =>
          before.succeeding task taskMem succeeds (failedNew other isFailed isActor) }
  started := by
    intro other notStarted
    rw [sessions] at notStarted
    have isOther : other ≠ txnId := by
      rintro rfl
      simp at notStarted
    rw [Function.update_of_ne isOther] at notStarted
    have before := invariant.started other notStarted
    rw [success other isOther]
    exact ⟨before.1, fun isFailed => before.2 (failedNew other isFailed isOther)⟩
  failedOwned := failedOwned
  exclusive := by
    intro other isFailed
    by_cases isActor : other = txnId
    · exact isActor ▸ exclusive (isActor ▸ isFailed)
    · rw [success other isActor]
      exact invariant.exclusive other (failedNew other isFailed isActor)
  job := by
    intro job
    rw [jobs]
    exact ⟨(invariant.job job).1, fun task taskMem =>
      ((invariant.job job).2 task taskMem).mono failedKept⟩
  deleted := by
    intro deletion deletionMem
    rw [deletions] at deletionMem
    have before := invariant.deleted deletion deletionMem
    exact ⟨before.1, failedKept before.2⟩
  failures := failures.trans invariant.failures

/-- A step of one transaction that leaves the success and the failed logs alone. -/
theorem actQuietly (invariant : shared.Invariant) {txnId : TransactionId} {session : Session}
    (sessions : next.sessions = Function.update shared.sessions txnId (some session))
    (jobs : next.jobs = shared.jobs) (deletions : next.deletions = shared.deletions)
    (failures : next.failures = shared.failures)
    (success : next.catalog.success = shared.catalog.success)
    (failed : next.catalog.failed = shared.catalog.failed)
    (failedLog : next.failedLog = shared.failedLog)
    (own : SessionInvariant (shared.catalog.success txnId) (txnId ∈ shared.catalog.failed) txnId
      session) : next.Invariant := by
  apply invariant.act sessions jobs deletions failures
  · simp [success]
  · simp [failed]
  · exact fun other isFailed _ => failed ▸ isFailed
  · simpa [failedLog] using invariant.failedOwned
  · simpa [success, failed] using invariant.exclusive txnId
  · simpa [success, failed] using own

/-- A step that only changes the transaction's own state. -/
theorem setSession (invariant : shared.Invariant) {txnId : TransactionId} {session : Session}
    (own : SessionInvariant (shared.catalog.success txnId) (txnId ∈ shared.catalog.failed) txnId
      session) : (shared.setSession txnId session).Invariant :=
  invariant.actQuietly rfl rfl rfl rfl rfl rfl rfl own

end Invariant

theorem LogOwned.modify {txnId : TransactionId} {log : List LoggedOperation}
    (owned : LogOwned txnId log) {path : WritePath} (pathOwned : path.2.txnId = txnId) (index : ℕ) :
    LogOwned txnId (log.modify index (·.appendWritePath path)) := by
  intro logged loggedMem
  rcases List.mem_iff_getElem?.mp loggedMem with ⟨position, found⟩
  rw [List.getElem?_modify] at found
  rcases Option.map_eq_some_iff.mp found with ⟨before, isBefore, rfl⟩
  have beforeOwned := owned before (List.mem_of_getElem? isBefore)
  split
  · intro other otherMem
    simp only [LoggedOperation.appendWritePath, LoggedOperation.writePaths] at otherMem beforeOwned
    split at otherMem <;>
      simp only [List.mem_append, List.mem_singleton] at otherMem beforeOwned <;>
      grind
  · exact beforeOwned

namespace Invariant

variable {shared : SharedCatalog} {txnId : TransactionId} {session : Session}
  {task : TransactionTask} {rest : List TransactionTask}

/-- One task of a transaction. -/
theorem transact (invariant : shared.Invariant) (isSession : shared.sessions txnId = some session)
    (tasks : session.tasks = task :: rest) :
    (shared.transact txnId session rest task).Invariant := by
  have own := invariant.session txnId session isSession
  have after := own.rest tasks
  have taskMem : task ∈ session.tasks := by simp [tasks]
  cases task with
  | step index =>
      simp only [SharedCatalog.transact]
      split
      · exact invariant.setSession after
      · rename_i logged isLogged
        split
        · rename_i isWrite
          have unlogged := own.failing _ taskMem ⟨logged, isLogged, isWrite⟩
          apply invariant.setSession
          apply own.push [_, _, _] tasks unlogged <;>
            simp [TransactionTask.Owned, TransactionTask.maySucceed, TransactionTask.InTime]
        · split
          · exact invariant.setSession after
          · exact invariant.setSession own.idle
  | ensureRunningLog =>
      simp only [SharedCatalog.transact]
      split
      · exact invariant.setSession after
      · exact invariant.actQuietly rfl rfl rfl rfl rfl rfl rfl { after with }
  | writeTxn index =>
      have unlogged := own.failing _ taskMem trivial
      simp only [SharedCatalog.transact]
      split
      · exact invariant.setSession after
      split
      · exact invariant.setSession (own.cleanup unlogged false)
      · apply invariant.setSession
        apply own.push _ tasks unlogged <;>
          simp [TransactionTask.Owned, TransactionTask.maySucceed, TransactionTask.InTime]
  | newRevision index write =>
      have unlogged := own.failing _ taskMem trivial
      simp only [SharedCatalog.transact]
      split
      · rename_i file written
        apply invariant.setSession
        apply own.push [_] tasks unlogged
        · simpa [TransactionTask.Owned] using Catalog.writeRevision_own written
        · simp [TransactionTask.maySucceed]
        · simp [TransactionTask.InTime]
      split
      · exact invariant.setSession after
      · exact invariant.setSession (own.cleanup unlogged false)
  | writeFile index file =>
      have unlogged := own.failing _ taskMem trivial
      have fileOwned : file.info.txnId = txnId := own.tasksOwned _ taskMem
      refine invariant.actQuietly rfl rfl rfl rfl rfl rfl rfl ?_
      exact { after with
        owned := LogOwned.modify own.owned fileOwned index
        failing := fun _ _ _ => unlogged }
  | checkWritten index =>
      have unlogged := own.failing _ taskMem trivial
      simp only [SharedCatalog.transact]
      split
      · exact invariant.setSession after
      · exact invariant.setSession (own.pushChecks tasks unlogged _)
  | check path =>
      have unlogged := own.failing _ taskMem trivial
      simp only [SharedCatalog.transact]
      split
      · exact invariant.setSession after
      · exact invariant.setSession (own.cleanup unlogged false)
  | sealSteps now =>
      simp only [SharedCatalog.transact]
      split
      · exact invariant.setSession own.idle
      rename_i unended
      split
      · exact invariant.setSession own.idle
      rename_i endTime
      have inTime : txnId.startTime ≤ endTime := own.inTime _ taskMem endTime rfl
      have unlogged : shared.catalog.success txnId = none := by
        by_contra logged
        exact unended (.inr (own.ended logged))
      apply invariant.setSession
      exact own.beginSeal tasks unlogged (fun isZero => unended (.inl isZero)) inTime
  | checkRecorded =>
      have unlogged := own.failing _ taskMem trivial
      exact invariant.setSession (own.pushChecks tasks unlogged _)
  | writeSuccessLog =>
      rcases own.inTime _ taskMem with ⟨positive, time, isEndTime, inTime⟩
      have unfailed := own.succeeding _ taskMem rfl
      have hasEnded : session.hasEnded := by
        simp only [Session.hasEnded, isEndTime, Option.any_some, decide_eq_true_eq]
        omega
      have closing : ∀ later ∈ rest, later.isClosing := by
        intro later laterMem
        exact ((List.pairwise_cons.mp (tasks ▸ own.ordered)).1 later laterMem).1 rfl
      refine invariant.act rfl rfl rfl rfl ?_ (List.Subset.refl _) (fun _ isFailed _ => isFailed)
        invariant.failedOwned (fun isFailed => absurd isFailed unfailed) ?_
      · exact fun other isOther => Function.update_of_ne isOther _ _
      · exact { after with
          failing := by
            intro later laterMem fails
            exact absurd fails (TransactionTask.not_mayFail_of_isClosing (closing later laterMem))
          ended := fun _ => hasEnded }
  | validateTxnLogFile =>
      rcases own.inTime _ taskMem with ⟨_, time, isEndTime, inTime⟩
      simp only [SharedCatalog.transact, isEndTime, Option.any_some, decide_eq_true_eq,
        Nat.not_lt.mpr inTime]
      exact invariant.setSession after
  | deleteRunningLog => exact invariant.actQuietly rfl rfl rfl rfl rfl rfl rfl after
  | writeFailedLog =>
      have unlogged := own.failing _ taskMem trivial
      have unsuccessful : ∀ later ∈ rest, ¬later.maySucceed := by
        intro later laterMem
        exact ((List.pairwise_cons.mp (tasks ▸ own.ordered)).1 later laterMem).2 rfl
      refine invariant.act rfl rfl rfl rfl (fun _ _ => rfl) ?_ ?_ ?_ (fun _ => unlogged) ?_
      · exact fun other isFailed => List.mem_insert_of_mem isFailed
      · intro other isFailed isOther
        exact (List.mem_insert_iff.mp isFailed).resolve_left isOther
      · intro other
        by_cases isActor : other = txnId
        · subst isActor
          simpa [SharedCatalog.transact, SharedCatalog.setSession,
            SharedCatalog.writeFailedLog] using own.owned
        · simpa [SharedCatalog.transact, SharedCatalog.setSession, SharedCatalog.writeFailedLog,
            Function.update_of_ne isActor] using invariant.failedOwned other
      · exact { after with
          succeeding := fun later laterMem succeeds =>
            absurd succeeds (unsuccessful later laterMem) }
  | deleteFile path => exact invariant.actQuietly rfl rfl rfl rfl rfl rfl rfl after
  | deleteSuccessLog =>
      have deleted : (shared.transact txnId session rest .deleteSuccessLog).catalog.success txnId =
          none := Function.update_self _ _ _
      refine invariant.act rfl rfl rfl rfl ?_ (List.Subset.refl _) (fun _ isFailed _ => isFailed)
        invariant.failedOwned (fun _ => deleted) ?_
      · exact fun other isOther => Function.update_of_ne isOther _ _
      · rw [deleted]
        exact { after with
          failing := fun _ _ _ => rfl
          ended := fun logged => absurd rfl logged }
  | writePausedLog => exact invariant.actQuietly rfl rfl rfl rfl rfl rfl rfl after
  | writeRunningLog => exact invariant.actQuietly rfl rfl rfl rfl rfl rfl rfl after
  | deletePausedLog => exact invariant.actQuietly rfl rfl rfl rfl rfl rfl rfl after

/-- A call of an idle transaction. -/
theorem call (invariant : shared.Invariant) (isSession : shared.sessions txnId = some session)
    {call : Call} (disciplined : shared.Disciplined (.call txnId call)) :
    (shared.setSession txnId
      (beginCall session txnId shared.catalog.paused call)).Invariant := by
  have own := invariant.session txnId session isSession
  apply invariant.setSession
  cases call with
  | step operation =>
      simp only [beginCall]
      split
      · exact own
      · constructor
        · intro logged loggedMem
          rcases List.mem_append.mp loggedMem with old | new
          · exact own.owned logged old
          · obtain rfl := List.mem_singleton.mp new
            simp [LoggedOperation.writePaths, LoggedOperation.of]
        · simp [TransactionTask.Owned]
        · simpa [TransactionTask.MayFail, LoggedOperation.of, Disciplined] using disciplined
        · simp [TransactionTask.maySucceed]
        · simp [TransactionTask.InTime]
        · simp
        · exact own.ended
  | sealTransaction now =>
      simp only [beginCall]
      split
      · exact own
      · apply own.withTasks
        · simp [TransactionTask.Owned]
        · simp [TransactionTask.MayFail]
        · simpa [TransactionTask.maySucceed] using disciplined.1
        · simpa [TransactionTask.InTime] using disciplined.2
        · simp
  | pause now =>
      simp only [beginCall]
      split
      · exact own
      split
      · exact own
      · constructor
        · exact own.owned
        · simp [TransactionTask.Owned]
        · simp [TransactionTask.MayFail]
        · simp [TransactionTask.maySucceed]
        · simp [TransactionTask.InTime]
        · simp [TransactionTask.Follows, TransactionTask.maySucceed]
        · exact own.ended
  | resume now =>
      simp only [beginCall]
      split
      · exact own
      split
      · split
        · exact own
        · apply own.withTasks <;> simp [TransactionTask.Owned, TransactionTask.MayFail,
            TransactionTask.maySucceed, TransactionTask.InTime, TransactionTask.Follows]
      · exact own
  | failed => exact own.cleanup disciplined false

/-- A transaction is started; `commit` has its tasks laid out at once. -/
theorem start (invariant : shared.Invariant) (fresh : shared.sessions txnId = none)
    (operations : List TransactionOperation) {isHistoric interactive : Bool}
    {tasks : List TransactionTask}
    (plain : ∀ task ∈ tasks, task.Owned txnId ∧ task.InTime txnId none)
    (ordered : tasks.Pairwise TransactionTask.Follows) :
    (shared.setSession txnId
      ⟨isHistoric, interactive, operations.map .of, false, none, none, tasks⟩).Invariant := by
  have unlogged := invariant.started txnId fresh
  apply invariant.setSession
  constructor
  · intro logged loggedMem
    rcases List.mem_map.mp loggedMem with ⟨operation, _, rfl⟩
    simp [LoggedOperation.writePaths, LoggedOperation.of]
  · exact fun task taskMem => (plain task taskMem).1
  · exact fun _ _ _ => unlogged.1
  · exact fun _ _ _ => unlogged.2
  · exact fun task taskMem => (plain task taskMem).2
  · exact ordered
  · exact fun logged => absurd unlogged.1 logged

/-- A job goes on with other tasks. -/
theorem setJob (invariant : shared.Invariant) {job : ℕ} {tasks : List JanitorTask}
    (sound : ∀ task ∈ tasks, task.Sound shared.catalog.failed) :
    (shared.setJob job ⟨[], tasks⟩).Invariant where
  session := invariant.session
  started := invariant.started
  failedOwned := invariant.failedOwned
  exclusive := invariant.exclusive
  job := by
    intro other
    by_cases isJob : other = job
    · subst isJob
      simpa [SharedCatalog.setJob] using sound
    · simpa [SharedCatalog.setJob, Function.update_of_ne isJob] using invariant.job other
  deleted := invariant.deleted
  failures := invariant.failures

theorem deleteRunningLog (invariant : shared.Invariant) (txnId : TransactionId) :
    (shared.deleteRunningLog txnId).Invariant where
  session := invariant.session
  started := invariant.started
  failedOwned := invariant.failedOwned
  exclusive := invariant.exclusive
  job := invariant.job
  deleted := invariant.deleted
  failures := invariant.failures

theorem removeFile_failed (shared : SharedCatalog) (path : WritePath) :
    (shared.removeFile path).catalog.failed = shared.catalog.failed := by
  unfold SharedCatalog.removeFile
  split <;> rfl

/-- The janitor deletes a file of a transaction with a failed log. -/
theorem removeFile (invariant : shared.Invariant) {path : WritePath}
    (isFailed : path.2.txnId ∈ shared.catalog.failed) : (shared.removeFile path).Invariant := by
  unfold SharedCatalog.removeFile
  split
  · exact {
      session := invariant.session
      started := invariant.started
      failedOwned := invariant.failedOwned
      exclusive := invariant.exclusive
      job := invariant.job
      deleted := by
        intro deletion deletionMem
        rcases List.mem_append.mp deletionMem with old | new
        · exact invariant.deleted deletion old
        · obtain rfl := List.mem_singleton.mp new
          exact ⟨invariant.exclusive _ isFailed, isFailed⟩
      failures := invariant.failures }
  · exact invariant

end Invariant

/-- No running log of a transaction is taken for a timed-out one. -/
theorem timedOutTransaction_text (timedOut : String → ℕ → Option Bool) (txnId : TransactionId)
    (now : ℕ) : timedOutTransaction timedOut txnId.text now = none := by
  have parts : txnId.text.toList.splitOn '_' =
      [Nat.toDigits 10 txnId.startTime, txnId.uuid.toList] := by
    have chars : txnId.text.toList =
        Nat.toDigits 10 txnId.startTime ++ '_' :: txnId.uuid.toList := by
      simp [TransactionId.text]
    rw [chars, List.splitOn_append_cons_self_of_not_mem Nat.underscore_not_in_toDigits,
      List.splitOn_eq_singleton txnId.noSeparator]
  -- Without its last part the name is the start time, which is no identifier.
  have unparsed : parseTransactionId (String.ofList (Nat.toDigits 10 txnId.startTime)) =
      .error .valueError := by
    simp [parseTransactionId, List.splitOn_eq_singleton Nat.underscore_not_in_toDigits]
  simp [timedOutTransaction, parts, unparsed, List.intercalate]

namespace Invariant

variable {shared : SharedCatalog} {job : ℕ} {task : JanitorTask} {rest : List JanitorTask}

/-- One task of the janitor. -/
theorem clean (timedOut : String → ℕ → Option Bool) (invariant : shared.Invariant)
    (tasks : (shared.jobs job).tasks = task :: rest) (now : ℕ) :
    (shared.clean timedOut job now (shared.jobs job).dirtyFiles rest task).Invariant := by
  have ⟨noDirtyFiles, sound⟩ := invariant.job job
  rw [noDirtyFiles]
  rw [tasks] at sound
  have taskSound := sound task List.mem_cons_self
  have restSound : ∀ other ∈ rest, other.Sound shared.catalog.failed :=
    fun other otherMem => sound other (List.mem_cons_of_mem _ otherMem)
  have pushed : ∀ front : List JanitorTask, (∀ other ∈ front, other.Sound shared.catalog.failed) →
      (shared.setJob job ⟨[], front ++ rest⟩).Invariant := by
    intro front frontSound
    apply invariant.setJob
    intro other otherMem
    rcases List.mem_append.mp otherMem with new | old
    · exact frontSound other new
    · exact restSound other old
  cases task with
  | listRunning =>
      apply pushed
      intro other otherMem
      rcases List.mem_map.mp otherMem with ⟨txnId, _, rfl⟩
      exact ⟨txnId, rfl⟩
  | inspect name =>
      rcases taskSound with ⟨txnId, rfl⟩
      simp only [SharedCatalog.clean, timedOutTransaction_text]
      exact invariant.setJob restSound
  | readRunning name txnId => exact taskSound.elim
  | writeFailed name txnId contents => exact taskSound.elim
  | deleteRunning name txnId => exact taskSound.elim
  | search entry =>
      cases entry with
      | file file => exact invariant.setJob restSound
      | objectDir path =>
          apply pushed
          intro other otherMem
          rcases List.mem_map.mp otherMem with ⟨found, _, rfl⟩
          trivial
      | revisionDir dir =>
          apply pushed
          intro other otherMem
          rcases List.mem_map.mp otherMem with ⟨found, _, rfl⟩
          trivial
  | listFailed =>
      apply pushed
      intro other otherMem
      rcases List.mem_map.mp otherMem with ⟨txnId, isFailed, rfl⟩
      exact isFailed
  | readFailed txnId =>
      simp only [SharedCatalog.clean]
      split
      · apply pushed [_]
        simpa [JanitorTask.Sound, taskSound] using
          (⟨taskSound, invariant.failedOwned txnId⟩ : _ ∧ LogOwned _ _)
      · exact invariant.setJob restSound
  | checkFailed txnId log second =>
      apply pushed [_]
      simpa [JanitorTask.Sound] using taskSound
  | checkRunning txnId log second inFailed =>
      simp only [SharedCatalog.clean]
      split
      · split
        · apply pushed [_]
          simpa [JanitorTask.Sound] using taskSound
        · exact invariant.setJob restSound
      split
      · exact invariant.setJob restSound
      · apply pushed [_]
        simpa [JanitorTask.Sound] using taskSound
  | deleteWritePaths txnId log =>
      cases log with
      | nil =>
          apply pushed [_]
          simpa [JanitorTask.Sound] using taskSound.1
      | cons logged log =>
          simp only [SharedCatalog.clean]
          split
          · exact invariant.setJob restSound
          · have grown := pushed
              (logged.writePaths.map .deleteFile ++ [.deleteWritePaths txnId log])
            rw [List.append_assoc, List.singleton_append] at grown
            apply grown
            intro other otherMem
            rcases List.mem_append.mp otherMem with ofPath | ofRest
            · rcases List.mem_map.mp ofPath with ⟨path, pathMem, rfl⟩
              change path.2.txnId ∈ shared.catalog.failed
              rw [taskSound.2 logged List.mem_cons_self path pathMem]
              exact taskSound.1
            · obtain rfl := List.mem_singleton.mp ofRest
              exact ⟨taskSound.1, fun other otherMem =>
                taskSound.2 other (List.mem_cons_of_mem _ otherMem)⟩
  | deleteFile path =>
      apply (invariant.removeFile taskSound).setJob
      rw [removeFile_failed]
      exact restSound
  | deleteRunningLog txnId => exact (invariant.deleteRunningLog txnId).setJob restSound

theorem step (timedOut : String → ℕ → Option Bool) {next : SharedCatalog} {event : JanitorEvent}
    (invariant : shared.Invariant) (disciplined : shared.Disciplined event)
    (stepped : shared.Step timedOut event next) : next.Invariant := by
  cases event with
  | start txnId isHistoric =>
      simp only [Step, SharedCatalog.step] at stepped
      split at stepped
      · rename_i fresh
        cases stepped
        exact invariant.start fresh [] (by simp) (by simp)
      · cases stepped
  | commit txnId operations now =>
      simp only [Step, SharedCatalog.step] at stepped
      split at stepped
      · rename_i fresh
        split at stepped
        · cases stepped
        · cases stepped
          apply invariant.start fresh operations
          · intro task taskMem
            rcases List.mem_append.mp taskMem with isStep | isSeal
            · rcases List.mem_map.mp isStep with ⟨index, _, rfl⟩
              exact ⟨trivial, trivial⟩
            · obtain rfl := List.mem_singleton.mp isSeal
              exact ⟨trivial, disciplined⟩
          · refine List.pairwise_append.mpr ⟨?_, by simp, ?_⟩
            · refine List.pairwise_map.mpr (List.pairwise_of_forall fun _ _ => ?_)
              simp [TransactionTask.Follows, TransactionTask.maySucceed]
            · intro earlier earlierMem later _
              rcases List.mem_map.mp earlierMem with ⟨index, _, rfl⟩
              simp [TransactionTask.Follows, TransactionTask.maySucceed]
      · cases stepped
  | call txnId call =>
      simp only [Step, SharedCatalog.step] at stepped
      split at stepped
      · cases stepped
      · rename_i session isSession
        split at stepped
        · cases stepped
          exact invariant.call isSession disciplined
        · cases stepped
  | transact txnId =>
      simp only [Step, SharedCatalog.step] at stepped
      split at stepped
      · cases stepped
      · rename_i session isSession
        split at stepped
        · cases stepped
        · rename_i task rest tasks
          cases stepped
          exact invariant.transact isSession tasks
  | startJob job =>
      simp only [Step, SharedCatalog.step] at stepped
      split at stepped
      · cases stepped
        exact invariant.setJob (by simp [JanitorTask.Sound])
      · cases stepped
  | clean job now =>
      simp only [Step, SharedCatalog.step] at stepped
      split at stepped
      · cases stepped
      · rename_i task rest tasks
        cases stepped
        exact invariant.clean timedOut tasks now

end Invariant

/--
In every run whose calls are disciplined, no file of a transaction with a success
log is deleted by the janitor, and the janitor fails no such transaction.
-/
theorem safe_run (timedOut : String → ℕ → Option Bool) {events : List JanitorEvent}
    {shared : SharedCatalog}
    (run : Run (Guarded Disciplined (Step timedOut)) initial events shared) : shared.Safe := by
  apply Invariant.safe
  apply run.invariant invariant_initial
  intro state event next invariant ⟨disciplined, stepped⟩
  exact invariant.step timedOut disciplined stepped

section Runs

/-- What is behind the underscore of an identifier is no number. -/
def noFloat : String → ℕ → Option Bool := fun _ _ => none

def sales : Metafile := { locator := ⟨[], .namespaceName "sales"⟩, uuid := some "sales-id" }

def missing : Metafile :=
  { locator := ⟨[], .namespaceName "missing"⟩, uuid := some "missing-id" }

def retrier : TransactionId := ⟨100, "6fa459ea-ee8a-4ca4-894e-db77e160355e", by decide⟩

def committer : TransactionId := ⟨101, "16fd2706-8baf-433b-82eb-8c7fada847da", by decide⟩

def times (count : ℕ) (event : JanitorEvent) : List JanitorEvent := List.replicate count event

/-- A transaction creates a namespace and fails; the janitor finds both of its logs. -/
def failsAndIsFound : List JanitorEvent :=
  List.flatten [[.start retrier false, .call retrier (.step (.create sales))],
    times 10 (.transact retrier), [.call retrier (.step (.delete missing))],
    times 5 (.transact retrier), [.startJob 0], times 15 (.clean 0 300)]

/-- The janitor deletes the files of the failed transaction while another one commits. -/
def cleansUp : List JanitorEvent :=
  List.flatten [failsAndIsFound, [.commit committer [.create missing] (some 200)],
    times 18 (.transact committer), times 2 (.clean 0 300)]

private theorem cleansUp_performed :
    (cleansUp.foldlM (guardedStep Disciplined (step noFloat)) initial).any (fun shared =>
      shared.deletions.length = 2 ∧ shared.catalog.success committer = some 200) := by
  decide +kernel

/-- A disciplined run in which the janitor deletes files and another transaction succeeds. -/
theorem safe_run_cleansUp :
    ∃ events shared, Run (Guarded Disciplined (Step noFloat)) initial events shared ∧
      shared.deletions.length = 2 ∧ shared.catalog.success committer = some 200 ∧ shared.Safe := by
  rcases (Option.any_eq_true _ _).mp cleansUp_performed with ⟨shared, performed, reached⟩
  have run : Run (Guarded Disciplined (Step noFloat)) initial cleansUp shared :=
    Run.of_foldlM_guardedStep performed
  have ⟨deletions, success⟩ := of_decide_eq_true reached
  exact ⟨cleansUp, shared, run, deletions, success, safe_run noFloat run⟩

/-- The transaction goes on and is sealed; only then does the janitor delete its files. -/
def retries : List JanitorEvent :=
  List.flatten [failsAndIsFound, times 3 (.transact retrier),
    [.call retrier (.step (.create sales))], times 10 (.transact retrier),
    [.call retrier (.sealTransaction (some 200))], times 10 (.transact retrier),
    [.clean 0 300]]

private theorem retries_performed :
    (retries.foldlM (step noFloat) initial).any (fun shared =>
      shared.deletions.map Prod.snd = [some 200]) := by
  decide +kernel

/-- The janitor deletes a file of a transaction that has a success log. -/
theorem not_safe_run :
    ¬∀ (events : List JanitorEvent) (shared : SharedCatalog),
      Run (Step noFloat) initial events shared →
        ∀ deletion ∈ shared.deletions, deletion.2 = none := by
  intro neverDeleted
  rcases (Option.any_eq_true _ _).mp retries_performed with ⟨shared, performed, reached⟩
  have run : Run (Step noFloat) initial retries shared := Run.of_foldlM_eq_some performed
  rcases List.map_eq_singleton_iff.mp (of_decide_eq_true reached) with
    ⟨deletion, deletions, wasLogged⟩
  have unlogged := neverDeleted retries shared run deletion (by simp [deletions])
  simp [wasLogged] at unlogged

end Runs

end SharedCatalog

end Deltacat.Compute
