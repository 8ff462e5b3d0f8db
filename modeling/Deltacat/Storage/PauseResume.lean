import Deltacat.Storage.Atomicity

/-!
# Pausing and resuming a transaction

`pause` moves the log of a transaction from the running to the paused
directory, and `resume` moves it back. The running log is written by the first
write step and deleted when a write step fails, and `pause` fails if there is no
such log. The round trip therefore works exactly for the transactions that are
not historic, have written, and have not failed (`roundTrip_iff`).
-/

namespace Deltacat.Storage

open Deltacat.Library

namespace ActiveTransaction

/-- A transaction with another pause time and other lists of logs. -/
def relogged (active : ActiveTransaction) (pauseTime : Option ℕ)
    (running paused : List TransactionId) : ActiveTransaction where
  transaction := { active.transaction with pauseTime := pauseTime }
  catalog := { active.catalog with running := running, paused := paused }

/-- Two states that differ in nothing but the pause time and the order of the logs. -/
def Alike (left right : ActiveTransaction) : Prop :=
  ∃ pauseTime running paused, right = left.relogged pauseTime running paused ∧
    (∀ id, id ∈ running ↔ id ∈ left.catalog.running) ∧
    ∀ id, id ∈ paused ↔ id ∈ left.catalog.paused

/-- The transaction is paused, resumed, and sealed as if nothing had happened. -/
structure RoundTrip (active : ActiveTransaction) (pauseTime resumeTime : ℕ) : Prop where
  pauses : (active.pause (some pauseTime)).2 = .ok ()
  onlyPaused : active.transaction.id ∈ (active.pause (some pauseTime)).1.catalog.paused ∧
    active.transaction.id ∉ (active.pause (some pauseTime)).1.catalog.running
  resumes : ((active.pause (some pauseTime)).1.resume (some resumeTime)).2 = .ok ()
  onlyRunning :
    active.transaction.id ∈
        ((active.pause (some pauseTime)).1.resume (some resumeTime)).1.catalog.running ∧
      active.transaction.id ∉
        ((active.pause (some pauseTime)).1.resume (some resumeTime)).1.catalog.paused
  operations :
    ((active.pause (some pauseTime)).1.resume (some resumeTime)).1.transaction.operations =
    active.transaction.operations
  id : ((active.pause (some pauseTime)).1.resume (some resumeTime)).1.transaction.id =
    active.transaction.id
  seals : ∀ now,
    (((active.pause (some pauseTime)).1.resume (some resumeTime)).1.sealTransaction now).2 =
        (active.sealTransaction now).2 ∧
      Alike (active.sealTransaction now).1
        (((active.pause (some pauseTime)).1.resume (some resumeTime)).1.sealTransaction now).1

section Seal

variable {active : ActiveTransaction} {pauseTime : Option ℕ} {running paused : List TransactionId}

theorem ensureRunningLog_relogged (active : ActiveTransaction) :
    ∃ logs, (active.relogged pauseTime running paused).ensureRunningLog =
        active.ensureRunningLog.relogged pauseTime logs paused ∧
      ((∀ id, id ∈ running ↔ id ∈ active.catalog.running) →
        ∀ id, id ∈ logs ↔ id ∈ active.ensureRunningLog.catalog.running) := by
  by_cases wasWritten : active.transaction.runningLogWritten
  · refine ⟨running, ?_, ?_⟩
    · simp [ensureRunningLog, relogged, wasWritten]
    · simp [ensureRunningLog, wasWritten]
  · refine ⟨List.insert active.transaction.id running, ?_, ?_⟩
    · simp [ensureRunningLog, relogged, wasWritten]
    · intro sameLogs id
      simp [ensureRunningLog, wasWritten, sameLogs]

theorem alike_relogged (sameRunning : ∀ id, id ∈ running ↔ id ∈ active.catalog.running)
    (samePaused : ∀ id, id ∈ paused ↔ id ∈ active.catalog.paused) :
    Alike active (active.relogged pauseTime running paused) :=
  ⟨pauseTime, running, paused, rfl, sameRunning, samePaused⟩

theorem failAndCleanup_relogged (deleteSuccessLog : Bool)
    (sameRunning : ∀ id, id ∈ running ↔ id ∈ active.catalog.running)
    (samePaused : ∀ id, id ∈ paused ↔ id ∈ active.catalog.paused) :
    Alike (active.failAndCleanup deleteSuccessLog)
      ((active.relogged pauseTime running paused).failAndCleanup deleteSuccessLog) := by
  refine ⟨pauseTime, running.filter (· ≠ active.transaction.id), paused, rfl, ?_, samePaused⟩
  intro id
  simp [failAndCleanup, Catalog.deleteFiles, sameRunning]

/-- The part of `_seal_steps` after the running log was written. -/
def finishSteps (active : ActiveTransaction) (endTime : ℕ) :
    ActiveTransaction ×
      Except Error (List (List (Option Metafile)) × List (RevisionPath RevisionDir)) :=
  let txnId := active.transaction.id
  match active.catalog.checkForConflicts active.transaction.writePaths with
  | .error error => (active.failAndCleanup false, .error error)
  | .ok () =>
      let active : ActiveTransaction :=
        { active with
          catalog :=
            { active.catalog with
              success := Function.update active.catalog.success txnId (some endTime) } }
      if endTime < txnId.startTime then (active.failAndCleanup true, .error .runtimeError)
      else if txnId ∈ active.catalog.running then
        ({ active with
          catalog :=
            { active.catalog with
              running := active.catalog.running.filter (· ≠ txnId) } },
          .ok (active.transaction.listResults, active.transaction.metafileWritePaths))
      else (active, .error .fileNotFoundError)

/-- The transaction with an end time. -/
def endedAt (active : ActiveTransaction) (endTime : ℕ) : ActiveTransaction :=
  { active with transaction := { active.transaction with endTime := some endTime } }

theorem sealSteps_eq (endTime : ℕ)
    (canEnd : ¬(active.transaction.id.startTime = 0 ∨ active.transaction.hasEnded)) :
    active.sealSteps (some endTime) =
      if active.transaction.operations.all (!·.isWrite) then
        (active.endedAt endTime, .ok (active.transaction.listResults, []))
      else finishSteps (active.endedAt endTime).ensureRunningLog endTime :=
  if_neg canEnd

/-- A success log for the transaction. -/
def succeededAt (active : ActiveTransaction) (endTime : ℕ) : ActiveTransaction :=
  { active with
    catalog :=
      { active.catalog with
        success := Function.update active.catalog.success active.transaction.id (some endTime) } }

theorem finishSteps_relogged (endTime : ℕ)
    (sameRunning : ∀ id, id ∈ running ↔ id ∈ active.catalog.running)
    (samePaused : ∀ id, id ∈ paused ↔ id ∈ active.catalog.paused) :
    (finishSteps (active.relogged pauseTime running paused) endTime).2 =
        (finishSteps active endTime).2 ∧
      Alike (finishSteps active endTime).1
        (finishSteps (active.relogged pauseTime running paused) endTime).1 := by
  have sameCheck : (active.relogged pauseTime running paused).catalog.checkForConflicts
      (active.relogged pauseTime running paused).transaction.writePaths =
        active.catalog.checkForConflicts active.transaction.writePaths := rfl
  have sameId : (active.relogged pauseTime running paused).transaction.id =
      active.transaction.id := rfl
  unfold finishSteps
  rw [sameCheck]
  cases active.catalog.checkForConflicts active.transaction.writePaths with
  | error error => exact ⟨rfl, failAndCleanup_relogged false sameRunning samePaused⟩
  | ok =>
      simp only [sameId]
      by_cases isEarlier : endTime < active.transaction.id.startTime
      · simp only [isEarlier, if_true, true_and]
        have cleaned : Alike ((active.succeededAt endTime).failAndCleanup true)
            (((active.succeededAt endTime).relogged pauseTime running paused).failAndCleanup
              true) := failAndCleanup_relogged true sameRunning samePaused
        exact cleaned
      · by_cases isRunning : active.transaction.id ∈ active.catalog.running
        · have stillRunning := (sameRunning active.transaction.id).mpr isRunning
          simp only [isEarlier, if_false, isRunning, if_true, relogged, stillRunning, true_and]
          refine ⟨pauseTime, running.filter (· ≠ active.transaction.id), paused, rfl, ?_,
            samePaused⟩
          intro id
          simp [sameRunning]
        · have notRunning := (not_congr (sameRunning active.transaction.id)).mpr isRunning
          simp only [isEarlier, if_false, isRunning, relogged, notRunning, true_and]
          exact ⟨pauseTime, running, paused, rfl, sameRunning, samePaused⟩

/-- Sealing depends on nothing that differs. -/
theorem sealSteps_relogged (now : Option ℕ)
    (sameRunning : ∀ id, id ∈ running ↔ id ∈ active.catalog.running)
    (samePaused : ∀ id, id ∈ paused ↔ id ∈ active.catalog.paused) :
    ((active.relogged pauseTime running paused).sealSteps now).2 = (active.sealSteps now).2 ∧
      Alike (active.sealSteps now).1
        ((active.relogged pauseTime running paused).sealSteps now).1 := by
  by_cases cannotEnd : active.transaction.id.startTime = 0 ∨ active.transaction.hasEnded
  · have left : active.sealSteps now = (active, .error .runtimeError) := if_pos cannotEnd
    have right : (active.relogged pauseTime running paused).sealSteps now =
        (active.relogged pauseTime running paused, .error .runtimeError) := if_pos cannotEnd
    rw [left, right]
    exact ⟨rfl, alike_relogged sameRunning samePaused⟩
  cases now with
  | none =>
      have left : active.sealSteps none = (active, .error .timeoutError) := if_neg cannotEnd
      have right : (active.relogged pauseTime running paused).sealSteps none =
          (active.relogged pauseTime running paused, .error .timeoutError) := if_neg cannotEnd
      rw [left, right]
      exact ⟨rfl, alike_relogged sameRunning samePaused⟩
  | some endTime =>
      have isSealed := sealSteps_eq endTime cannotEnd
      have right : (active.relogged pauseTime running paused).sealSteps (some endTime) =
          if active.transaction.operations.all (!·.isWrite) then
            ((active.endedAt endTime).relogged pauseTime running paused,
              .ok (active.transaction.listResults, []))
          else finishSteps ((active.endedAt endTime).relogged pauseTime running
            paused).ensureRunningLog endTime := if_neg cannotEnd
      rw [isSealed, right]
      split
      · exact ⟨rfl, alike_relogged sameRunning samePaused⟩
      · rcases ensureRunningLog_relogged (active.endedAt endTime) with ⟨logs, isLogged, sameLogs⟩
        rw [isLogged]
        apply finishSteps_relogged endTime (sameLogs sameRunning)
        intro id
        rw [samePaused]
        unfold ensureRunningLog
        split <;> rfl

theorem sealTransaction_relogged (now : Option ℕ)
    (sameRunning : ∀ id, id ∈ running ↔ id ∈ active.catalog.running)
    (samePaused : ∀ id, id ∈ paused ↔ id ∈ active.catalog.paused) :
    ((active.relogged pauseTime running paused).sealTransaction now).2 =
        (active.sealTransaction now).2 ∧
      Alike (active.sealTransaction now).1
        ((active.relogged pauseTime running paused).sealTransaction now).1 := by
  have right : (active.relogged pauseTime running paused).sealTransaction now =
      if ¬active.transaction.interactive then
        (active.relogged pauseTime running paused, .error .runtimeError)
      else if active.transaction.isHistoric ∧ active.transaction.operations.any (·.isWrite) then
        (active.relogged pauseTime running paused, .error .runtimeError)
      else (active.relogged pauseTime running paused).sealSteps now := rfl
  rw [right]
  unfold sealTransaction
  split
  · exact ⟨rfl, alike_relogged sameRunning samePaused⟩
  · split
    · exact ⟨rfl, alike_relogged sameRunning samePaused⟩
    · exact sealSteps_relogged now sameRunning samePaused

end Seal

section RoundTrip

variable {active : ActiveTransaction} {pauseTime resumeTime : ℕ}

/-- The state that `pause` leaves. -/
theorem pause_eq (pauseTime : ℕ) (isStarted : active.transaction.id.startTime ≠ 0)
    (notEnded : active.transaction.hasEnded = false) :
    active.pause (some pauseTime) =
      if active.transaction.id ∈ active.catalog.running then
        (active.relogged (some pauseTime)
          (active.catalog.running.filter (· ≠ active.transaction.id))
          (List.insert active.transaction.id active.catalog.paused), .ok ())
      else (active.relogged (some pauseTime) active.catalog.running
        (List.insert active.transaction.id active.catalog.paused), .error .fileNotFoundError) := by
  have canPause : ¬(active.transaction.id.startTime = 0 ∨ active.transaction.hasEnded) := by
    simp [isStarted, notEnded]
  exact if_neg canPause

/-- The state that `resume` leaves. -/
theorem resume_eq (running : List TransactionId) {paused : List TransactionId}
    (inOrder : pauseTime ≤ resumeTime)
    (isPaused : active.transaction.id ∈ paused) :
    (active.relogged (some pauseTime) running paused).resume (some resumeTime) =
      if active.transaction.isHistoric then
        (active.relogged (some pauseTime) running paused, .error .valueError)
      else (active.relogged (some pauseTime) (List.insert active.transaction.id running)
        (paused.filter (· ≠ active.transaction.id)), .ok ()) := by
  have isThere : ¬active.transaction.id ∉ paused := not_not.mpr isPaused
  have isLater : ¬resumeTime < pauseTime := not_lt.mpr inOrder
  unfold resume
  simp only [relogged, isThere, if_false, isLater]
  rfl

/-- The round trip of a transaction that has neither ended nor been paused. -/
theorem roundTrip_of_state (isStarted : active.transaction.id.startTime ≠ 0)
    (notEnded : active.transaction.hasEnded = false)
    (notPaused : active.transaction.id ∉ active.catalog.paused)
    (inOrder : pauseTime ≤ resumeTime) :
    RoundTrip active pauseTime resumeTime ↔
      active.transaction.isHistoric = false ∧
        active.transaction.id ∈ active.catalog.running := by
  have isPause := pause_eq pauseTime isStarted notEnded
  have isPaused : active.transaction.id ∈
      List.insert active.transaction.id active.catalog.paused := List.mem_insert_self
  constructor
  · intro roundTrip
    have pauses := roundTrip.pauses
    by_cases isRunning : active.transaction.id ∈ active.catalog.running
    · refine ⟨?_, isRunning⟩
      rw [if_pos isRunning] at isPause
      have resumes := roundTrip.resumes
      rw [isPause, resume_eq _ inOrder isPaused] at resumes
      by_contra isHistoric
      rw [if_pos (by simpa using isHistoric)] at resumes
      cases resumes
    · rw [isPause, if_neg isRunning] at pauses
      cases pauses
  · rintro ⟨notHistoric, isRunning⟩
    rw [if_pos isRunning] at isPause
    have isResume := resume_eq (active.catalog.running.filter (· ≠ active.transaction.id)) inOrder
      isPaused
    rw [notHistoric, if_neg (by simp)] at isResume
    have sameRunning : ∀ id, id ∈ List.insert active.transaction.id
        (active.catalog.running.filter (· ≠ active.transaction.id)) ↔
          id ∈ active.catalog.running := by
      intro id
      by_cases isOwn : id = active.transaction.id
      · simp [isOwn, isRunning]
      · simp [isOwn]
    have samePaused : ∀ id, id ∈ (List.insert active.transaction.id
        active.catalog.paused).filter (· ≠ active.transaction.id) ↔
          id ∈ active.catalog.paused := by
      intro id
      by_cases isOwn : id = active.transaction.id
      · simp [isOwn, notPaused]
      · simp [isOwn]
    constructor
    · rw [isPause]
    · rw [isPause]
      exact ⟨isPaused, by simp [relogged]⟩
    · rw [isPause, isResume]
    · rw [isPause, isResume]
      exact ⟨List.mem_insert_self, by simp [relogged]⟩
    · rw [isPause, isResume]
      rfl
    · rw [isPause, isResume]
      rfl
    · rw [isPause, isResume]
      intro now
      exact sealTransaction_relogged now sameRunning samePaused

end RoundTrip

end ActiveTransaction

/-- A step of a transaction, or a change that other transactions make in between. -/
inductive StepEvent
  | step (operation : TransactionOperation)
  | others (catalog : Catalog)

/-- A transaction and, for each of its write steps, whether it returned. -/
structure SteppedTransaction where
  active : ActiveTransaction
  writes : List Bool

namespace SteppedTransaction

/-- A step that returns or raises an exception. Others leave the logs of the transaction alone. -/
def Step (stepped : SteppedTransaction) (event : StepEvent) (next : SteppedTransaction) : Prop :=
  match event with
  | .step operation =>
      next.active = (stepped.active.step operation).1 ∧
        next.writes = if operation.isWrite then
          stepped.writes ++ [(stepped.active.step operation).2.isOk] else stepped.writes
  | .others catalog =>
      (stepped.active.transaction.id ∈ catalog.running ↔
        stepped.active.transaction.id ∈ stepped.active.catalog.running) ∧
      (stepped.active.transaction.id ∈ catalog.paused ↔
        stepped.active.transaction.id ∈ stepped.active.catalog.paused) ∧
      next = ⟨{ stepped.active with catalog := catalog }, stepped.writes⟩

/-- The invariant of a run of steps. -/
structure Invariant (txnId : TransactionId) (isHistoric : Bool) (stepped : SteppedTransaction) :
    Prop where
  isId : stepped.active.transaction.id = txnId
  historic : stepped.active.transaction.isHistoric = isHistoric
  notEnded : stepped.active.transaction.hasEnded = false
  notPaused : txnId ∉ stepped.active.catalog.paused
  notHistoricLog : isHistoric → txnId ∉ stepped.active.catalog.running
  logWritten : isHistoric = false →
    (stepped.active.transaction.runningLogWritten ↔ stepped.writes ≠ [])
  isRunning : isHistoric = false →
    (txnId ∈ stepped.active.catalog.running ↔ stepped.writes ≠ [] ∧ false ∉ stepped.writes)

end SteppedTransaction

namespace Catalog

theorem writeRevisions_paused {txnId : TransactionId} (writes : List RevisionWrite)
    (catalog : Catalog) : (writeRevisions txnId writes catalog).1.paused = catalog.paused := by
  induction writes generalizing catalog with
  | nil => rfl
  | cons write writes ih =>
      unfold writeRevisions
      split
      case h_1 file _ => exact ih (catalog.addFile file)
      case h_2 =>
        split
        · exact ih catalog
        · rfl

theorem writeTxn_paused (catalog : Catalog) (txnId : TransactionId)
    (operation : TransactionOperation) :
    (catalog.writeTxn txnId operation).1.paused = catalog.paused := by
  unfold writeTxn
  split
  · rfl
  · apply writeRevisions_paused

end Catalog

namespace ActiveTransaction

variable {active next : ActiveTransaction}

/-- What steps leave as it is. -/
structure SameHeader (active next : ActiveTransaction) : Prop where
  id : next.transaction.id = active.transaction.id
  historic : next.transaction.isHistoric = active.transaction.isHistoric
  ended : next.transaction.hasEnded = active.transaction.hasEnded
  paused : next.catalog.paused = active.catalog.paused

theorem SameHeader.trans {last : ActiveTransaction} (first : SameHeader active next)
    (second : SameHeader next last) : SameHeader active last :=
  ⟨second.id.trans first.id, second.historic.trans first.historic, second.ended.trans first.ended,
    second.paused.trans first.paused⟩

theorem sameHeader_listed (active : ActiveTransaction) (operation : TransactionOperation) :
    SameHeader active (active.listed operation) := by
  unfold listed
  split <;> exact ⟨rfl, rfl, rfl, rfl⟩

theorem sameHeader_ensureRunningLog : SameHeader active active.ensureRunningLog := by
  unfold ensureRunningLog
  split <;> exact ⟨rfl, rfl, rfl, rfl⟩

theorem listed_log (active : ActiveTransaction) (operation : TransactionOperation) :
    (active.listed operation).transaction.runningLogWritten =
      active.transaction.runningLogWritten := by
  unfold listed
  split <;> rfl

theorem sameHeader_readStep (active : ActiveTransaction) (operation : TransactionOperation) :
    SameHeader active (active.readStep operation).1 := by
  unfold readStep
  split <;> exact ⟨rfl, rfl, rfl, rfl⟩

/-- After a write step, there is a running log if and only if all write steps so far returned. -/
theorem writeStep_logs (active : ActiveTransaction) (operation : TransactionOperation) :
    SameHeader active (active.writeStep operation).1 ∧
      (active.writeStep operation).1.transaction.runningLogWritten = true ∧
      (active.transaction.id ∈ (active.writeStep operation).1.catalog.running ↔
        (active.writeStep operation).2.isOk ∧ (active.transaction.runningLogWritten →
          active.transaction.id ∈ active.catalog.running)) := by
  have header : SameHeader active active.ensureRunningLog := sameHeader_ensureRunningLog
  have isWritten : active.ensureRunningLog.transaction.runningLogWritten = true := by
    unfold ensureRunningLog
    split
    case isTrue wasWritten => exact wasWritten
    case isFalse => rfl
  have isRunning : active.transaction.id ∈ active.ensureRunningLog.catalog.running ↔
      (active.transaction.runningLogWritten →
        active.transaction.id ∈ active.catalog.running) := by
    unfold ensureRunningLog
    split
    case isTrue wasWritten => simp [wasWritten]
    case isFalse notWritten => simp [notWritten]
  have grows := Catalog.writeTxn_grows active.ensureRunningLog.catalog
    active.ensureRunningLog.transaction.id operation
  have paused := Catalog.writeTxn_paused active.ensureRunningLog.catalog
    active.ensureRunningLog.transaction.id operation
  unfold writeStep
  simp only
  split
  · refine ⟨⟨header.id, header.historic, header.ended, paused.trans header.paused⟩, isWritten, ?_⟩
    rw [grows.running, isRunning]
    simp [Except.isOk, Except.toBool]
  · refine ⟨⟨header.id, header.historic, header.ended, paused.trans header.paused⟩, isWritten, ?_⟩
    have isId : ∀ paths, (active.ensureRunningLog.transaction.record paths).id =
        active.transaction.id := fun _ => header.id
    simp [failAndCleanup, isId, Except.isOk, Except.toBool]

section Step

variable {operation : TransactionOperation}

theorem step_historic (isHistoric : active.transaction.isHistoric = true)
    (isWrite : operation.isWrite) : active.step operation = (active, .error .runtimeError) :=
  if_pos ⟨isHistoric, isWrite⟩

theorem step_write (notHistoric : active.transaction.isHistoric = false)
    (isWrite : operation.isWrite) :
    active.step operation = (((active.listed operation).writeStep operation).1,
      ((active.listed operation).writeStep operation).2.map .written) := by
  simp [step, notHistoric, isWrite]

theorem step_read (isRead : ¬operation.isWrite) :
    active.step operation = (((active.listed operation).readStep operation).1,
      ((active.listed operation).readStep operation).2.map .listed) := by
  simp [step, isRead]

end Step

end ActiveTransaction

namespace SteppedTransaction

variable {txnId : TransactionId} {isHistoric : Bool} {stepped next : SteppedTransaction}

theorem Invariant.start {catalog : Catalog} (notRunning : txnId ∉ catalog.running)
    (notPaused : txnId ∉ catalog.paused) :
    Invariant txnId isHistoric ⟨⟨Transaction.start txnId isHistoric [], catalog⟩, []⟩ where
  isId := rfl
  historic := rfl
  notEnded := rfl
  notPaused := notPaused
  notHistoricLog := fun _ => notRunning
  logWritten := fun _ => by simp [Transaction.start]
  isRunning := fun _ => by simp [notRunning]

/-- A step that writes nothing leaves the logs as they are. -/
theorem Invariant.frame (invariant : Invariant txnId isHistoric stepped)
    (header : ActiveTransaction.SameHeader stepped.active next.active)
    (sameLog : next.active.transaction.runningLogWritten =
      stepped.active.transaction.runningLogWritten)
    (sameRunning : next.active.catalog.running = stepped.active.catalog.running)
    (sameWrites : isHistoric = false → next.writes = stepped.writes) :
    Invariant txnId isHistoric next := by
  constructor
  · exact header.id.trans invariant.isId
  · exact header.historic.trans invariant.historic
  · exact header.ended.trans invariant.notEnded
  · rw [header.paused]
    exact invariant.notPaused
  · rw [sameRunning]
    exact invariant.notHistoricLog
  · intro notHistoric
    rw [sameLog, sameWrites notHistoric]
    exact invariant.logWritten notHistoric
  · intro notHistoric
    rw [sameRunning, sameWrites notHistoric]
    exact invariant.isRunning notHistoric

theorem Invariant.step (invariant : Invariant txnId isHistoric stepped)
    {operation : TransactionOperation} (isStep : stepped.Step (.step operation) next) :
    Invariant txnId isHistoric next := by
  rcases isStep with ⟨isNext, isWrites⟩
  have listed := ActiveTransaction.sameHeader_listed stepped.active operation
  have listedLog := ActiveTransaction.listed_log stepped.active operation
  have listedCatalog := stepped.active.listed_catalog operation
  by_cases isWrite : operation.isWrite
  · rw [if_pos isWrite] at isWrites
    cases isHistoric with
    | true =>
        -- A historic transaction does not write, and the exception comes first.
        rw [ActiveTransaction.step_historic invariant.historic isWrite] at isNext
        apply invariant.frame
        · rw [isNext]
          exact ⟨rfl, rfl, rfl, rfl⟩
        · rw [isNext]
        · rw [isNext]
        · intro notHistoric
          cases notHistoric
    | false =>
        rw [ActiveTransaction.step_write invariant.historic isWrite] at isNext isWrites
        rcases (stepped.active.listed operation).writeStep_logs operation with
          ⟨written, isWritten, isRunning⟩
        have header := listed.trans written
        rw [← isNext] at header isWritten isRunning
        rw [listed.id, invariant.isId, listedLog, listedCatalog,
          invariant.logWritten rfl, invariant.isRunning rfl] at isRunning
        constructor
        · exact header.id.trans invariant.isId
        · exact header.historic.trans invariant.historic
        · exact header.ended.trans invariant.notEnded
        · rw [header.paused]
          exact invariant.notPaused
        · intro historic
          cases historic
        · intro _
          simp [isWritten, isWrites]
        · intro _
          rw [isRunning, isWrites]
          have isOk : ((((stepped.active.listed operation).writeStep operation).2.map
              ActiveTransaction.StepResult.written).isOk : Bool) =
                ((stepped.active.listed operation).writeStep operation).2.isOk := by
            cases ((stepped.active.listed operation).writeStep operation).2 <;> rfl
          rw [isOk]
          cases ((stepped.active.listed operation).writeStep operation).2.isOk <;>
            by_cases noWrites : stepped.writes = [] <;> simp [noWrites]
  · rw [if_neg isWrite] at isWrites
    rw [ActiveTransaction.step_read isWrite] at isNext
    have header := listed.trans
      (ActiveTransaction.sameHeader_readStep (stepped.active.listed operation) operation)
    have frame := (stepped.active.listed operation).readStep_frame operation
    rw [← isNext] at header frame
    apply invariant.frame header
    · exact frame.2.2.2.2.trans listedLog
    · rw [frame.1, listedCatalog]
    · exact fun _ => isWrites

theorem Invariant.others (invariant : Invariant txnId isHistoric stepped) {catalog : Catalog}
    (isStep : stepped.Step (.others catalog) next) : Invariant txnId isHistoric next := by
  rcases isStep with ⟨sameRunning, samePaused, rfl⟩
  rw [invariant.isId] at sameRunning samePaused
  constructor
  · exact invariant.isId
  · exact invariant.historic
  · exact invariant.notEnded
  · exact (not_congr samePaused).mpr invariant.notPaused
  · exact fun historic => (not_congr sameRunning).mpr (invariant.notHistoricLog historic)
  · exact invariant.logWritten
  · exact fun notHistoric => sameRunning.trans (invariant.isRunning notHistoric)

/--
A started transaction can be paused and resumed if and only if it is not historic
and has performed at least one write step, all of which returned.
-/
theorem roundTrip_iff {catalog : Catalog} (isStarted : txnId.startTime ≠ 0)
    (notRunning : txnId ∉ catalog.running) (notPaused : txnId ∉ catalog.paused)
    {events : List StepEvent}
    (run : Run Step ⟨⟨Transaction.start txnId isHistoric [], catalog⟩, []⟩ events stepped)
    {pauseTime resumeTime : ℕ} (inOrder : pauseTime ≤ resumeTime) :
    stepped.active.RoundTrip pauseTime resumeTime ↔
      isHistoric = false ∧ stepped.writes ≠ [] ∧ false ∉ stepped.writes := by
  have invariant : Invariant txnId isHistoric stepped := by
    apply run.invariant (Invariant.start notRunning notPaused)
    intro before event after beforeInvariant isStep
    cases event with
    | step operation => exact beforeInvariant.step isStep
    | others catalog => exact beforeInvariant.others isStep
  rw [ActiveTransaction.roundTrip_of_state (by rw [invariant.isId]; exact isStarted)
    invariant.notEnded (by rw [invariant.isId]; exact invariant.notPaused) inOrder,
    invariant.historic, invariant.isId]
  cases isHistoric with
  | true => simp
  | false => rw [invariant.isRunning rfl]

section Examples

def pausedId : TransactionId := .numbered 5 0

/-- Creating a namespace in an empty catalog. -/
def creates : TransactionOperation :=
  .create { locator := ⟨[], .namespaceName "sales"⟩, uuid := some "n1" }

/-- A transaction that has written survives a pause. -/
theorem roundTrip_iff_written :
    ∃ stepped, Run Step ⟨⟨Transaction.start pausedId false [], Catalog.empty⟩, []⟩
        [.step creates] stepped ∧ stepped.active.RoundTrip 10 20 := by
  have isOk : (ActiveTransaction.step ⟨Transaction.start pausedId false [], Catalog.empty⟩
      creates).2.isOk = true := by decide +kernel
  have step : Step ⟨⟨Transaction.start pausedId false [], Catalog.empty⟩, []⟩ (.step creates)
      ⟨(ActiveTransaction.step ⟨Transaction.start pausedId false [], Catalog.empty⟩ creates).1,
        [true]⟩ := ⟨rfl, by rw [isOk]; rfl⟩
  have run := Run.nil.snoc step
  exact ⟨_, run, (roundTrip_iff (by decide) (by simp [Catalog.empty]) (by simp [Catalog.empty]) run
    (by decide)).mpr (by decide)⟩

/-- A transaction that has not written anything cannot be paused. -/
theorem not_roundTrip_unwritten :
    Run Step ⟨⟨Transaction.start pausedId false [], Catalog.empty⟩, []⟩ []
        ⟨⟨Transaction.start pausedId false [], Catalog.empty⟩, []⟩ ∧
      ¬ActiveTransaction.RoundTrip ⟨Transaction.start pausedId false [], Catalog.empty⟩ 10 20 := by
  refine ⟨Run.nil, ?_⟩
  intro roundTrip
  have raises : (ActiveTransaction.pause ⟨Transaction.start pausedId false [], Catalog.empty⟩
      (some 10)).2 = .error .fileNotFoundError := by decide +kernel
  exact absurd (raises.symm.trans roundTrip.pauses) (by simp)

end Examples

end SteppedTransaction

end Deltacat.Storage
