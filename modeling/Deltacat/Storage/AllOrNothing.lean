import Deltacat.Library.Stepwise
import Deltacat.Storage.PauseResume
import Deltacat.Storage.ProcedureSpec

/-!
# Procedures inside a caller's transaction

A caller may pass its own transaction to a storage procedure, handle an exception
of the procedure, and seal the transaction nevertheless. The procedure is all or
nothing if an exception that comes from one of its own checks leaves no write
operation behind (`AllOrNothing`). That is so if its checks come before its first
write operation (`AllOrNothing.of_checksFirst`): a caller can tell an exception of
a step from the procedure's own, since an interactive transaction lists the
operation that failed.
-/

namespace Deltacat

/-- The exceptions for failed validations and for concurrent modifications. -/
def Error.isCheck : Error → Bool
  | .valueError | .notImplementedError | .concurrentModificationError | .tableValidationError
  | .schemaCompatibilityError | .schemaValidationError | .namespaceNotFoundError
  | .tableNotFoundError | .tableAlreadyExistsError | .tableVersionNotFoundError
  | .tableVersionAlreadyExistsError | .streamNotFoundError | .streamAlreadyExistsError
  | .partitionNotFoundError | .partitionAlreadyExistsError | .deltaAlreadyExistsError => true
  | _ => false

end Deltacat

namespace Deltacat.Storage

open Deltacat.Library Procedure

namespace ActiveTransaction

/-- The write operations of a transaction. -/
def writeOperations (active : ActiveTransaction) : List TransactionOperation :=
  active.transaction.operations.filter (·.isWrite)

/-- Some operations were performed one after another, and none of them failed. -/
def Reaches (active final : ActiveTransaction) : Prop :=
  ∃ operations, Run (StepSucceeds step) active operations final

end ActiveTransaction

/--
If a call raises one of its own exceptions, then the transaction has no new
write operation, and sealing it commits what was written before the call.
-/
def AllOrNothing {Value : Type} (call : TransactionM Value) (active : ActiveTransaction) : Prop :=
  ∀ error final, call active = .error error final → error.isCheck → active.Reaches final →
    final.writeOperations = active.writeOperations ∧
      ∀ now, (final.sealTransaction now).1.catalog = (active.sealTransaction now).1.catalog

namespace ActiveTransaction

section Step

variable {active next : ActiveTransaction} {operation : TransactionOperation}

/-- What kind of transaction it is, and which operations it lists. -/
def ledger (active : ActiveTransaction) : (Bool × Bool) × List TransactionOperation :=
  ((active.transaction.interactive, active.transaction.isHistoric), active.transaction.operations)

theorem writeStep_ledger (active : ActiveTransaction) (operation : TransactionOperation) :
    (active.writeStep operation).1.ledger = active.ledger := by
  have logged : active.ensureRunningLog.ledger = active.ledger := by
    unfold ensureRunningLog
    split <;> rfl
  unfold writeStep
  simp only
  split <;> exact logged

theorem readStep_ledger (active : ActiveTransaction) (operation : TransactionOperation) :
    (active.readStep operation).1.ledger = active.ledger := by
  unfold readStep
  split <;> rfl

/-- A historic transaction refuses to write; otherwise the operation is listed and performed. -/
theorem step_ledger (isInteractive : active.transaction.interactive = true)
    (admitted : ¬(active.transaction.isHistoric ∧ operation.isWrite)) :
    (active.step operation).1.ledger =
      (active.ledger.1, active.transaction.operations ++ [operation]) := by
  have listedLedger : (active.listed operation).ledger =
      (active.ledger.1, active.transaction.operations ++ [operation]) := by
    simp [listed, isInteractive, ledger]
  unfold step
  rw [if_neg admitted]
  simp only
  split
  · exact (writeStep_ledger _ _).trans listedLedger
  · exact (readStep_ledger _ _).trans listedLedger

/-- A step that succeeds was not refused. -/
theorem admitted_of_ok {response : StepResult}
    (succeeds : (active.step operation).2 = .ok response) :
    ¬(active.transaction.isHistoric ∧ operation.isWrite) := by
  intro isRefused
  unfold step at succeeds
  rw [if_pos isRefused] at succeeds
  cases succeeds

theorem step_read_written (isRead : operation.isWrite = false) :
    (active.step operation).1.written = active.written := by
  unfold step
  simp only [isRead, Bool.false_eq_true, and_false, if_false]
  rw [readStep_written, listed_written]

/-- The transaction with other operations and other results of reads. -/
def withReads (active : ActiveTransaction) (operations : List TransactionOperation)
    (listResults : List (List (Option Metafile))) : ActiveTransaction :=
  { active with
    transaction :=
      { active.transaction with operations := operations, listResults := listResults } }

theorem eq_withReads (same : next.written = active.written) :
    next = active.withReads next.transaction.operations next.transaction.listResults := by
  have sameCatalog : next.catalog = active.catalog := congrArg Prod.fst same
  have sameTransaction := congrArg Prod.snd same
  rcases next with ⟨⟨⟩, catalog⟩
  simp only [written, Transaction.mk.injEq] at sameTransaction
  simp only at sameCatalog
  simp [withReads, sameCatalog, sameTransaction]

section WithReads

variable {operations : List TransactionOperation} {listResults : List (List (Option Metafile))}

theorem ensureRunningLog_withReads : (active.withReads operations listResults).ensureRunningLog =
    active.ensureRunningLog.withReads operations listResults := by
  unfold ensureRunningLog withReads
  simp only
  split <;> rfl

theorem listed_withReads : ∃ listedOperations,
    (active.withReads operations listResults).listed operation =
      (active.listed operation).withReads listedOperations listResults := by
  unfold listed withReads
  simp only
  split
  · exact ⟨operations ++ [operation], rfl⟩
  · exact ⟨operations, rfl⟩

theorem writeStep_withReads : ((active.withReads operations listResults).writeStep operation).2 =
    (active.writeStep operation).2 := by
  unfold writeStep
  rw [ensureRunningLog_withReads]
  simp only [withReads]
  split <;> rfl

/-- What a write step returns does not depend on what was read before. -/
theorem step_write_congr (same : next.written = active.written) (isWrite : operation.isWrite) :
    (next.step operation).2 = (active.step operation).2 := by
  rw [eq_withReads same]
  cases isHistoric : active.transaction.isHistoric with
  | true =>
      rw [@step_historic (active.withReads next.transaction.operations
        next.transaction.listResults) operation isHistoric isWrite,
        step_historic isHistoric isWrite]
  | false =>
      rcases @listed_withReads active operation next.transaction.operations
        next.transaction.listResults with ⟨listedOperations, isListed⟩
      rw [@step_write (active.withReads next.transaction.operations
        next.transaction.listResults) operation isHistoric isWrite,
        step_write isHistoric isWrite, isListed, writeStep_withReads]

theorem finishSteps_withReads (endTime : ℕ) :
    (finishSteps (active.withReads operations listResults) endTime).1.catalog =
      (finishSteps active endTime).1.catalog := by
  have samePaths : (active.withReads operations listResults).transaction.writePaths =
    active.transaction.writePaths := rfl
  have sameCatalog : (active.withReads operations listResults).catalog = active.catalog := rfl
  have sameId : (active.withReads operations listResults).transaction.id =
    active.transaction.id := rfl
  unfold finishSteps
  rw [samePaths, sameCatalog, sameId]
  split
  · rfl
  · simp only
    split
    · rfl
    · split <;> rfl

theorem sealSteps_withReads (sameWrites : operations.all (!·.isWrite) =
    active.transaction.operations.all (!·.isWrite)) (now : Option ℕ) :
    ((active.withReads operations listResults).sealSteps now).1.catalog =
      (active.sealSteps now).1.catalog := by
  by_cases canEnd : active.transaction.id.startTime = 0 ∨ active.transaction.hasEnded
  · have ends : active.sealSteps now = (active, .error .runtimeError) := if_pos canEnd
    have endsToo : (active.withReads operations listResults).sealSteps now =
      (active.withReads operations listResults, .error .runtimeError) := if_pos canEnd
    rw [ends, endsToo]
    rfl
  · cases now with
    | none =>
        have waits : active.sealSteps none = (active, .error .timeoutError) := if_neg canEnd
        have waitsToo : (active.withReads operations listResults).sealSteps none =
          (active.withReads operations listResults, .error .timeoutError) := if_neg canEnd
        rw [waits, waitsToo]
        rfl
    | some endTime =>
        have isEnded : (active.withReads operations listResults).endedAt endTime =
          (active.endedAt endTime).withReads operations listResults := rfl
        have isListed : (active.withReads operations listResults).transaction.operations =
          operations := rfl
        rw [sealSteps_eq endTime canEnd, @sealSteps_eq (active.withReads operations listResults)
          endTime canEnd, isListed, sameWrites, isEnded, ensureRunningLog_withReads]
        split
        · rfl
        · exact finishSteps_withReads endTime

end WithReads

/-- What sealing leaves in the catalog depends on the write operations alone. -/
theorem sealTransaction_congr (same : next.written = active.written)
    (sameWrites : next.writeOperations = active.writeOperations) (now : Option ℕ) :
    (next.sealTransaction now).1.catalog = (active.sealTransaction now).1.catalog := by
  have isAny : ∀ operations : List TransactionOperation, operations.any (·.isWrite) =
      (operations.filter (·.isWrite)).any fun _ => true := by
    intro operations
    simp [List.any_filter]
  have sameAny : next.transaction.operations.any (·.isWrite) =
      active.transaction.operations.any (·.isWrite) := by
    rw [isAny, isAny active.transaction.operations]
    exact congrArg (fun operations => operations.any fun _ => true) sameWrites
  have sameAll : next.transaction.operations.all (!·.isWrite) =
      active.transaction.operations.all (!·.isWrite) := by
    rw [← List.not_any_eq_all_not, ← List.not_any_eq_all_not, sameAny]
  have sealsAlike := @sealSteps_withReads active next.transaction.operations
    next.transaction.listResults sameAll now
  rw [← eq_withReads same] at sealsAlike
  have sameInteractive : next.transaction.interactive = active.transaction.interactive :=
    congrArg (fun state : Catalog × Transaction => state.2.interactive) same
  have sameHistoric : next.transaction.isHistoric = active.transaction.isHistoric :=
    congrArg (fun state : Catalog × Transaction => state.2.isHistoric) same
  unfold sealTransaction
  rw [sameInteractive, sameHistoric, sameAny]
  split
  · exact catalog_of_written same
  · split
    · exact catalog_of_written same
    · exact sealsAlike

end Step

section Run

variable {active final : ActiveTransaction} {operations : List TransactionOperation}

theorem step_of_stepSucceeds {operation : TransactionOperation}
    (succeeds : StepSucceeds step active operation final) :
    (active.step operation).1 = final ∧
      ¬(active.transaction.isHistoric ∧ operation.isWrite) := by
  rcases succeeds with ⟨response, isStep⟩
  exact ⟨congrArg Prod.fst isStep, admitted_of_ok (congrArg Prod.snd isStep)⟩

/-- Operations that succeed are listed in their order. -/
theorem run_ledger (run : Run (StepSucceeds step) active operations final)
    (isInteractive : active.transaction.interactive = true) :
    final.ledger = (active.ledger.1, active.transaction.operations ++ operations) := by
  induction run with
  | nil => simp [ledger]
  | @snoc middle final operations operation _ stepped ih =>
      rcases step_of_stepSucceeds stepped with ⟨rfl, admitted⟩
      have stillInteractive : middle.transaction.interactive = true :=
        (congrArg (fun ledger => ledger.1.1) ih).trans isInteractive
      have isListed : middle.transaction.operations =
        active.transaction.operations ++ operations := congrArg Prod.snd ih
      rw [step_ledger stillInteractive admitted, ih, isListed, List.append_assoc]

theorem run_isHistoric (run : Run (StepSucceeds step) active operations final)
    (isInteractive : active.transaction.interactive = true) :
    final.transaction.isHistoric = active.transaction.isHistoric :=
  congrArg (fun ledger => ledger.1.2) (run_ledger run isInteractive)

theorem written_of_onlyReads (run : Run (StepSucceeds step) active operations final)
    (onlyReads : OnlyReads (·.isWrite) operations) : final.written = active.written := by
  induction run with
  | nil => rfl
  | @snoc middle final operations operation _ stepped ih =>
      rcases step_of_stepSucceeds stepped with ⟨rfl, _⟩
      rw [step_read_written (onlyReads operation (List.mem_append_right _ List.mem_cons_self))]
      exact ih fun other otherMem => onlyReads other (List.mem_append_left _ otherMem)

/-- The operations that a historic transaction has performed are reads. -/
theorem onlyReads_of_isHistoric (run : Run (StepSucceeds step) active operations final)
    (isInteractive : active.transaction.interactive = true)
    (isHistoric : active.transaction.isHistoric = true) : OnlyReads (·.isWrite) operations := by
  induction run with
  | nil => exact onlyReads_nil
  | @snoc middle final operations operation before stepped ih =>
      have admitted := (step_of_stepSucceeds stepped).2
      rw [run_isHistoric before isInteractive] at admitted
      apply OnlyReads.append ih
      intro other otherMem
      rw [List.mem_singleton.mp otherMem]
      simpa [isHistoric] using admitted

/--
A failed operation is listed, unless it was refused. Hence where an operation has
failed, the listed operations do not all succeed, or the transaction is historic.
-/
theorem onlyReads_of_stepFails {middle : ActiveTransaction}
    {performed : List TransactionOperation} (isInteractive : active.transaction.interactive = true)
    (run : Run (StepSucceeds step) active performed middle) (fails : StepFails step middle final)
    (reaches : Run (StepSucceeds step) active operations final) :
    OnlyReads (·.isWrite) operations := by
  rcases fails with ⟨operation, failure, isStep⟩
  by_cases isRefused : middle.transaction.isHistoric ∧ operation.isWrite
  · apply onlyReads_of_isHistoric reaches isInteractive
    rw [← run_isHistoric run isInteractive]
    exact isRefused.1
  · have isFinal : (middle.step operation).1 = final := congrArg Prod.fst isStep
    have middleLedger := run_ledger run isInteractive
    have stillInteractive : middle.transaction.interactive = true :=
      (congrArg (fun ledger => ledger.1.1) middleLedger).trans isInteractive
    have finalOperations : final.transaction.operations =
        active.transaction.operations ++ (performed ++ [operation]) := by
      rw [← isFinal, ← List.append_assoc]
      have middleOperations : middle.transaction.operations =
        active.transaction.operations ++ performed := congrArg Prod.snd middleLedger
      rw [← middleOperations]
      exact congrArg Prod.snd (step_ledger stillInteractive isRefused)
    have reachedOperations : final.transaction.operations =
      active.transaction.operations ++ operations :=
        congrArg Prod.snd (run_ledger reaches isInteractive)
    have isListed : performed ++ [operation] = operations :=
      List.append_cancel_left (finalOperations.symm.trans reachedOperations)
    subst isListed
    rcases reaches.snoc_inv with ⟨other, otherRun, response, isOther⟩
    rw [← run.unique otherRun, isStep] at isOther
    cases congrArg Prod.snd isOther

end Run

end ActiveTransaction

section AllOrNothing

open ActiveTransaction

variable {Value : Type} {call : TransactionM Value} {active : ActiveTransaction}

/-- A procedure is all or nothing if its own checks come before its first write operation. -/
theorem AllOrNothing.of_checksFirst (isInteractive : active.transaction.interactive = true)
    (checksFirst : ChecksFirst step (·.isWrite) (fun error => error.isCheck) call active) :
    AllOrNothing call active := by
  intro error final raises isCheck ⟨operations, reaches⟩
  have onlyReads : ∃ performed, Run (StepSucceeds step) active performed final ∧
      OnlyReads (·.isWrite) performed := by
    rcases checksFirst.ofRaise raises with ⟨performed, middle, run, ⟨rfl, isOwn⟩ | fails⟩
    · exact ⟨performed, run, isOwn isCheck⟩
    · exact ⟨operations, reaches, onlyReads_of_stepFails isInteractive run fails reaches⟩
  rcases onlyReads with ⟨performed, run, onlyReads⟩
  have sameWritten := written_of_onlyReads run onlyReads
  have isListed : final.transaction.operations = active.transaction.operations ++ performed :=
    congrArg Prod.snd (run_ledger run isInteractive)
  have noWrites : performed.filter (·.isWrite) = [] := by
    apply List.filter_eq_nil_iff.mpr
    intro operation isMem
    simp [onlyReads operation isMem]
  have sameWrites : final.writeOperations = active.writeOperations := by
    unfold writeOperations
    rw [isListed, List.filter_append, noWrites, List.append_nil]
  exact ⟨sameWrites, sealTransaction_congr sameWritten sameWrites⟩

/-- An exception of its own that comes after a write operation leaves that operation behind. -/
theorem not_allOrNothing (isInteractive : active.transaction.interactive = true) {error : Error}
    {final : ActiveTransaction} (raises : call active = .error error final)
    (isCheck : error.isCheck) {operations : List TransactionOperation}
    (run : Run (StepSucceeds step) active operations final) {operation : TransactionOperation}
    (isMem : operation ∈ operations) (isWrite : operation.isWrite) :
    ¬AllOrNothing call active := by
  intro allOrNothing
  have sameWrites := (allOrNothing error final raises isCheck ⟨operations, run⟩).1
  have isListed : final.transaction.operations = active.transaction.operations ++ operations :=
    congrArg Prod.snd (run_ledger run isInteractive)
  have noWrites : operations.filter (·.isWrite) = [] := by
    unfold writeOperations at sameWrites
    rw [isListed, List.filter_append] at sameWrites
    exact List.append_right_eq_self.mp sameWrites
  exact List.filter_eq_nil_iff.mp noWrites operation isMem isWrite

end AllOrNothing

end Deltacat.Storage
