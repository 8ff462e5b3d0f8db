import Deltacat.Storage.NameResolution
import Deltacat.Storage.Partition

/-!
# What procedures find and write

Specifications of the building blocks of storage procedures over a settled
catalog. A lookup does not change what was written (`latest_cases`), and what it
finds is the live object of the directory that its locator resolves to
(`found_eq_some`). A write step performs its writes on the store of live objects
(`ActiveTransaction.Settled.step`), and a procedure that is sealed leaves the
files as they are (`sealTransaction_files`).
-/

namespace Deltacat.Storage

open Deltacat.Library MetafileRevisionInfo

namespace ActiveTransaction

/-- What read operations leave as it is. -/
def written (active : ActiveTransaction) : Catalog × Transaction :=
  (active.catalog, { active.transaction with operations := [], listResults := [] })

theorem listed_written (active : ActiveTransaction) (operation : TransactionOperation) :
    (active.listed operation).written = active.written := by
  unfold listed
  split <;> rfl

theorem readStep_written (active : ActiveTransaction) (operation : TransactionOperation) :
    (active.readStep operation).1.written = active.written := by
  unfold readStep
  split <;> rfl

variable {active next : ActiveTransaction}

theorem catalog_of_written (same : next.written = active.written) :
    next.catalog = active.catalog :=
  congrArg Prod.fst same

theorem id_of_written (same : next.written = active.written) :
    next.transaction.id = active.transaction.id :=
  congrArg (fun state : Catalog × Transaction => state.2.id) same

theorem Settled.of_written (settled : active.Settled) (same : next.written = active.written) :
    next.Settled := by
  refine ⟨?_, ?_⟩
  · rw [catalog_of_written same]
    exact settled.numbered
  · rw [catalog_of_written same, id_of_written same]
    exact settled.seesAll

/-- A transaction that has not written anything yet. -/
structure Unwritten (active : ActiveTransaction) : Prop where
  notHistoric : active.transaction.isHistoric = false
  noPaths : active.transaction.writePaths = []
  fresh : ∀ file ∈ active.catalog.files, file.info.txnId ≠ active.transaction.id
  noLog : active.transaction.runningLogWritten = false
  notRunning : active.transaction.id ∉ active.catalog.running

theorem Unwritten.of_written (unwritten : active.Unwritten) (same : next.written = active.written) :
    next.Unwritten := by
  have sameCatalog := catalog_of_written same
  have sameId := id_of_written same
  refine ⟨?_, ?_, ?_, ?_, ?_⟩
  · rw [← unwritten.notHistoric]
    exact congrArg (fun state : Catalog × Transaction => state.2.isHistoric) same
  · rw [← unwritten.noPaths]
    exact congrArg (fun state : Catalog × Transaction => state.2.writePaths) same
  · rw [sameCatalog, sameId]
    exact unwritten.fresh
  · rw [← unwritten.noLog]
    exact congrArg (fun state : Catalog × Transaction => state.2.runningLogWritten) same
  · rw [sameCatalog, sameId]
    exact unwritten.notRunning

theorem Unwritten.progress (unwritten : active.Unwritten) :
    Progress active.transaction.id active.catalog false active where
  isId := rfl
  notHistoric := unwritten.notHistoric
  others := by
    rw [Catalog.filesOfOthers, List.filter_eq_self]
    simpa using unwritten.fresh
  own := by simp [unwritten.noPaths]
  recorded := by
    intro path pathMem isOwn
    rcases List.mem_map.mp pathMem with ⟨file, fileMem, rfl⟩
    exact absurd isOwn (unwritten.fresh file fileMem)
  untouched := fun _ => rfl
  success := rfl
  moreDirs := List.Subset.refl _
  logWritten := unwritten.noLog
  running := by simpa using unwritten.notRunning

theorem Unwritten.start {txnId : TransactionId} {catalog : Catalog}
    (fresh : ∀ file ∈ catalog.files, file.info.txnId ≠ txnId)
    (notRunning : txnId ∉ catalog.running) :
    Unwritten ⟨Transaction.start txnId false [], catalog⟩ :=
  ⟨rfl, rfl, fresh, rfl, notRunning⟩

end ActiveTransaction

/-- A metafile whose locator has been restored. -/
def Metafile.withParents (metafile : Metafile) (parents : List LocatorName) : Metafile :=
  { metafile with locator := ⟨parents, metafile.locator.name⟩ }

namespace Catalog

/-- What `_latest` finds. -/
def found (catalog : Catalog) (reader : Reader) (metafile : Metafile) :
    Except Error (Option Metafile) := do
  match ← catalog.latestOf reader metafile true with
  | none => return none
  | some (opType, item) => return if opType = .delete then none else item

variable {catalog : Catalog} {txnId : TransactionId}

/-- Reading an object restores its locator and leaves everything else as it was written. -/
theorem read_eq_ok {objectPath : List String} {metafile item : Metafile}
    (isRead : catalog.read objectPath metafile = .ok item) :
    ∃ parents, item = metafile.withParents parents := by
  unfold read at isRead
  simp only [bind, Except.bind, pure, Except.pure] at isRead
  split at isRead
  case h_1 =>
    cases isRead
    exact ⟨metafile.locator.parents, rfl⟩
  all_goals
    split at isRead
    · cases isRead
    · cases isRead
      exact ⟨_, rfl⟩

/-- What a lookup finds is read from the current file of the directory it resolves to. -/
theorem found_eq (numbered : catalog.Numbered) (allVisible : catalog.AllVisible txnId)
    (metafile : Metafile) :
    catalog.found (readerOf txnId) metafile = do
      match ← catalog.resolve (readerOf txnId) metafile with
      | none => return none
      | some dir =>
          match catalog.current dir with
          | none => return none
          | some file =>
              let item ← catalog.readFile file
              return if file.info.txnOpType = .delete then none else some item := by
  unfold found latestOf
  cases catalog.resolve (readerOf txnId) metafile with
  | error error => rfl
  | ok resolved =>
      cases resolved with
      | none => rfl
      | some dir =>
          simp only [latest_eq_current numbered allVisible, bind, Except.bind, pure, Except.pure]
          cases catalog.current dir with
          | none => rfl
          | some file =>
              simp only [if_true, Functor.map, Except.map]
              cases catalog.readFile file <;> rfl

/-- What a lookup finds is the live object of the directory it resolves to. -/
theorem found_eq_some (numbered : catalog.Numbered) (allVisible : catalog.AllVisible txnId)
    {metafile item : Metafile}
    (isFound : catalog.found (readerOf txnId) metafile = .ok (some item)) :
    ∃ dir stored parents, catalog.resolve (readerOf txnId) metafile = .ok (some dir) ∧
      catalog.live dir = some (.metafile stored) ∧
      item = stored.withParents parents := by
  rw [found_eq numbered allVisible] at isFound
  simp only [bind, Except.bind, pure, Except.pure] at isFound
  split at isFound
  · cases isFound
  case h_2 resolved isResolved =>
    split at isFound
    · cases isFound
    case h_2 dir =>
      split at isFound
      · cases isFound
      case h_2 file isCurrent =>
        split at isFound
        · cases isFound
        case h_2 read isRead =>
          by_cases isDelete : file.info.txnOpType = .delete
          · simp [isDelete] at isFound
          · simp only [isDelete, if_false, Except.ok.injEq, Option.some.injEq] at isFound
            subst isFound
            unfold readFile at isRead
            split at isRead
            case h_1 _ stored _ isStored =>
              rcases read_eq_ok isRead with ⟨parents, isItem⟩
              exact ⟨dir, stored, parents, isResolved,
                live_eq_some.mpr ⟨file, isCurrent, isDelete, isStored⟩, isItem⟩
            case h_2 => cases isRead

/-- A lookup finds nothing only if its locator does not resolve, or to no live object. -/
theorem found_eq_none (numbered : catalog.Numbered) (allVisible : catalog.AllVisible txnId)
    {metafile : Metafile} (isFound : catalog.found (readerOf txnId) metafile = .ok none) :
    catalog.resolve (readerOf txnId) metafile = .ok none ∨
      ∃ dir, catalog.resolve (readerOf txnId) metafile = .ok (some dir) ∧
        catalog.live dir = none := by
  rw [found_eq numbered allVisible] at isFound
  simp only [bind, Except.bind, pure, Except.pure] at isFound
  split at isFound
  · cases isFound
  case h_2 resolved isResolved =>
    split at isFound
    · exact Or.inl isResolved
    case h_2 dir =>
      refine Or.inr ⟨dir, isResolved, ?_⟩
      unfold live
      split at isFound
      case h_1 isCurrent =>
        rw [isCurrent]
        rfl
      case h_2 file isCurrent =>
        split at isFound
        · cases isFound
        · by_cases isDelete : file.info.txnOpType = .delete
          · simp [isCurrent, isDelete]
          · simp [isDelete] at isFound

end Catalog

namespace TransactionM

variable {active next : ActiveTransaction}

theorem step_eq_ok {operation : TransactionOperation} {result : ActiveTransaction.StepResult} :
    step operation active = .ok result next ↔ active.step operation = (next, .ok result) := by
  unfold step
  rcases active.step operation with ⟨final, error | value⟩
  · simp
  · simp [and_comm]

theorem step_eq_error {operation : TransactionOperation} {error : Error} :
    step operation active = .error error next ↔ active.step operation = (next, .error error) := by
  unfold step
  rcases active.step operation with ⟨final, failure | value⟩
  · simp [and_comm]
  · simp

/-- A lookup returns what there is to find and changes nothing that was written. -/
theorem latest_cases (metafile : Metafile) (active : ActiveTransaction) :
    ∃ next, next.written = active.written ∧
      latest metafile active =
        match active.catalog.found (Catalog.readerOf active.transaction.id) metafile with
        | .ok item => .ok item next
        | .error error => .error error next := by
  have isRead : TransactionOperation.isWrite (.readLatest metafile none) = false := rfl
  have isStep : active.step (.readLatest metafile none) =
      (((active.listed (.readLatest metafile none)).readStep (.readLatest metafile none)).1,
        ((active.listed (.readLatest metafile none)).readStep
          (.readLatest metafile none)).2.map .listed) := by
    simp [ActiveTransaction.step, isRead]
  refine ⟨(active.step (.readLatest metafile none)).1, ?_, ?_⟩
  · rw [isStep, ActiveTransaction.readStep_written, ActiveTransaction.listed_written]
  · simp only [latest, step, isStep, bind, EStateM.bind, ActiveTransaction.readStep,
      Catalog.readTxn, ActiveTransaction.listed_catalog, ActiveTransaction.listed_id,
      Catalog.found, Except.bind, pure, Except.pure]
    cases active.catalog.latestOf (Catalog.readerOf active.transaction.id) metafile true with
    | error error => rfl
    | ok outcome =>
        rcases outcome with _ | ⟨opType, item⟩
        · rfl
        · by_cases isDelete : opType = .delete
          · simp [isDelete, Except.map, EStateM.pure]
          · simp [isDelete, Except.map, EStateM.pure]

theorem latest_eq_ok {metafile : Metafile} {item : Option Metafile}
    (returns : latest metafile active = .ok item next) :
    active.catalog.found (Catalog.readerOf active.transaction.id) metafile = .ok item ∧
      next.written = active.written := by
  rcases latest_cases metafile active with ⟨after, sameWritten, isLatest⟩
  rw [isLatest] at returns
  split at returns
  case h_1 found isFound =>
    cases returns
    exact ⟨isFound, sameWritten⟩
  case h_2 => cases returns

theorem preserves_latest (metafile : Metafile) :
    Procedure.Preserves ActiveTransaction.written (latest metafile) := by
  intro active
  rcases latest_cases metafile active with ⟨after, sameWritten, isLatest⟩
  unfold Procedure.finalState
  rw [isLatest]
  split at isLatest
  all_goals exact sameWritten

variable {operation : TransactionOperation} {alreadyExists error : Error}

theorem stepOr_eq :
    stepOr operation alreadyExists active =
      match active.step operation with
      | (after, .ok _) => .ok () after
      | (after, .error .objectAlreadyExistsError) => .error alreadyExists after
      | (after, .error error) => .error error after := by
  simp only [stepOr, tryCatch, tryCatchThe, MonadExceptOf.tryCatch, EStateM.tryCatch, discard,
    Functor.discard, Functor.mapConst, EStateM.map, step, Function.comp]
  rcases active.step operation with ⟨after, error | result⟩
  · cases error <;> rfl
  · rfl

theorem stepOr_eq_ok (returns : stepOr operation alreadyExists active = .ok () next) :
    ∃ result, active.step operation = (next, .ok result) := by
  rw [stepOr_eq] at returns
  split at returns
  case h_1 after result isStep =>
    cases returns
    exact ⟨result, isStep⟩
  all_goals cases returns

theorem stepOr_eq_error (raises : stepOr operation alreadyExists active = .error error next) :
    ∃ failure, active.step operation = (next, .error failure) := by
  rw [stepOr_eq] at raises
  split at raises
  · cases raises
  case h_2 after isStep =>
    cases raises
    exact ⟨_, isStep⟩
  case h_3 after failure _ isStep =>
    cases raises
    exact ⟨_, isStep⟩

/-- Sealing changes the logs and leaves the files as they are, if it succeeds. -/
theorem sealTransaction_eq_ok {now : Option ℕ}
    (returns : sealTransaction now active = .ok () next) :
    next.catalog.files = active.catalog.files ∧
      next.catalog.objectDirs = active.catalog.objectDirs := by
  have isSealed : ∃ result, active.sealTransaction now = (next, .ok result) := by
    unfold sealTransaction at returns
    split at returns
    case h_1 final result isSealed =>
      cases returns
      exact ⟨result, isSealed⟩
    case h_2 => cases returns
  rcases isSealed with ⟨result, isSealed⟩
  unfold ActiveTransaction.sealTransaction at isSealed
  split at isSealed
  · cases isSealed
  split at isSealed
  · cases isSealed
  unfold ActiveTransaction.sealSteps at isSealed
  split at isSealed
  · cases isSealed
  split at isSealed
  · cases isSealed
  simp only at isSealed
  split at isSealed
  · cases isSealed
    exact ⟨rfl, rfl⟩
  split at isSealed
  · cases isSealed
  split at isSealed
  · cases isSealed
  split at isSealed
  · cases isSealed
    refine ⟨ActiveTransaction.ensureRunningLog_files _, ?_⟩
    simp [ActiveTransaction.ensureRunningLog]
    split <;> rfl
  · cases isSealed

end TransactionM

/-- A procedure that returns in a transaction of its own, which sees everything and is sealed. -/
structure Catalog.Completes {Value : Type} (catalog : Catalog) (txnId : TransactionId)
    (now : Option ℕ) (procedure : TransactionM Value) (value : Value) (next : Catalog) :
    Prop where
  seesAll : catalog.AllVisible txnId
  returns : ∃ active final,
    procedure ⟨Transaction.start txnId false [], catalog⟩ = .ok value active ∧
      TransactionM.sealTransaction now active = .ok () final ∧ final.catalog = next
  bounded : ∀ file ∈ next.files, file.info.revision ≤ maxRevisionNumber

namespace Catalog

theorem live_congr {catalog other : Catalog} (sameFiles : catalog.files = other.files) :
    catalog.live = other.live := by
  unfold live current
  rw [sameFiles]

theorem Numbered.congr {catalog other : Catalog} (numbered : catalog.Numbered)
    (sameFiles : other.files = catalog.files) (moreDirs : catalog.objectDirs ⊆ other.objectDirs) :
    other.Numbered := by
  rcases numbered with ⟨⟨positive, fits, isWrite, unique, typed, housed⟩, distinct, bounded⟩
  rw [← sameFiles] at positive fits isWrite unique typed housed distinct bounded
  exact ⟨⟨positive, fits, isWrite, unique, typed, fun file fileMem objectPath isOnPath =>
    moreDirs (housed file fileMem objectPath isOnPath)⟩, distinct, bounded⟩

/-- The state in which a completed procedure has left the catalog. -/
theorem Completes.spec {Value : Type} {catalog next : Catalog} {txnId : TransactionId}
    {now : Option ℕ} {procedure : TransactionM Value} {value : Value}
    (completes : catalog.Completes txnId now procedure value next) (numbered : catalog.Numbered) :
    ∃ active, procedure ⟨Transaction.start txnId false [], catalog⟩ = .ok value active ∧
      ActiveTransaction.Settled ⟨Transaction.start txnId false [], catalog⟩ ∧
      (∀ file ∈ active.catalog.files, file.info.revision ≤ maxRevisionNumber) ∧
      (active.Settled → next.Numbered) ∧ next.live = active.catalog.live := by
  rcases completes.returns with ⟨active, final, returns, isSealed, rfl⟩
  rcases TransactionM.sealTransaction_eq_ok isSealed with ⟨sameFiles, sameDirs⟩
  refine ⟨active, returns, ⟨numbered, completes.seesAll⟩, ?_, ?_, live_congr sameFiles⟩
  · rw [← sameFiles]
    exact completes.bounded
  · intro settled
    exact settled.numbered.congr sameFiles (by rw [sameDirs]; exact List.Subset.refl _)

/-- What a procedure returns in a transaction of its own. -/
def returned {Value : Type} (catalog : Catalog) (txnId : TransactionId)
    (procedure : TransactionM Value) : Option Value :=
  match procedure ⟨Transaction.start txnId false [], catalog⟩ with
  | .ok value _ => some value
  | .error _ _ => none

theorem returned_of_ok {Value : Type} {catalog : Catalog} {txnId : TransactionId}
    {procedure : TransactionM Value} {value : Value} {active : ActiveTransaction}
    (returns : procedure ⟨Transaction.start txnId false [], catalog⟩ = .ok value active) :
    catalog.returned txnId procedure = some value := by
  unfold returned
  rw [returns]

theorem returned_of_error {Value : Type} {catalog : Catalog} {txnId : TransactionId}
    {procedure : TransactionM Value} {error : Error} {active : ActiveTransaction}
    (raises : procedure ⟨Transaction.start txnId false [], catalog⟩ = .error error active) :
    catalog.returned txnId procedure = none := by
  unfold returned
  rw [raises]

/-- The catalog after a procedure in a transaction of its own. -/
def completed {Value : Type} (catalog : Catalog) (txnId : TransactionId) (now : Option ℕ)
    (procedure : TransactionM Value) : Catalog :=
  (Procedure.finalState (do
    let _ ← procedure
    TransactionM.sealTransaction now) ⟨Transaction.start txnId false [], catalog⟩).catalog

/-- Whether a procedure returns in a transaction of its own. -/
def isCompleted {Value : Type} (catalog : Catalog) (txnId : TransactionId) (now : Option ℕ)
    (procedure : TransactionM Value) : Bool :=
  match (do
    let _ ← procedure
    TransactionM.sealTransaction now : TransactionM Unit)
      ⟨Transaction.start txnId false [], catalog⟩ with
  | .ok _ _ => true
  | .error _ _ => false

theorem completes_of_isCompleted {Value : Type} {catalog : Catalog} {txnId : TransactionId}
    {now : Option ℕ} {procedure : TransactionM Value} (seesAll : catalog.AllVisible txnId)
    (isCompleted : catalog.isCompleted txnId now procedure)
    (bounded : ∀ file ∈ (catalog.completed txnId now procedure).files,
      file.info.revision ≤ maxRevisionNumber) :
    ∃ value, catalog.Completes txnId now procedure value
      (catalog.completed txnId now procedure) := by
  unfold Catalog.isCompleted at isCompleted
  split at isCompleted
  case h_1 _ final returns =>
    have isFinal := Procedure.finalState_of_ok returns
    rcases Procedure.bind_eq_ok.mp returns with ⟨value, active, isValue, isSealed⟩
    refine ⟨value, seesAll, ⟨active, final, isValue, isSealed, ?_⟩, bounded⟩
    unfold completed
    rw [isFinal]
  case h_2 => cases isCompleted

end Catalog

namespace ActiveTransaction

/-- A write that fails undoes all that its transaction has written. -/
theorem Progress.rollback {txnId : TransactionId} {before : Catalog} {wrote : Bool}
    {active next : ActiveTransaction} (progress : Progress txnId before wrote active)
    {operation : TransactionOperation} (isWrite : operation.isWrite) {error : Error}
    (numbered : before.Numbered)
    (fails : active.step operation = (next, .error error)) :
    next.catalog.Numbered ∧ next.catalog.live = before.live := by
  have leaves := progress.step_error isWrite (congrArg Prod.snd fails)
  rw [fails] at leaves
  exact ⟨numbered.congr leaves.files leaves.moreDirs, Catalog.live_congr leaves.files⟩

end ActiveTransaction

end Deltacat.Storage
