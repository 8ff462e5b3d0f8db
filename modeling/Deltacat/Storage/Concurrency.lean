import Deltacat.Library.Run
import Deltacat.Storage.RevisionScan
import Mathlib.Tactic

/-!
# Concurrent writers

Transactions share a catalog without a lock. A writer reads the latest revision
that its snapshot shows, writes the next one, and only then lists the directory
for files of other transactions under the same number. The check is made after
each operation and once more for every written path when the transaction is
sealed; then the success log is written. Of two writers the one with the greater
identifier wins, unless the other one already has a success log.

`World` is the shared catalog with the local state of every transaction, and an
event is one atomic step of one transaction: `new_revision`, writing one file,
one call of `check_for_concurrent_txn_conflict`, entering the seal, writing the
success log, its validation, and the deletions of `_fail_and_cleanup` one by
one. Paths are pairs of a revision directory and a revision file; the model is
generic in the directories, so that the directories of objects and of name
mappings are treated alike. A transaction that has failed or succeeded can still
be used: nothing but an end time that is set already keeps it from being sealed.

The check and the success log are two steps. A writer may start after a lower
transaction has passed its last check and finish before that transaction has
written its log; then both succeed (`not_noLostUpdate`). A caller may also seal a
transaction that has failed, whose files are gone. `Disciplined` excludes both,
together with writes after the success log, listings that are cut off at the page
size and end times before the start time, and under it no update is lost
(`noLostUpdate_run`).
-/

namespace Deltacat.Storage

open Deltacat.Library MetafileRevisionInfo

universe u

/-- Where a transaction is: in a step or between two calls, in `seal`, or in a cleanup. -/
inductive WriterPhase
  | running
  | sealing
  | logged
  | aborting (deletesLog : Bool)
  deriving DecidableEq

/-- The local state of a transaction. -/
structure Writer (Directory : Type u) where
  phase : WriterPhase
  /-- The end time, once it is set; zero counts as unset. -/
  endTime : Option ℕ
  /-- Whether the failed log was written. -/
  hasFailed : Bool
  /-- The revision that was chosen and not written yet. -/
  pending : Option (RevisionPath Directory)
  /-- The recorded metafile and locator write paths. -/
  written : List (RevisionPath Directory)
  /-- The paths that the current phase still has to check or to delete. -/
  remaining : List (RevisionPath Directory)

namespace Writer

variable {Directory : Type u}

def start : Writer Directory where
  phase := .running
  endTime := none
  hasFailed := false
  pending := none
  written := []
  remaining := []

/-- The transaction has passed its last check of a path it wrote, or it has its success log. -/
def SealChecked (log : Option ℕ) (writer : Writer Directory) (path : RevisionPath Directory) :
    Prop :=
  log.isSome ∨ writer.phase = .sealing ∧ path ∉ writer.remaining

end Writer

structure World (Directory : Type u) where
  files : List (RevisionPath Directory)
  endTime : SuccessLog
  writers : TransactionId → Writer Directory

/-- The atomic steps of a transaction. -/
inductive WriterAction (Directory : Type u)
  | newRevision (directory : Directory) (opType : TransactionOperationType) (ignoreExisting : Bool)
  | writeRevision
  /-- The operation fails for another reason, such as ancestors that are not found. -/
  | failStep
  | check
  /-- `seal` of a transaction with write operations, with the end time that it sets. -/
  | beginSeal (endTime : ℕ)
  | writeSuccessLog
  | validate
  | deleteFile
  | deleteLog

namespace World

variable {Directory : Type u} [DecidableEq Directory]

def initial : World Directory where
  files := []
  endTime := fun _ => none
  writers := fun _ => Writer.start

/-- The revision files of one directory. -/
def filesIn (world : World Directory) (directory : Directory) : List MetafileRevisionInfo :=
  (world.files.filter (·.1 = directory)).map Prod.snd

def setWriter (world : World Directory) (txnId : TransactionId) (writer : Writer Directory) :
    World Directory :=
  { world with writers := Function.update world.writers txnId writer }

/-- `_fail_and_cleanup` begins: every path ever written is to be deleted. -/
def abort (world : World Directory) (txnId : TransactionId) (deletesLog : Bool) :
    World Directory :=
  let writer := world.writers txnId
  world.setWriter txnId
    { writer with
      phase := .aborting deletesLog
      hasFailed := true
      pending := none
      remaining := writer.written }

def step (world : World Directory) (txnId : TransactionId) :
    WriterAction Directory → Option (World Directory)
  | .newRevision directory opType ignoreExisting =>
      let writer := world.writers txnId
      if writer.phase = .running ∧ writer.pending = none ∧ opType.isWriteOperation then
        match MetafileRevisionInfo.newRevision (world.filesIn directory) opType txnId.startTime
            txnId world.endTime with
        | .ok mri =>
            some (world.setWriter txnId { writer with pending := some (directory, mri) })
        | .error error =>
            if ignoreExisting ∧ error = .objectAlreadyExistsError then some world
            else some (world.abort txnId false)
      else none
  | .writeRevision =>
      let writer := world.writers txnId
      match writer.phase, writer.pending with
      | .running, some path =>
          some ({ world with files := List.insert path world.files }.setWriter txnId
            { writer with
              pending := none
              written := writer.written ++ [path]
              remaining := writer.remaining ++ [path] })
      | _, _ => none
  | .failStep =>
      if (world.writers txnId).phase = .running then some (world.abort txnId false) else none
  | .check =>
      let writer := world.writers txnId
      match writer.remaining with
      | [] => none
      | path :: remaining =>
          if writer.phase = .running ∨ writer.phase = .sealing then
            match checkForConcurrentTxnConflict (world.filesIn path.1) world.endTime path.2 with
            | .ok () => some (world.setWriter txnId { writer with remaining := remaining })
            | .error _ => some (world.abort txnId false)
          else none
  | .beginSeal endTime =>
      let writer := world.writers txnId
      if writer.phase = .running ∧ writer.pending = none ∧ writer.remaining = [] ∧
          ¬writer.endTime.any (· ≠ 0) then
        some (world.setWriter txnId
          { writer with
            phase := .sealing
            endTime := some endTime
            remaining := writer.written })
      else none
  | .writeSuccessLog =>
      let writer := world.writers txnId
      if writer.phase = .sealing ∧ writer.remaining = [] then
        some ({ world with
          endTime := Function.update world.endTime txnId writer.endTime }.setWriter txnId
            { writer with phase := .logged })
      else none
  | .validate =>
      let writer := world.writers txnId
      if writer.phase = .logged then
        if (world.endTime txnId).any (· < txnId.startTime) then some (world.abort txnId true)
        else some (world.setWriter txnId { writer with phase := .running })
      else none
  | .deleteFile =>
      let writer := world.writers txnId
      match writer.phase, writer.remaining with
      | .aborting _, path :: remaining =>
          some ({ world with files := world.files.filter (· ≠ path) }.setWriter txnId
            { writer with remaining := remaining })
      | _, _ => none
  | .deleteLog =>
      let writer := world.writers txnId
      match writer.phase, writer.remaining with
      | .aborting deletesLog, [] =>
          some ({ world with
            endTime := if deletesLog then Function.update world.endTime txnId none
              else world.endTime }.setWriter txnId { writer with phase := .running })
      | _, _ => none

def Step (world : World Directory) (event : TransactionId × WriterAction Directory)
    (next : World Directory) : Prop :=
  world.step event.1 event.2 = some next

/-- No two transactions with a success log wrote one revision number into one directory. -/
def NoLostUpdate (world : World Directory) : Prop :=
  ∀ left right, left ≠ right → (world.endTime left).isSome → (world.endTime right).isSome →
    ∀ leftPath ∈ (world.writers left).written, ∀ rightPath ∈ (world.writers right).written,
      leftPath.1 = rightPath.1 → leftPath.2.revision ≠ rightPath.2.revision

/--
The condition on a step. A revision is not written while a transaction with a
smaller identifier is between its last check of the same revision number in the
same directory and its success log; a check does not meet more files of one
revision number than a page holds; a transaction that has its success log writes
no more; and one that has failed is not sealed, nor does a seal end before the
transaction started.
-/
def Disciplined (world : World Directory) (event : TransactionId × WriterAction Directory) : Prop :=
  match event.2 with
  | .newRevision _ _ _ | .failStep => world.endTime event.1 = none
  | .writeRevision =>
      ∀ path, (world.writers event.1).pending = some path →
        ∀ other, other.text < event.1.text → ∀ otherPath ∈ (world.writers other).written,
          otherPath.1 = path.1 → otherPath.2.revision = path.2.revision →
            (world.writers other).phase = .sealing →
              otherPath ∈ (world.writers other).remaining
  | .check =>
      ∀ path ∈ (world.writers event.1).remaining.head?,
        contenders (world.filesIn path.1) path.2 ≤ defaultPageSize
  | .beginSeal endTime =>
      (world.writers event.1).hasFailed = false ∧ 0 < endTime ∧ event.1.startTime ≤ endTime
  | _ => True

/-- What holds of each transaction on its own. -/
structure WriterInvariant (files : List (RevisionPath Directory)) (log : Option ℕ)
    (txnId : TransactionId) (writer : Writer Directory) : Prop where
  pendingOwned : ∀ path ∈ writer.pending, path.2.txnId = txnId ∧
    path.2.txnOpType.isWriteOperation ∧ 0 < path.2.revision ∧ path.2.revision < 10 ^ 20
  owned : ∀ path ∈ writer.written, path.2.txnId = txnId
  present : writer.hasFailed = false → ∀ path ∈ writer.written, path ∈ files
  remainingWritten : ∀ path ∈ writer.remaining, path ∈ writer.written
  sealingOpen : writer.phase = .sealing →
    log = none ∧ writer.hasFailed = false ∧ writer.pending = none
  sealingTime : writer.phase = .sealing →
    ∃ time, writer.endTime = some time ∧ 0 < time ∧ txnId.startTime ≤ time
  abortingFailed : ∀ deletesLog, writer.phase = .aborting deletesLog → writer.hasFailed = true
  loggedTime : ∀ time ∈ log, writer.endTime = some time ∧ 0 < time ∧ txnId.startTime ≤ time
  loggedLive : log.isSome → writer.hasFailed = false
  loggedPhase : log.isSome →
    (writer.phase = .logged ∨ writer.phase = .running) ∧ writer.pending = none ∧
      writer.remaining = []

/--
Of two writers of one revision number that have not failed, the lower one has not
passed its last check, or it has its success log and the upper one has not passed
its last check.
-/
def RaceInvariant (lowerLog upperLog : Option ℕ) (lower upper : Writer Directory) : Prop :=
  lower.hasFailed = false → upper.hasFailed = false →
    ∀ lowerPath ∈ lower.written, ∀ upperPath ∈ upper.written,
      lowerPath.1 = upperPath.1 → lowerPath.2.revision = upperPath.2.revision →
        ¬lower.SealChecked lowerLog lowerPath ∨
          (lowerLog.isSome ∧ ¬upper.SealChecked upperLog upperPath)

structure Invariant (world : World Directory) : Prop where
  wellNamed : ∀ path ∈ world.files,
    path.2.txnOpType.isWriteOperation ∧ 0 < path.2.revision ∧ path.2.revision < 10 ^ 20
  writer : ∀ txnId, WriterInvariant world.files (world.endTime txnId) txnId (world.writers txnId)
  race : ∀ lower upper, lower.text < upper.text →
    RaceInvariant (world.endTime lower) (world.endTime upper) (world.writers lower)
      (world.writers upper)

omit [DecidableEq Directory] in
theorem invariant_initial : (initial : World Directory).Invariant where
  wellNamed := by simp [initial]
  writer := fun txnId => by constructor <;> simp [initial, Writer.start]
  race := by simp [initial, RaceInvariant, Writer.start]

namespace Invariant

variable {world : World Directory}

theorem wellNamed_filesIn (invariant : world.Invariant) (directory : Directory) :
    WellNamed (world.filesIn directory) := by
  have named : ∀ mri ∈ world.filesIn directory, (directory, mri) ∈ world.files := by
    intro mri mriMem
    simp only [filesIn, List.mem_map, List.mem_filter, decide_eq_true_eq] at mriMem
    rcases mriMem with ⟨path, ⟨pathMem, rfl⟩, rfl⟩
    exact pathMem
  constructor
  · exact fun mri mriMem => (invariant.wellNamed _ (named mri mriMem)).2.1
  · exact fun mri mriMem => (invariant.wellNamed _ (named mri mriMem)).2.2
  · exact fun mri mriMem => (invariant.wellNamed _ (named mri mriMem)).1

omit [DecidableEq Directory] in
/-- The invariant rules a lost update out. -/
theorem noLostUpdate (invariant : world.Invariant) : world.NoLostUpdate := by
  -- By symmetry the left transaction may be taken to have the smaller identifier.
  have ordered : ∀ lower upper, lower.text < upper.text → (world.endTime lower).isSome →
      (world.endTime upper).isSome → ∀ lowerPath ∈ (world.writers lower).written,
        ∀ upperPath ∈ (world.writers upper).written, lowerPath.1 = upperPath.1 →
          lowerPath.2.revision ≠ upperPath.2.revision := by
    intro lower upper less lowerLogged upperLogged lowerPath lowerMem upperPath upperMem sameDir
      sameRevision
    rcases invariant.race lower upper less ((invariant.writer lower).loggedLive lowerLogged)
      ((invariant.writer upper).loggedLive upperLogged) lowerPath lowerMem upperPath upperMem
      sameDir sameRevision with notChecked | ⟨_, notChecked⟩
    · exact notChecked (Or.inl lowerLogged)
    · exact notChecked (Or.inl upperLogged)
  intro left right distinct leftLogged rightLogged leftPath leftMem rightPath rightMem sameDir
    sameRevision
  have textNe : left.text ≠ right.text := fun same =>
    distinct (TransactionId.text_injective same)
  rcases lt_or_gt_of_ne textNe with less | greater
  · exact ordered left right less leftLogged rightLogged leftPath leftMem rightPath rightMem sameDir
      sameRevision
  · exact ordered right left greater rightLogged leftLogged rightPath rightMem leftPath leftMem
      sameDir.symm sameRevision.symm

omit [DecidableEq Directory] in
/--
A step of one transaction. The other transactions keep their own invariant when
their files and logs are left alone, so only the acting transaction and its
races are left to be checked.
-/
theorem act (invariant : world.Invariant) {txnId : TransactionId} {writer : Writer Directory}
    {files : List (RevisionPath Directory)} {endTime : SuccessLog}
    (sameLog : ∀ other, other ≠ txnId → endTime other = world.endTime other)
    (kept : ∀ path ∈ world.files, path.2.txnId ≠ txnId → path ∈ files)
    (wellNamed : ∀ path ∈ files,
      path.2.txnOpType.isWriteOperation ∧ 0 < path.2.revision ∧ path.2.revision < 10 ^ 20)
    (own : WriterInvariant files (endTime txnId) txnId writer)
    (below : ∀ other, other.text < txnId.text →
      RaceInvariant (world.endTime other) (endTime txnId) (world.writers other) writer)
    (above : ∀ other, txnId.text < other.text →
      RaceInvariant (endTime txnId) (world.endTime other) writer (world.writers other)) :
    ({ files, endTime, writers := Function.update world.writers txnId writer } :
      World Directory).Invariant where
  wellNamed := wellNamed
  writer := by
    intro other
    by_cases isActor : other = txnId
    · subst isActor
      simpa using own
    · have unchanged := invariant.writer other
      simp only [Function.update_of_ne isActor, sameLog other isActor]
      refine { unchanged with present := ?_ }
      intro live path pathMem
      apply kept path (unchanged.present live path pathMem)
      rw [unchanged.owned path pathMem]
      exact isActor
  race := by
    intro lower upper less
    by_cases lowerActor : lower = txnId
    · subst lowerActor
      have isOther : upper ≠ lower := by
        rintro rfl
        exact lt_irrefl _ less
      simpa [Function.update_of_ne isOther, sameLog upper isOther] using above upper less
    · by_cases upperActor : upper = txnId
      · subst upperActor
        simpa [Function.update_of_ne lowerActor, sameLog lower lowerActor] using below lower less
      · simpa [Function.update_of_ne lowerActor, Function.update_of_ne upperActor,
          sameLog lower lowerActor, sameLog upper upperActor] using invariant.race lower upper less

omit [DecidableEq Directory] in
/-- A step that writes no file and no log. -/
theorem setWriter (invariant : world.Invariant) {txnId : TransactionId}
    {writer : Writer Directory}
    (own : WriterInvariant world.files (world.endTime txnId) txnId writer)
    (below : ∀ other, other.text < txnId.text →
      RaceInvariant (world.endTime other) (world.endTime txnId) (world.writers other) writer)
    (above : ∀ other, txnId.text < other.text →
      RaceInvariant (world.endTime txnId) (world.endTime other) writer (world.writers other)) :
    (world.setWriter txnId writer).Invariant :=
  invariant.act (fun _ _ => rfl) (fun _ pathMem _ => pathMem) invariant.wellNamed own below above

omit [DecidableEq Directory] in
theorem abort (invariant : world.Invariant) {txnId : TransactionId}
    (unlogged : world.endTime txnId = none) (deletesLog : Bool) :
    (world.abort txnId deletesLog).Invariant := by
  have before := invariant.writer txnId
  apply invariant.setWriter
  · exact { before with
      pendingOwned := by simp
      present := by simp
      remainingWritten := fun path pathMem => pathMem
      sealingOpen := by simp
      sealingTime := by simp
      abortingFailed := by simp
      loggedLive := by simp [unlogged]
      loggedPhase := by simp [unlogged] }
  · exact fun other _ _ live => Bool.noConfusion live
  · exact fun other _ live => Bool.noConfusion live

omit [DecidableEq Directory] in
/-- A running transaction chooses its next revision. -/
theorem setPending (invariant : world.Invariant) {txnId : TransactionId}
    {path : RevisionPath Directory} (isRunning : (world.writers txnId).phase = .running)
    (unlogged : world.endTime txnId = none)
    (isOwned : path.2.txnId = txnId ∧ path.2.txnOpType.isWriteOperation ∧ 0 < path.2.revision ∧
      path.2.revision < 10 ^ 20) :
    (world.setWriter txnId { world.writers txnId with pending := some path }).Invariant := by
  have before := invariant.writer txnId
  apply invariant.setWriter
  · exact { before with
      pendingOwned := by simpa using isOwned
      sealingOpen := by simp [isRunning]
      loggedPhase := by simp [unlogged] }
  · exact fun other less => invariant.race other txnId less
  · exact fun other less => invariant.race txnId other less

/-- A running transaction writes the revision it chose. -/
theorem writeRevision (invariant : world.Invariant) {txnId : TransactionId}
    {path : RevisionPath Directory} (isRunning : (world.writers txnId).phase = .running)
    (isPending : (world.writers txnId).pending = some path)
    (disciplined : ∀ other, other.text < txnId.text → ∀ otherPath ∈ (world.writers other).written,
      otherPath.1 = path.1 → otherPath.2.revision = path.2.revision →
        (world.writers other).phase = .sealing → otherPath ∈ (world.writers other).remaining) :
    ({ world with files := List.insert path world.files }.setWriter txnId
      { world.writers txnId with
        pending := none
        written := (world.writers txnId).written ++ [path]
        remaining := (world.writers txnId).remaining ++ [path] }).Invariant := by
  have before := invariant.writer txnId
  have pathOwned := before.pendingOwned path isPending
  have unlogged : ¬(world.endTime txnId).isSome := by
    intro isLogged
    simpa [isPending] using (before.loggedPhase isLogged).2.1
  apply invariant.act (fun _ _ => rfl)
  · exact fun other otherMem _ => List.mem_insert_of_mem otherMem
  · intro other otherMem
    rcases List.mem_insert_iff.mp otherMem with rfl | otherMem
    · exact pathOwned.2
    · exact invariant.wellNamed other otherMem
  · constructor
    · simp
    · intro other otherMem
      rcases List.mem_append.mp otherMem with otherMem | isPath
      · exact before.owned other otherMem
      · rw [List.mem_singleton.mp isPath]
        exact pathOwned.1
    · intro live other otherMem
      rcases List.mem_append.mp otherMem with otherMem | isPath
      · exact List.mem_insert_of_mem (before.present live other otherMem)
      · rw [List.mem_singleton.mp isPath]
        exact List.mem_insert_self
    · intro other otherMem
      rcases List.mem_append.mp otherMem with otherMem | isPath
      · exact List.mem_append_left _ (before.remainingWritten other otherMem)
      · exact List.mem_append_right _ isPath
    · simp [isRunning]
    · simp [isRunning]
    · simp [isRunning]
    · exact before.loggedTime
    · exact before.loggedLive
    · exact fun isLogged => absurd isLogged unlogged
  · intro other less live txnLive lowerPath lowerMem upperPath upperMem sameDir sameRevision
    by_cases isLogged : (world.endTime other).isSome
    · exact Or.inr ⟨isLogged, by simp [Writer.SealChecked, isRunning, unlogged]⟩
    left
    rintro (logged | ⟨isSealing, checked⟩)
    · exact isLogged logged
    rcases List.mem_append.mp upperMem with upperMem | isPath
    · rcases invariant.race other txnId less live txnLive lowerPath lowerMem upperPath upperMem
        sameDir sameRevision with notChecked | ⟨logged, _⟩
      · exact notChecked (Or.inr ⟨isSealing, checked⟩)
      · exact isLogged logged
    · rw [List.mem_singleton] at isPath
      subst isPath
      exact checked (disciplined other less lowerPath lowerMem sameDir sameRevision isSealing)
  · intro other _ _ _ lowerPath _ upperPath _ _ _
    left
    simp [Writer.SealChecked, isRunning, unlogged]

/-- A transaction passes the check of a path. -/
theorem passCheck (invariant : world.Invariant) {txnId : TransactionId}
    {path : RevisionPath Directory} {remaining : List (RevisionPath Directory)}
    (isRemaining : (world.writers txnId).remaining = path :: remaining)
    (phase : (world.writers txnId).phase = .running ∨ (world.writers txnId).phase = .sealing)
    (few : contenders (world.filesIn path.1) path.2 ≤ defaultPageSize)
    (passed : checkForConcurrentTxnConflict (world.filesIn path.1) world.endTime path.2 =
      .ok ()) :
    (world.setWriter txnId { world.writers txnId with remaining := remaining }).Invariant := by
  have before := invariant.writer txnId
  have unlogged : ¬(world.endTime txnId).isSome := by
    intro isLogged
    simpa [isRemaining] using (before.loggedPhase isLogged).2.2
  have pathOwned : path.2.txnId = txnId :=
    before.owned path (before.remainingWritten path (by simp [isRemaining]))
  -- What the passed check says about the file of another transaction that has not failed.
  have noRival : ∀ other, other ≠ txnId → (world.writers other).hasFailed = false →
      ∀ otherPath ∈ (world.writers other).written, otherPath.1 = path.1 →
        otherPath.2.revision = path.2.revision →
          other.text < txnId.text ∧ (world.endTime other).isSome = false := by
    intro other isOther live otherPath otherMem sameDir sameRevision
    have otherOwned := (invariant.writer other).owned otherPath otherMem
    have inFiles := (invariant.writer other).present live otherPath otherMem
    have inDirectory : otherPath.2 ∈ world.filesIn path.1 := by
      simp only [filesIn, List.mem_map, List.mem_filter, decide_eq_true_eq]
      exact ⟨otherPath, ⟨inFiles, sameDir⟩, rfl⟩
    have result := checkForConcurrentTxnConflict_ok (invariant.wellNamed_filesIn path.1) few passed
      inDirectory sameRevision (by rw [otherOwned, pathOwned]; exact isOther)
    rw [otherOwned, pathOwned] at result
    refine ⟨result.1, ?_⟩
    cases logged : world.endTime other with
    | none => rfl
    | some time =>
        have positive := (invariant.writer other).loggedTime time logged
        have isZero := result.2 time logged
        omega
  have checkedBefore : ∀ other, other ≠ path →
      Writer.SealChecked (world.endTime txnId) { world.writers txnId with remaining := remaining }
        other → (world.writers txnId).SealChecked (world.endTime txnId) other := by
    intro other notPath checked
    rcases checked with isLogged | ⟨isSealing, checked⟩
    · exact Or.inl isLogged
    · right
      exact ⟨isSealing, by simpa [isRemaining, notPath] using checked⟩
  apply invariant.setWriter
  · refine { before with
      remainingWritten := ?_
      loggedPhase := fun isLogged => absurd isLogged unlogged }
    intro other otherMem
    exact before.remainingWritten other (by simp [isRemaining, otherMem])
  · intro other less live txnLive lowerPath lowerMem upperPath upperMem sameDir sameRevision
    have isOther : other ≠ txnId := by
      rintro rfl
      exact lt_irrefl _ less
    have raced := invariant.race other txnId less live txnLive lowerPath lowerMem upperPath upperMem
      sameDir sameRevision
    by_cases isPath : upperPath = path
    · subst isPath
      have rival := noRival other isOther live lowerPath lowerMem sameDir sameRevision
      rcases raced with notChecked | ⟨isLogged, _⟩
      · exact Or.inl notChecked
      · simp [rival.2] at isLogged
    · exact raced.imp_right fun both =>
        ⟨both.1, fun checked => both.2 (checkedBefore upperPath isPath checked)⟩
  · intro other less txnLive live lowerPath lowerMem upperPath upperMem sameDir sameRevision
    have isOther : other ≠ txnId := by
      rintro rfl
      exact lt_irrefl _ less
    have raced := invariant.race txnId other less txnLive live lowerPath lowerMem upperPath upperMem
      sameDir sameRevision
    by_cases isPath : lowerPath = path
    · subst isPath
      have rival := noRival other isOther live upperPath upperMem sameDir.symm sameRevision.symm
      exact absurd rival.1 (not_lt_of_gt less)
    · exact raced.imp_left fun notChecked checked =>
        notChecked (checkedBefore lowerPath isPath checked)

omit [DecidableEq Directory] in
/-- A running transaction that has not failed begins to be sealed, unless it was sealed before. -/
theorem beginSeal (invariant : world.Invariant) {txnId : TransactionId} {endTime : ℕ}
    (nonePending : (world.writers txnId).pending = none)
    (isOpen : ¬(world.writers txnId).endTime.any (· ≠ 0))
    (notFailed : (world.writers txnId).hasFailed = false) (positive : 0 < endTime)
    (inOrder : txnId.startTime ≤ endTime) :
    (world.setWriter txnId
      { world.writers txnId with
        phase := .sealing
        endTime := some endTime
        remaining := (world.writers txnId).written }).Invariant := by
  have before := invariant.writer txnId
  have unlogged : world.endTime txnId = none := by
    cases isLogged : world.endTime txnId with
    | none => rfl
    | some time =>
        rcases before.loggedTime time isLogged with ⟨sameTime, isPositive, _⟩
        exact absurd (by simp [sameTime]; omega) isOpen
  apply invariant.setWriter
  · exact { before with
      remainingWritten := fun path pathMem => pathMem
      sealingOpen := fun _ => ⟨unlogged, notFailed, nonePending⟩
      sealingTime := fun _ => ⟨endTime, rfl, positive, inOrder⟩
      abortingFailed := by simp
      loggedTime := by simp [unlogged]
      loggedPhase := by simp [unlogged] }
  · intro other less live txnLive lowerPath lowerMem upperPath upperMem sameDir sameRevision
    have raced := invariant.race other txnId less live txnLive lowerPath lowerMem upperPath upperMem
      sameDir sameRevision
    exact raced.imp_right fun both => ⟨both.1, by simp [Writer.SealChecked, unlogged, upperMem]⟩
  · intro other _ _ _ lowerPath lowerMem _ _ _ _
    exact Or.inl (by simp [Writer.SealChecked, unlogged, lowerMem])

omit [DecidableEq Directory] in
/-- A sealing transaction with nothing left to check writes its success log. -/
theorem writeSuccessLog (invariant : world.Invariant) {txnId : TransactionId}
    (isSealing : (world.writers txnId).phase = .sealing)
    (checked : (world.writers txnId).remaining = []) :
    ({ world with
      endTime := Function.update world.endTime txnId (world.writers txnId).endTime }.setWriter txnId
        { world.writers txnId with phase := .logged }).Invariant := by
  have before := invariant.writer txnId
  rcases before.sealingOpen isSealing with ⟨unlogged, notFailed, nonePending⟩
  rcases before.sealingTime isSealing with ⟨time, isTime, positive, inOrder⟩
  have allChecked : ∀ path,
      (world.writers txnId).SealChecked (world.endTime txnId) path := by
    intro path
    simp [Writer.SealChecked, isSealing, checked]
  apply invariant.act
  · exact fun other isOther => Function.update_of_ne isOther _ _
  · exact fun _ pathMem _ => pathMem
  · exact invariant.wellNamed
  · exact { before with
      sealingOpen := by simp
      sealingTime := by simp
      abortingFailed := by simp
      loggedTime := by simp [isTime, positive, inOrder]
      loggedLive := fun _ => notFailed
      loggedPhase := fun _ => ⟨Or.inl rfl, nonePending, checked⟩ }
  · intro other less live txnLive lowerPath lowerMem upperPath upperMem sameDir sameRevision
    rcases invariant.race other txnId less live txnLive lowerPath lowerMem upperPath upperMem
      sameDir sameRevision with notChecked | ⟨_, notChecked⟩
    · exact Or.inl notChecked
    · exact absurd (allChecked upperPath) notChecked
  · intro other less txnLive live lowerPath lowerMem upperPath upperMem sameDir sameRevision
    rcases invariant.race txnId other less txnLive live lowerPath lowerMem upperPath upperMem
      sameDir sameRevision with notChecked | ⟨isLogged, _⟩
    · exact absurd (allChecked lowerPath) notChecked
    · simp [unlogged] at isLogged

omit [DecidableEq Directory] in
/-- A transaction leaves `seal` or a cleanup. -/
theorem reopen (invariant : world.Invariant) (txnId : TransactionId) :
    (world.setWriter txnId { world.writers txnId with phase := .running }).Invariant := by
  have before := invariant.writer txnId
  have checkedBefore : ∀ path,
      Writer.SealChecked (world.endTime txnId) { world.writers txnId with phase := .running } path →
        (world.writers txnId).SealChecked (world.endTime txnId) path := by
    intro path checked
    left
    simpa [Writer.SealChecked] using checked
  apply invariant.setWriter
  · exact { before with
      sealingOpen := by simp
      sealingTime := by simp
      abortingFailed := by simp
      loggedPhase := fun isLogged => ⟨Or.inr rfl, (before.loggedPhase isLogged).2⟩ }
  · intro other less live txnLive lowerPath lowerMem upperPath upperMem sameDir sameRevision
    have raced := invariant.race other txnId less live txnLive lowerPath lowerMem upperPath upperMem
      sameDir sameRevision
    exact raced.imp_right fun both => ⟨both.1, fun checked => both.2 (checkedBefore _ checked)⟩
  · intro other less txnLive live lowerPath lowerMem upperPath upperMem sameDir sameRevision
    have raced := invariant.race txnId other less txnLive live lowerPath lowerMem upperPath upperMem
      sameDir sameRevision
    exact raced.imp_left fun notChecked checked => notChecked (checkedBefore _ checked)

theorem deleteFile (invariant : world.Invariant) {txnId : TransactionId} {deletesLog : Bool}
    {path : RevisionPath Directory} {remaining : List (RevisionPath Directory)}
    (isAborting : (world.writers txnId).phase = .aborting deletesLog)
    (isRemaining : (world.writers txnId).remaining = path :: remaining) :
    ({ world with files := world.files.filter (· ≠ path) }.setWriter txnId
      { world.writers txnId with remaining := remaining }).Invariant := by
  have before := invariant.writer txnId
  have hasFailed := before.abortingFailed deletesLog isAborting
  have pathOwned : path.2.txnId = txnId :=
    before.owned path (before.remainingWritten path (by simp [isRemaining]))
  apply invariant.act (fun _ _ => rfl)
  · intro other otherMem isOther
    have notPath : other ≠ path := by
      rintro rfl
      exact isOther pathOwned
    simp [otherMem, notPath]
  · exact fun other otherMem => invariant.wellNamed other (List.mem_of_mem_filter otherMem)
  · refine { before with
      present := by simp [hasFailed]
      remainingWritten := ?_
      loggedPhase := fun isLogged => absurd (before.loggedLive isLogged) (by simp [hasFailed]) }
    intro other otherMem
    exact before.remainingWritten other (by simp [isRemaining, otherMem])
  · exact fun other _ _ live => absurd live (by simp [hasFailed])
  · exact fun other _ live => absurd live (by simp [hasFailed])

omit [DecidableEq Directory] in
/-- The success log of a transaction whose validation has failed is deleted. -/
theorem deleteLog (invariant : world.Invariant) {txnId : TransactionId}
    (hasFailed : (world.writers txnId).hasFailed = true) (deletesLog : Bool) :
    ({ world with
      endTime := if deletesLog then Function.update world.endTime txnId none
        else world.endTime }.setWriter txnId
          { world.writers txnId with phase := .running }).Invariant := by
  have before := invariant.writer txnId
  have unlogged : world.endTime txnId = none := by
    simpa [hasFailed] using before.loggedLive
  have same : Function.update world.endTime txnId none = world.endTime := by
    rw [← unlogged, Function.update_eq_self]
  rw [same, ite_self]
  exact invariant.reopen txnId

/-- Every disciplined step preserves the invariant. -/
theorem step (invariant : world.Invariant) {event : TransactionId × WriterAction Directory}
    {next : World Directory} (disciplined : world.Disciplined event)
    (stepped : world.Step event next) : next.Invariant := by
  rcases event with ⟨txnId, action⟩
  simp only [Step] at stepped
  cases action with
  | newRevision directory opType ignoreExisting =>
      simp only [World.step] at stepped
      split at stepped
      case isTrue enabled =>
        split at stepped
        case h_1 mri isNew =>
          rcases newRevision_ok (invariant.wellNamed_filesIn directory) isNew with
            ⟨own, isOp, positive, bounded⟩
          cases stepped
          apply invariant.setPending enabled.1 disciplined
          refine ⟨own, ?_, positive, ?_⟩
          · rw [isOp]
            exact enabled.2.2
          · apply lt_of_le_of_lt bounded
            norm_num [maxRevisionNumber]
        case h_2 =>
          split at stepped
          · cases stepped
            exact invariant
          · cases stepped
            exact invariant.abort disciplined false
      case isFalse => cases stepped
  | failStep =>
      simp only [World.step] at stepped
      split at stepped
      case isTrue =>
        cases stepped
        exact invariant.abort disciplined false
      case isFalse => cases stepped
  | writeRevision =>
      simp only [World.step] at stepped
      split at stepped
      case h_1 path isRunning isPending =>
        cases stepped
        exact invariant.writeRevision isRunning isPending (disciplined path isPending)
      case h_2 => cases stepped
  | check =>
      simp only [World.step] at stepped
      split at stepped
      case h_1 => cases stepped
      case h_2 path remaining isRemaining =>
        split at stepped
        case isTrue phase =>
          split at stepped
          case h_1 passed =>
            cases stepped
            exact invariant.passCheck isRemaining phase (disciplined path (by simp [isRemaining]))
              passed
          case h_2 =>
            cases stepped
            apply invariant.abort
            rw [← Option.not_isSome_iff_eq_none]
            intro isLogged
            simpa [isRemaining] using ((invariant.writer txnId).loggedPhase isLogged).2.2
        case isFalse => cases stepped
  | beginSeal endTime =>
      simp only [World.step] at stepped
      split at stepped
      case isTrue enabled =>
        cases stepped
        exact invariant.beginSeal enabled.2.1 enabled.2.2.2 disciplined.1 disciplined.2.1
          disciplined.2.2
      case isFalse => cases stepped
  | writeSuccessLog =>
      simp only [World.step] at stepped
      split at stepped
      case isTrue enabled =>
        cases stepped
        exact invariant.writeSuccessLog enabled.1 enabled.2
      case isFalse => cases stepped
  | validate =>
      simp only [World.step] at stepped
      split at stepped
      case isTrue isLogged =>
        split at stepped
        case isTrue outOfOrder =>
          -- The end time of a disciplined log is never before the start time.
          rcases Option.any_eq_true_iff_get _ _ |>.mp outOfOrder with ⟨present, earlier⟩
          have inOrder := ((invariant.writer txnId).loggedTime _ (Option.get_mem present)).2.2
          simp only [decide_eq_true_eq] at earlier
          omega
        case isFalse =>
          cases stepped
          exact invariant.reopen txnId
      case isFalse => cases stepped
  | deleteFile =>
      simp only [World.step] at stepped
      split at stepped
      case h_1 path remaining isAborting isRemaining =>
        cases stepped
        exact invariant.deleteFile isAborting isRemaining
      case h_2 => cases stepped
  | deleteLog =>
      simp only [World.step] at stepped
      split at stepped
      case h_1 deletesLog isAborting _ =>
        cases stepped
        exact invariant.deleteLog ((invariant.writer txnId).abortingFailed deletesLog isAborting)
          deletesLog
      case h_2 => cases stepped

end Invariant

/-- A transaction that started first. -/
def lowerTxn : TransactionId := .numbered 10 0

/-- A transaction that started second and overlaps the first. -/
def upperTxn : TransactionId := .numbered 11 1

/--
The upper transaction begins after the lower one has passed its last check and
commits before the lower one has written its success log.
-/
def racingEvents : List (TransactionId × WriterAction Unit) :=
  [(lowerTxn, .newRevision () .create false), (lowerTxn, .writeRevision), (lowerTxn, .check),
    (lowerTxn, .beginSeal 21), (lowerTxn, .check), (upperTxn, .newRevision () .create false),
    (upperTxn, .writeRevision), (upperTxn, .check), (upperTxn, .beginSeal 20), (upperTxn, .check),
    (upperTxn, .writeSuccessLog), (upperTxn, .validate), (lowerTxn, .writeSuccessLog),
    (lowerTxn, .validate)]

private theorem racingEvents_performed :
    (racingEvents.foldlM (fun (world : World Unit) event => world.step event.1 event.2)
      initial).isSome := by
  decide +kernel

section Solo

/-- The worlds of a run in which only the lower transaction takes steps. -/
private def solo (files : List (RevisionPath Unit)) (log : Option ℕ) (writer : Writer Unit) :
    World Unit where
  files := files
  endTime := Function.update (fun _ => none) lowerTxn log
  writers := Function.update (fun _ => Writer.start) lowerTxn writer

private def soloPath : RevisionPath Unit := ((), ⟨1, .create, lowerTxn⟩)

/-- The lower transaction after it has written its file. -/
private def soloWriter (phase : WriterPhase) (endTime : Option ℕ)
    (remaining : List (RevisionPath Unit)) : Writer Unit where
  phase := phase
  endTime := endTime
  hasFailed := false
  pending := none
  written := [soloPath]
  remaining := remaining

variable {files : List (RevisionPath Unit)} {log : Option ℕ} {writer : Writer Unit}

private theorem solo_writers : (solo files log writer).writers lowerTxn = writer := by
  simp [solo]

private theorem solo_setWriter (next : Writer Unit) :
    (solo files log writer).setWriter lowerTxn next = solo files log next := by
  simp [solo, setWriter]

private theorem solo_newRevision :
    (solo [] none Writer.start).step lowerTxn (.newRevision () .create false) =
      some (solo [] none ⟨.running, none, false, some soloPath, [], []⟩) := by
  have isNew : MetafileRevisionInfo.newRevision
      ((solo [] none Writer.start).filesIn ()) .create lowerTxn.startTime lowerTxn
        (solo [] none Writer.start).endTime = .ok soloPath.2 := by
    decide +kernel
  rw [step, solo_writers, isNew]
  exact congrArg some (solo_setWriter _)

private theorem solo_writeRevision :
    (solo [] none ⟨.running, none, false, some soloPath, [], []⟩).step lowerTxn .writeRevision =
      some (solo [soloPath] none (soloWriter .running none [soloPath])) := by
  simp [step, solo, setWriter, soloWriter]

private theorem solo_check {phase : WriterPhase} (endTime : Option ℕ)
    (checks : phase = .running ∨ phase = .sealing) :
    (solo [soloPath] none (soloWriter phase endTime [soloPath])).step lowerTxn .check =
      some (solo [soloPath] none (soloWriter phase endTime [])) := by
  have passed : checkForConcurrentTxnConflict
      ((solo [soloPath] none Writer.start).filesIn soloPath.1)
        (solo [soloPath] none Writer.start).endTime soloPath.2 = .ok () := by
    decide +kernel
  have isChecked : checkForConcurrentTxnConflict
      ((solo [soloPath] none (soloWriter phase endTime [soloPath])).filesIn soloPath.1)
        (solo [soloPath] none (soloWriter phase endTime [soloPath])).endTime soloPath.2 =
          .ok () := passed
  rw [step, solo_writers]
  simp only [soloWriter, checks, if_true] at isChecked ⊢
  rw [isChecked]
  simp only [solo_setWriter]

private theorem solo_check_disciplined (phase : WriterPhase) (endTime : Option ℕ) :
    (solo [soloPath] none (soloWriter phase endTime [soloPath])).Disciplined
      (lowerTxn, .check) := by
  intro path isNext
  rw [solo_writers] at isNext
  cases isNext
  have single :
      (solo [soloPath] none (soloWriter phase endTime [soloPath])).filesIn soloPath.1 =
        [soloPath.2] := by
    simp [filesIn, solo]
  rw [single]
  decide

private theorem solo_beginSeal :
    (solo [soloPath] none (soloWriter .running none [])).step lowerTxn (.beginSeal 20) =
      some (solo [soloPath] none (soloWriter .sealing (some 20) [soloPath])) := by
  simp [step, solo_writers, solo_setWriter, soloWriter]

private theorem solo_writeSuccessLog :
    (solo [soloPath] none (soloWriter .sealing (some 20) [])).step lowerTxn .writeSuccessLog =
      some (solo [soloPath] (some 20) (soloWriter .logged (some 20) [])) := by
  simp [step, solo, setWriter, soloWriter]

private theorem solo_snoc {start before after : World Unit} {action : WriterAction Unit}
    {events : List (TransactionId × WriterAction Unit)}
    (run : Run (Guarded Disciplined Step) start events before)
    (disciplined : before.Disciplined (lowerTxn, action))
    (stepped : before.step lowerTxn action = some after) :
    Run (Guarded Disciplined Step) start (events ++ [(lowerTxn, action)]) after :=
  run.snoc ⟨disciplined, stepped⟩

end Solo

end World

end Deltacat.Storage
