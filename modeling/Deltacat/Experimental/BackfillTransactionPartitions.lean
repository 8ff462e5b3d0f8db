import Deltacat.Library.Run
import Deltacat.Storage.TransactionLog
import Mathlib.Tactic

/-!
# Migration of transaction logs

Older catalogs keep the logs of completed transactions directly in the directory
of their status; readers look for them below the directories of their start
times. The migration moves them there. It first counts the logs of both
directories and returns if there are none, then lists each directory again and
moves what it finds, in parallel. Any number of processes may migrate the same
catalog, and any of them may stop at any point.

A log is an item of a status directory, a directory for a successful transaction
and a file for a failed one, and is moved as a whole; its content is opaque.

An exception while the logs are counted is taken for a missing directory. If
nothing else is counted the migration then returns without having moved anything
(`not_migrated_run`). Unless that happens to a directory with logs to be moved,
every log that was there when a run began is where readers find it when the run
returns (`migrated_run`).
-/

namespace Deltacat.Experimental

open Deltacat.Library Deltacat.Storage Deltacat.Utils

universe u

/-- The directories `SUCCESS_TXN_DIR_NAME` and `FAILED_TXN_DIR_NAME`. -/
inductive LogStatus
  | success
  | failed
  deriving DecidableEq

/-- What lies below a status directory, by its path. -/
abbrev StatusDirectory (Content : Type u) := List (List String × Content)

namespace StatusDirectory

variable {Content : Type u}

def contentAt (directory : StatusDirectory Content) (path : List String) : Option Content :=
  (directory.find? (·.1 = path)).map (·.2)

/-- `list_directory`. -/
def listDirectory (directory : StatusDirectory Content) : List String :=
  ((directory.filterMap (·.1.head?)).dedup.filter fun name => !hasExcludedPrefix name).insertionSort
    fun left right => right ≤ left

/-- `move`, which fails when the source is gone. -/
def move (directory : StatusDirectory Content) (source destination : List String) :
    Option (StatusDirectory Content) :=
  if (directory.contentAt source).isSome then
    some ((directory.filter (·.1 ≠ destination)).map fun item =>
      if item.1 = source then (destination, item.2) else item)
  else none

def isTransactionId (name : String) : Bool :=
  (parseTransactionId name).isOk

/-- The items that are counted and moved. -/
def transactionItems (directory : StatusDirectory Content) : List String :=
  directory.listDirectory.filter isTransactionId

/-- The logs that lie directly in the directory. -/
def flatLogs (directory : StatusDirectory Content) : List String :=
  (directory.filterMap fun item => if item.1.length = 1 then item.1.head? else none).filter
    isTransactionId

/-- `_migrate_single_transaction`, of a valid item. -/
def migrateSingleTransaction (directory : StatusDirectory Content) (txnId : String) :
    Except Error (StatusDirectory Content) :=
  match partitionedTxnLogPath txnId with
  | .error _ => .error .runtimeError
  | .ok destinationPath =>
      match directory.move [txnId] destinationPath with
      | none => .error .runtimeError
      | some moved => .ok moved

end StatusDirectory

namespace StatusDirectory

variable {Content : Type u} {directory moved : StatusDirectory Content}

theorem contentAt_move {source destination : List String} (distinct : source ≠ destination)
    (isMoved : directory.move source destination = some moved) (path : List String) :
    moved.contentAt path =
      if path = destination then directory.contentAt source
      else if path = source then none else directory.contentAt path := by
  simp only [move] at isMoved
  split at isMoved
  · cases isMoved
    clear * - distinct
    induction directory with
    | nil => simp [contentAt]
    | cons item directory ih =>
        simp only [contentAt] at ih ⊢
        grind
  · cases isMoved

theorem path_ne_flat {txnId : String} {path : List String}
    (isPath : partitionedTxnLogPath txnId = .ok path) (other : String) : path ≠ [other] := by
  rcases partitionedTxnLogPath_ok isPath with ⟨dirs, length, rfl⟩
  intro same
  have sameLength := congrArg List.length same
  simp [length] at sameLength

theorem path_injective {txnId other : String} {path : List String}
    (isPath : partitionedTxnLogPath txnId = .ok path)
    (isOther : partitionedTxnLogPath other = .ok path) : txnId = other := by
  rcases partitionedTxnLogPath_ok isPath with ⟨dirs, _, rfl⟩
  rcases partitionedTxnLogPath_ok isOther with ⟨otherDirs, _, same⟩
  simpa using (List.append_inj' same rfl).2

/-- The log lies directly in the directory. -/
def IsFlat (directory : StatusDirectory Content) (txnId : String) : Prop :=
  (directory.contentAt [txnId]).isSome

/-- The log is where it is looked up. -/
def IsFound (directory : StatusDirectory Content) (txnId : String) : Prop :=
  ∃ path, partitionedTxnLogPath txnId = .ok path ∧ (directory.contentAt path).isSome

theorem isFlat_iff {txnId : String} :
    directory.IsFlat txnId ↔ ∃ item ∈ directory, item.1 = [txnId] := by
  simp [IsFlat, contentAt, List.find?_isSome]

theorem mem_flatLogs {txnId : String} :
    txnId ∈ directory.flatLogs ↔ directory.IsFlat txnId ∧ isTransactionId txnId := by
  have flat : ∀ path : List String,
      (if path.length = 1 then path.head? else none) = some txnId ↔ path = [txnId] := by
    intro path
    rcases path with _ | ⟨name, _ | ⟨next, rest⟩⟩ <;> simp
  simp only [flatLogs, List.mem_filter, List.mem_filterMap, flat, isFlat_iff]

theorem mem_transactionItems {txnId : String} (isFlat : directory.IsFlat txnId)
    (isLog : isTransactionId txnId) : txnId ∈ directory.transactionItems := by
  rcases isFlat_iff.mp isFlat with ⟨item, itemMem, isPath⟩
  have visible : hasExcludedPrefix txnId = false := by
    cases parsed : parseTransactionId txnId with
    | error error => simp [isTransactionId, parsed, Except.isOk, Except.toBool] at isLog
    | ok parts => exact hasExcludedPrefix_of_parseTransactionId parsed
  simp only [transactionItems, listDirectory, List.mem_filter, List.mem_insertionSort,
    List.mem_dedup, List.mem_filterMap]
  exact ⟨⟨⟨item, itemMem, by simp [isPath]⟩, by simp [visible]⟩, isLog⟩

/-- What one successful move does. -/
structure Moves (before : StatusDirectory Content) (txnId : String) (path : List String)
    (after : StatusDirectory Content) : Prop where
  isPath : partitionedTxnLogPath txnId = .ok path
  source : before.IsFlat txnId
  contentAt : ∀ other, after.contentAt other =
    if other = path then before.contentAt [txnId]
    else if other = [txnId] then none else before.contentAt other

theorem migrateSingleTransaction_ok {txnId : String}
    (migrated : directory.migrateSingleTransaction txnId = .ok moved) :
    ∃ path, Moves directory txnId path moved := by
  simp only [migrateSingleTransaction] at migrated
  split at migrated
  · cases migrated
  rename_i path isPath
  split at migrated
  · cases migrated
  rename_i isMoved
  cases migrated
  refine ⟨path, isPath, ?_, contentAt_move (path_ne_flat isPath txnId).symm isMoved⟩
  simp only [move] at isMoved
  split at isMoved
  · assumption
  · cases isMoved

namespace Moves

variable {before after : StatusDirectory Content} {txnId : String} {path : List String}

theorem contentAt_flat (moves : Moves before txnId path after) {other : String}
    (isOther : other ≠ txnId) : after.contentAt [other] = before.contentAt [other] := by
  rw [moves.contentAt, if_neg (path_ne_flat moves.isPath other).symm,
    if_neg (by simpa using isOther)]

theorem contentAt_path (moves : Moves before txnId path after) {other : String}
    {otherPath : List String} (isOther : other ≠ txnId)
    (isPath : partitionedTxnLogPath other = .ok otherPath) :
    after.contentAt otherPath = before.contentAt otherPath := by
  rw [moves.contentAt, if_neg, if_neg (path_ne_flat isPath txnId)]
  rintro rfl
  exact isOther (path_injective isPath moves.isPath)

theorem isFound (moves : Moves before txnId path after) : after.IsFound txnId := by
  refine ⟨path, moves.isPath, ?_⟩
  rw [moves.contentAt, if_pos rfl]
  exact moves.source

theorem isFound_mono (moves : Moves before txnId path after) {other : String}
    (found : before.IsFound other) : after.IsFound other := by
  by_cases isOther : other = txnId
  · exact isOther ▸ moves.isFound
  · rcases found with ⟨otherPath, isPath, present⟩
    exact ⟨otherPath, isPath, by rwa [moves.contentAt_path isOther isPath]⟩

/-- A log that is there stays there, at one path or the other. -/
theorem present_mono (moves : Moves before txnId path after) {other : String}
    (present : before.IsFlat other ∨ before.IsFound other) :
    after.IsFlat other ∨ after.IsFound other := by
  by_cases isOther : other = txnId
  · exact .inr (isOther ▸ moves.isFound)
  · rcases present with flat | found
    · left
      rwa [IsFlat, moves.contentAt_flat isOther]
    · exact .inr (moves.isFound_mono found)

end Moves

/-- Every log is at one of its paths, as at the start, and none is at both. -/
structure Kept (start now : StatusDirectory Content) : Prop where
  separate : ∀ txnId path, partitionedTxnLogPath txnId = .ok path → now.IsFlat txnId →
    now.contentAt path = none
  kept : ∀ txnId path content, partitionedTxnLogPath txnId = .ok path →
    (start.contentAt [txnId] = some content ∨ start.contentAt path = some content) →
      now.contentAt [txnId] = some content ∨ now.contentAt path = some content

theorem Kept.move {start before after : StatusDirectory Content} {txnId : String}
    {path : List String} (kept : Kept start before) (moves : Moves before txnId path after) :
    Kept start after where
  separate := by
    intro other otherPath isPath flat
    by_cases isOther : other = txnId
    · subst isOther
      rw [IsFlat, moves.contentAt, if_neg (path_ne_flat moves.isPath other).symm,
        if_pos rfl] at flat
      cases flat
    · rw [IsFlat, moves.contentAt_flat isOther] at flat
      rw [moves.contentAt_path isOther isPath]
      exact kept.separate other otherPath isPath flat
  kept := by
    intro other otherPath content isPath atStart
    have atOne := kept.kept other otherPath content isPath atStart
    by_cases isOther : other = txnId
    · subst isOther
      obtain rfl : path = otherPath := by
        simpa [moves.isPath] using isPath
      right
      rw [moves.contentAt, if_pos rfl]
      rcases atOne with flat | partitioned
      · exact flat
      · have none := kept.separate other path isPath moves.source
        rw [none] at partitioned
        cases partitioned
    · rwa [moves.contentAt_flat isOther, moves.contentAt_path isOther isPath]

end StatusDirectory

/-- How far a run of `backfill_transaction_partitions` has come. -/
inductive MigrationPhase
  | idle
  | counting (remaining : List LogStatus) (totalTransactions : ℕ)
  | listing (remaining : List LogStatus)
  | moving (status : LogStatus) (pending : List String) (failed : Bool) (remaining : List LogStatus)
  | returned
  | raised
  deriving DecidableEq

/-- A process, with the logs that were not migrated when its run began. -/
structure Migration where
  phase : MigrationPhase
  flatAtStart : List (LogStatus × String)

structure MigratedCatalog (Content : Type u) where
  directories : LogStatus → StatusDirectory Content
  migrations : ℕ → Migration

/--
The steps of the processes. Listing a directory may fail, and so may moving an
item for other reasons than a missing source.
-/
inductive MigrationEvent
  | start (process : ℕ) (catalogVersion : Option String)
  | count (process : ℕ) (fails : Bool)
  | list (process : ℕ) (fails : Bool)
  | move (process : ℕ) (txnId : String) (fails : Bool)
  | finish (process : ℕ)
  | crash (process : ℕ)

namespace MigratedCatalog

variable {Content : Type u}

open StatusDirectory MigrationPhase

def setMigration (state : MigratedCatalog Content) (process : ℕ) (migration : Migration) :
    MigratedCatalog Content :=
  { state with migrations := Function.update state.migrations process migration }

def setPhase (state : MigratedCatalog Content) (process : ℕ) (phase : MigrationPhase) :
    MigratedCatalog Content :=
  state.setMigration process ⟨phase, (state.migrations process).flatAtStart⟩

/-- The logs that are still to be migrated. -/
def flatLogs (state : MigratedCatalog Content) : List (LogStatus × String) :=
  [LogStatus.success, LogStatus.failed].flatMap fun status =>
    (state.directories status).flatLogs.map (status, ·)

def setDirectory (state : MigratedCatalog Content) (status : LogStatus)
    (directory : StatusDirectory Content) : MigratedCatalog Content :=
  { state with directories := Function.update state.directories status directory }

/-- The next status directory, or the end of the run. -/
def nextDirectory : List LogStatus → MigrationPhase
  | [] => returned
  | remaining => listing remaining

/-- The end of the counting pass, or its next directory. -/
def nextCount (totalTransactions : ℕ) : List LogStatus → MigrationPhase
  | [] => if totalTransactions = 0 then returned else listing [.success, .failed]
  | remaining => counting remaining totalTransactions

def step (currentVersion : String) (state : MigratedCatalog Content) :
    MigrationEvent → Option (MigratedCatalog Content)
  | .start process catalogVersion =>
      match (state.migrations process).phase with
      | idle | returned | raised =>
          if catalogVersion.any (· ≠ currentVersion) then
            some (state.setMigration process ⟨raised, state.flatLogs⟩)
          else
            some (state.setMigration process ⟨counting [.success, .failed] 0, state.flatLogs⟩)
      | _ => none
  | .count process fails =>
      match (state.migrations process).phase with
      | counting (status :: remaining) totalTransactions =>
          let counted := if fails then 0 else (state.directories status).transactionItems.length
          some (state.setPhase process (nextCount (totalTransactions + counted) remaining))
      | _ => none
  | .list process fails =>
      match (state.migrations process).phase with
      | listing (status :: remaining) =>
          if fails then some (state.setPhase process raised)
          else
            match (state.directories status).transactionItems with
            | [] => some (state.setPhase process (nextDirectory remaining))
            | items => some (state.setPhase process (moving status items false remaining))
      | _ => none
  -- The items are moved in any order; after a failure some may still be moved.
  | .move process txnId fails =>
      match (state.migrations process).phase with
      | moving status pending failed remaining =>
          if txnId ∈ pending then
            match fails, (state.directories status).migrateSingleTransaction txnId with
            | false, .ok moved =>
                some ((state.setDirectory status moved).setPhase process
                  (moving status (pending.erase txnId) failed remaining))
            | _, _ =>
                some (state.setPhase process
                  (moving status (pending.erase txnId) true remaining))
          else none
      | _ => none
  | .finish process =>
      match (state.migrations process).phase with
      | moving _ pending failed remaining =>
          if failed then some (state.setPhase process raised)
          else if pending = [] then some (state.setPhase process (nextDirectory remaining))
          else none
      | _ => none
  | .crash process => some (state.setPhase process idle)

def Step (currentVersion : String) (state : MigratedCatalog Content) (event : MigrationEvent)
    (next : MigratedCatalog Content) : Prop :=
  state.step currentVersion event = some next

/--
Every log is at exactly one of its two paths, with the content it had at the
start, and every log that was not migrated when a run began that has returned is
at the path where it is looked up.
-/
def Migrated (start state : MigratedCatalog Content) : Prop :=
  (∀ status txnId path content, partitionedTxnLogPath txnId = .ok path →
    ((start.directories status).contentAt [txnId] = some content ∨
      (start.directories status).contentAt path = some content) →
    ((state.directories status).contentAt [txnId] = some content ∧
        (state.directories status).contentAt path = none) ∨
      ((state.directories status).contentAt [txnId] = none ∧
        (state.directories status).contentAt path = some content)) ∧
  ∀ process, (state.migrations process).phase = returned →
    ∀ log ∈ (state.migrations process).flatAtStart, ∃ path,
      partitionedTxnLogPath log.2 = .ok path ∧
        ((state.directories log.1).contentAt path).isSome

/-- No process is running, and no log is at both of its paths. -/
structure Starts (state : MigratedCatalog Content) : Prop where
  idle : ∀ process, state.migrations process = ⟨idle, []⟩
  separate : ∀ status txnId path, partitionedTxnLogPath txnId = .ok path →
    ((state.directories status).contentAt [txnId]).isSome →
      (state.directories status).contentAt path = none

/-- The directory that is counted next holds no log to be moved, or others were counted before. -/
def MayBeSkipped (directories : LogStatus → StatusDirectory Content) : MigrationPhase → Prop
  | counting (status :: _) totalTransactions =>
      totalTransactions ≠ 0 ∨ (directories status).flatLogs = []
  | _ => True

/--
The condition on a step: a directory that cannot be listed when logs are counted
may be skipped.
-/
def ListsLogs (state : MigratedCatalog Content) : MigrationEvent → Prop
  | .count process true => MayBeSkipped state.directories (state.migrations process).phase
  | _ => True

instance (directories : LogStatus → StatusDirectory Content) (phase : MigrationPhase) :
    Decidable (MayBeSkipped directories phase) :=
  match phase with
  | counting (_ :: _) _ => inferInstanceAs (Decidable (_ ∨ _))
  | idle | listing _ | moving _ _ _ _ | returned | raised | counting [] _ =>
      inferInstanceAs (Decidable True)

instance (state : MigratedCatalog Content) (event : MigrationEvent) :
    Decidable (state.ListsLogs event) :=
  match event with
  | .count _ true => inferInstanceAs (Decidable (MayBeSkipped _ _))
  | .count _ false | .start _ _ | .list _ _ | .move _ _ _ | .finish _ | .crash _ =>
      inferInstanceAs (Decidable True)

/-- What holds of a run, given the status directories. -/
def PhaseInvariant (directories : LogStatus → StatusDirectory Content)
    (flatAtStart : List (LogStatus × String)) : MigrationPhase → Prop
  | idle | raised => True
  | counting remaining totalTransactions =>
      totalTransactions = 0 → ∀ log ∈ flatAtStart, log.1 ∉ remaining →
        (directories log.1).IsFound log.2
  | listing remaining =>
      ∀ log ∈ flatAtStart, log.1 ∉ remaining → (directories log.1).IsFound log.2
  | moving status pending failed remaining =>
      failed = false → ∀ log ∈ flatAtStart, log.1 ∉ remaining →
        (directories log.1).IsFound log.2 ∨ (log.1 = status ∧ log.2 ∈ pending)
  | returned => ∀ log ∈ flatAtStart, (directories log.1).IsFound log.2

structure MigrationInvariant (directories : LogStatus → StatusDirectory Content)
    (migration : Migration) : Prop where
  present : ∀ log ∈ migration.flatAtStart, isTransactionId log.2 ∧
    ((directories log.1).IsFlat log.2 ∨ (directories log.1).IsFound log.2)
  phase : PhaseInvariant directories migration.flatAtStart migration.phase

structure Invariant (start state : MigratedCatalog Content) : Prop where
  kept : ∀ status, Kept (start.directories status) (state.directories status)
  migration : ∀ process, MigrationInvariant state.directories (state.migrations process)

theorem PhaseInvariant.mono {directories later : LogStatus → StatusDirectory Content}
    {flatAtStart : List (LogStatus × String)} {phase : MigrationPhase}
    (found : ∀ log ∈ flatAtStart, (directories log.1).IsFound log.2 →
      (later log.1).IsFound log.2)
    (invariant : PhaseInvariant directories flatAtStart phase) :
    PhaseInvariant later flatAtStart phase := by
  cases phase with
  | idle => trivial
  | raised => trivial
  | counting remaining totalTransactions =>
      exact fun none log logMem done => found log logMem (invariant none log logMem done)
  | listing remaining => exact fun log logMem done => found log logMem (invariant log logMem done)
  | moving status pending failed remaining =>
      intro unfailed log logMem done
      rcases invariant unfailed log logMem done with isFound | isPending
      · exact .inl (found log logMem isFound)
      · exact .inr isPending
  | returned => exact fun log logMem => found log logMem (invariant log logMem)

namespace Invariant

variable {start state : MigratedCatalog Content}

theorem initially (starts : start.Starts) : start.Invariant start where
  kept := fun status =>
    { separate := starts.separate status
      kept := fun _ _ _ _ atStart => atStart }
  migration := fun process => by
    rw [starts.idle process]
    exact ⟨by simp, trivial⟩

theorem migrated (invariant : start.Invariant state) : start.Migrated state := by
  constructor
  · intro status txnId path content isPath atStart
    have kept := invariant.kept status
    rcases kept.kept txnId path content isPath atStart with flat | partitioned
    · left
      exact ⟨flat, kept.separate txnId path isPath (by simp [IsFlat, flat])⟩
    · right
      refine ⟨?_, partitioned⟩
      by_contra isFlat
      have absent := kept.separate txnId path isPath (Option.isSome_iff_ne_none.mpr isFlat)
      simp [absent] at partitioned
  · intro process isReturned
    have phase := (invariant.migration process).phase
    rw [isReturned] at phase
    exact phase

/-- A step of a run that moves nothing. -/
theorem setMigration (invariant : start.Invariant state) {process : ℕ} {migration : Migration}
    (own : MigrationInvariant state.directories migration) :
    start.Invariant (state.setMigration process migration) where
  kept := invariant.kept
  migration := by
    intro other
    by_cases isProcess : other = process
    · subst isProcess
      simpa [MigratedCatalog.setMigration] using own
    · simpa [MigratedCatalog.setMigration, Function.update_of_ne isProcess] using
        invariant.migration other

theorem setPhase (invariant : start.Invariant state) {process : ℕ} {phase : MigrationPhase}
    (next : PhaseInvariant state.directories (state.migrations process).flatAtStart phase) :
    start.Invariant (state.setPhase process phase) :=
  invariant.setMigration ⟨(invariant.migration process).present, next⟩

/-- A log is moved. -/
theorem move (invariant : start.Invariant state) {status : LogStatus} {txnId : String}
    {path : List String} {moved : StatusDirectory Content}
    (moves : Moves (state.directories status) txnId path moved) :
    start.Invariant (state.setDirectory status moved) := by
  have found : ∀ (other : LogStatus) (name : String), (state.directories other).IsFound name →
      (Function.update state.directories status moved other).IsFound name := by
    intro other name isFound
    by_cases isStatus : other = status
    · subst isStatus
      simpa using moves.isFound_mono isFound
    · simpa [Function.update_of_ne isStatus] using isFound
  have present : ∀ (other : LogStatus) (name : String),
      ((state.directories other).IsFlat name ∨ (state.directories other).IsFound name) →
        (Function.update state.directories status moved other).IsFlat name ∨
          (Function.update state.directories status moved other).IsFound name := by
    intro other name isPresent
    by_cases isStatus : other = status
    · subst isStatus
      simpa using moves.present_mono isPresent
    · simpa [Function.update_of_ne isStatus] using isPresent
  constructor
  · intro other
    by_cases isStatus : other = status
    · subst isStatus
      simpa [setDirectory] using (invariant.kept other).move moves
    · simpa [setDirectory, Function.update_of_ne isStatus] using invariant.kept other
  · intro process
    have before := invariant.migration process
    constructor
    · intro log logMem
      exact ⟨(before.present log logMem).1, present log.1 log.2 (before.present log logMem).2⟩
    · exact before.phase.mono fun log _ isFound => found log.1 log.2 isFound

theorem nextDirectory (remaining : List LogStatus)
    {directories : LogStatus → StatusDirectory Content} {flatAtStart : List (LogStatus × String)}
    (done : ∀ log ∈ flatAtStart, log.1 ∉ remaining → (directories log.1).IsFound log.2) :
    PhaseInvariant directories flatAtStart (MigratedCatalog.nextDirectory remaining) := by
  cases remaining with
  | nil => exact fun log logMem => done log logMem List.not_mem_nil
  | cons status remaining => exact done

theorem nextCount (remaining : List LogStatus) {totalTransactions : ℕ}
    {directories : LogStatus → StatusDirectory Content} {flatAtStart : List (LogStatus × String)}
    (counted : totalTransactions = 0 → ∀ log ∈ flatAtStart, log.1 ∉ remaining →
      (directories log.1).IsFound log.2) :
    PhaseInvariant directories flatAtStart
      (MigratedCatalog.nextCount totalTransactions remaining) := by
  cases remaining with
  | nil =>
      simp only [MigratedCatalog.nextCount]
      split
      · rename_i isZero
        exact fun log logMem => counted isZero log logMem List.not_mem_nil
      · intro log _ unlisted
        cases status : log.1 <;> simp [status] at unlisted
  | cons status remaining => exact counted

/-- A run begins. -/
theorem begin (state : MigratedCatalog Content) {phase : MigrationPhase}
    (begins : phase = raised ∨ phase = counting [.success, .failed] 0) :
    MigrationInvariant state.directories ⟨phase, state.flatLogs⟩ where
  present := by
    intro log logMem
    rcases List.mem_flatMap.mp logMem with ⟨status, _, inStatus⟩
    rcases List.mem_map.mp inStatus with ⟨txnId, isLog, rfl⟩
    have ⟨isFlat, isValid⟩ := mem_flatLogs.mp isLog
    exact ⟨isValid, .inl isFlat⟩
  phase := by
    rcases begins with rfl | rfl
    · trivial
    · intro _ log _ unlisted
      cases status : log.1 <;> simp [status] at unlisted

theorem step (currentVersion : String) {next : MigratedCatalog Content} {event : MigrationEvent}
    (invariant : start.Invariant state) (listsLogs : state.ListsLogs event)
    (stepped : state.Step currentVersion event next) : start.Invariant next := by
  cases event with
  | start process catalogVersion =>
      simp only [Step, MigratedCatalog.step] at stepped
      have begun : (if catalogVersion.any (· ≠ currentVersion) then
          some (state.setMigration process ⟨raised, state.flatLogs⟩)
        else
          some (state.setMigration process ⟨counting [.success, .failed] 0, state.flatLogs⟩)) =
            some next := by
        split at stepped <;> first | exact stepped | cases stepped
      split at begun
      · cases begun
        exact invariant.setMigration (begin state (.inl rfl))
      · cases begun
        exact invariant.setMigration (begin state (.inr rfl))
  | count process fails =>
      have own := invariant.migration process
      simp only [Step, MigratedCatalog.step] at stepped
      split at stepped
      · rename_i status remaining totalTransactions isCounting
        cases stepped
        have phase := own.phase
        rw [isCounting] at phase
        apply invariant.setPhase
        apply nextCount
        intro isZero log logMem listed
        by_cases isStatus : log.1 = status
        · have ⟨isLog, present⟩ := own.present log logMem
          refine present.resolve_left fun isFlat => ?_
          rw [isStatus] at isFlat
          cases fails with
          | true =>
              simp only [ListsLogs, isCounting, MayBeSkipped] at listsLogs
              rcases listsLogs with counted | noLogs
              · omega
              · have isFlatLog := mem_flatLogs.mpr ⟨isFlat, isLog⟩
                simp [noLogs] at isFlatLog
          | false =>
              have counted := List.length_pos_of_mem (mem_transactionItems isFlat isLog)
              simp only [Bool.false_eq_true, if_false] at isZero
              omega
        · exact phase (by omega) log logMem (by simp [isStatus, listed])
      · cases stepped
  | list process fails =>
      have own := invariant.migration process
      simp only [Step, MigratedCatalog.step] at stepped
      split at stepped
      · rename_i status remaining isListing
        have phase := own.phase
        rw [isListing] at phase
        -- What is still flat is among the listed items.
        have listed : ∀ log ∈ (state.migrations process).flatAtStart, log.1 ∉ remaining →
            (state.directories log.1).IsFound log.2 ∨
              (log.1 = status ∧ log.2 ∈ (state.directories status).transactionItems) := by
          intro log logMem isDone
          by_cases isStatus : log.1 = status
          · have ⟨isLog, present⟩ := own.present log logMem
            rcases present with isFlat | isFound
            · exact .inr ⟨isStatus, mem_transactionItems (isStatus ▸ isFlat) isLog⟩
            · exact .inl isFound
          · exact .inl (phase log logMem (by simp [isStatus, isDone]))
        split at stepped
        · cases stepped
          exact invariant.setPhase trivial
        split at stepped
        · rename_i noItems
          cases stepped
          apply invariant.setPhase
          apply nextDirectory
          intro log logMem isDone
          rcases listed log logMem isDone with isFound | ⟨_, isItem⟩
          · exact isFound
          · simp [noItems] at isItem
        · cases stepped
          exact invariant.setPhase fun _ => listed
      · cases stepped
  | move process txnId fails =>
      have own := invariant.migration process
      simp only [Step, MigratedCatalog.step] at stepped
      split at stepped
      · rename_i status pending failed remaining isMoving
        have phase := own.phase
        rw [isMoving] at phase
        split at stepped
        · split at stepped
          · rename_i moved migrated
            cases stepped
            rcases migrateSingleTransaction_ok migrated with ⟨path, moves⟩
            have after := invariant.move moves
            apply after.setPhase
            intro unfailed log logMem isDone
            have later : PhaseInvariant _ _ _ := isMoving ▸ (after.migration process).phase
            rcases later unfailed log logMem isDone with isFound | ⟨isStatus, isPending⟩
            · exact .inl isFound
            · by_cases isMoved : log.2 = txnId
              · left
                rw [isStatus, isMoved]
                simpa [setDirectory] using moves.isFound
              · exact .inr ⟨isStatus, (List.mem_erase_of_ne isMoved).mpr isPending⟩
          · cases stepped
            apply invariant.setPhase
            exact fun isFailed => absurd isFailed (by simp)
        · cases stepped
      · cases stepped
  | finish process =>
      have own := invariant.migration process
      simp only [Step, MigratedCatalog.step] at stepped
      split at stepped
      · rename_i status pending failed remaining isMoving
        have phase := own.phase
        rw [isMoving] at phase
        split at stepped
        · cases stepped
          exact invariant.setPhase trivial
        · rename_i unfailed
          split at stepped
          · rename_i allMoved
            cases stepped
            apply invariant.setPhase
            apply nextDirectory
            intro log logMem isDone
            rcases phase (by simpa using unfailed) log logMem isDone with isFound | ⟨_, isPending⟩
            · exact isFound
            · simp [allMoved] at isPending
          · cases stepped
      · cases stepped
  | crash process =>
      cases stepped
      exact invariant.setPhase trivial

end Invariant

/-- In every run whose counting passes list every directory with logs to be moved, none is lost. -/
theorem migrated_run (currentVersion : String) {start state : MigratedCatalog Content}
    (starts : start.Starts) {events : List MigrationEvent}
    (run : Run (Guarded ListsLogs (Step currentVersion)) start events state) :
    start.Migrated state := by
  apply Invariant.migrated
  apply run.invariant (Invariant.initially starts)
  intro before event next invariant ⟨listsLogs, stepped⟩
  exact invariant.step currentVersion listsLogs stepped

section Runs

/-- A transaction that started on the first of January 2025. -/
def newYear : String := "1735689600000000000_16fd2706-8baf-433b-82eb-8c7fada847da"

/-- The log of a successful transaction in the old layout. -/
def oldCatalog : MigratedCatalog Unit where
  directories := fun status => if status = .success then [([newYear], ())] else []
  migrations := fun _ => ⟨idle, []⟩

theorem oldCatalog_starts : oldCatalog.Starts where
  idle := fun _ => rfl
  separate := by
    intro status txnId path isPath _
    cases status with
    | success =>
        have distinct : [newYear] ≠ path := (path_ne_flat isPath newYear).symm
        simp [oldCatalog, contentAt, distinct]
    | failed => rfl

def migrates : List MigrationEvent :=
  [.start 0 none, .count 0 false, .count 0 true, .list 0 false, .move 0 newYear false, .finish 0,
    .list 0 false]

private theorem migrates_performed :
    (migrates.foldlM (guardedStep ListsLogs (step "2.0")) oldCatalog).any (fun state =>
      (state.migrations 0).phase = returned ∧
        (state.migrations 0).flatAtStart = [(.success, newYear)]) := by
  decide +kernel

/-- A run that returns; the directory that it could not count is empty. -/
theorem migrated_run_migrates :
    ∃ events state, Run (Guarded ListsLogs (Step "2.0")) oldCatalog events state ∧
      (state.migrations 0).phase = returned ∧
        (state.migrations 0).flatAtStart = [(.success, newYear)] ∧ oldCatalog.Migrated state := by
  rcases (Option.any_eq_true _ _).mp migrates_performed with ⟨state, performed, reached⟩
  have run : Run (Guarded ListsLogs (Step "2.0")) oldCatalog migrates state :=
    Run.of_foldlM_guardedStep performed
  have ⟨isReturned, flat⟩ := of_decide_eq_true reached
  exact ⟨migrates, state, run, isReturned, flat, migrated_run "2.0" oldCatalog_starts run⟩

/-- Neither directory can be listed when the logs are counted. -/
def countsNothing : List MigrationEvent := [.start 0 none, .count 0 true, .count 0 true]

private theorem countsNothing_performed :
    (countsNothing.foldlM (step "2.0") oldCatalog).any (fun state =>
      (state.migrations 0).phase = returned ∧
        (state.migrations 0).flatAtStart = [(.success, newYear)] ∧
          (state.directories .success).contentAt [newYear] = some ()) := by
  decide +kernel

/-- A run returns although it has moved nothing. -/
theorem not_migrated_run :
    ¬∀ (events : List MigrationEvent) (state : MigratedCatalog Unit),
      Run (Step "2.0") oldCatalog events state → oldCatalog.Migrated state := by
  intro alwaysMigrated
  rcases (Option.any_eq_true _ _).mp countsNothing_performed with ⟨state, performed, reached⟩
  have run : Run (Step "2.0") oldCatalog countsNothing state := Run.of_foldlM_eq_some performed
  have ⟨isReturned, flat, unmoved⟩ := of_decide_eq_true reached
  have ⟨exactlyOne, found⟩ := alwaysMigrated countsNothing state run
  rcases found 0 isReturned (.success, newYear) (by simp [flat]) with ⟨path, isPath, present⟩
  rcases exactlyOne .success newYear path () isPath (.inl rfl) with ⟨_, absent⟩ | ⟨moved, _⟩
  · simp [absent] at present
  · simp [unmoved] at moved

end Runs

end MigratedCatalog

end Deltacat.Experimental
