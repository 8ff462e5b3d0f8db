import Deltacat.Storage.AllOrNothing
import Deltacat.Storage.Delta
import Deltacat.Storage.LatestVersions
import Deltacat.Storage.Stream
import Deltacat.Storage.TableVersionSpec

/-!
# Which calls are all or nothing

The calls of the main storage implementation that write more than once:
`commit_stream`, `commit_partition`, `commit_delta`, `create_table_version` and
`update_table_version`. Lookups write nothing, and what they find depends on what
was written alone (`IsLookup`). All of these calls but `commit_stream` look
everything up and check it before they write. `commit_stream` replaces the
committed stream of its format before it compares that stream with the one that
was there at staging.
-/

namespace Deltacat.Storage

open Deltacat.Library Procedure ActiveTransaction

/-- A procedure that writes nothing, and returns what depends on what was written alone. -/
structure IsLookup {Value : Type} (procedure : TransactionM Value) : Prop where
  reads : ∀ start, Reads step (·.isWrite) procedure start
  observes : Observes written procedure

/-- What a lookup finds in a transaction. -/
def ActiveTransaction.Finds {Value : Type} (active : ActiveTransaction)
    (lookup : TransactionM Value) (value : Value) : Prop :=
  ∃ after, lookup active = .ok value after

section Lookups

variable {Value Result : Type}

theorem isLookup_pure (value : Value) : IsLookup (pure value : TransactionM Value) :=
  ⟨reads_pure value, observes_pure value⟩

theorem isLookup_throw (error : Error) : IsLookup (throw error : TransactionM Value) :=
  ⟨reads_throw error, observes_throw error⟩

theorem isLookup_ofExcept (result : Except Error Value) :
    IsLookup (ofExcept result : TransactionM Value) := by
  cases result with
  | error error => exact isLookup_throw error
  | ok value => exact isLookup_pure value

theorem IsLookup.bind {first : TransactionM Value} {rest : Value → TransactionM Result}
    (isFirst : IsLookup first) (isRest : ∀ value, IsLookup (rest value)) :
    IsLookup (first >>= rest) where
  reads := fun start => (isFirst.reads start).bind fun value middle _ =>
    (isRest value).reads middle
  observes := isFirst.observes.bind fun value => (isRest value).observes

theorem readStep_snd (active : ActiveTransaction) (operation : TransactionOperation) :
    (active.readStep operation).2 =
      active.catalog.readTxn (Catalog.readerOf active.transaction.id) operation := by
  unfold readStep
  split
  case h_1 isRead => exact isRead.symm
  case h_2 isRead => exact isRead.symm

theorem step_read_congr {active next : ActiveTransaction} {operation : TransactionOperation}
    (same : next.written = active.written) (isRead : operation.isWrite = false) :
    (next.step operation).2 = (active.step operation).2 := by
  have notWrite : ¬operation.isWrite := by
    simp [isRead]
  rw [step_read notWrite, step_read notWrite]
  simp only [readStep_snd, listed_catalog, listed_id, catalog_of_written same,
    id_of_written same]

/-- Each step of a procedure either succeeds or fails. -/
theorem outcome_step {returned : List TransactionOperation → Prop}
    {raised : List TransactionOperation → Error → Prop} {operation : TransactionOperation}
    (isReturned : returned [operation]) (start : ActiveTransaction) :
    Outcome step returned raised (TransactionM.step operation) start where
  ofReturn := by
    intro response final returns
    exact ⟨[operation], Run.nil.snoc ⟨response, TransactionM.step_eq_ok.mp returns⟩, isReturned⟩
  ofRaise := by
    intro error final raises
    exact ⟨[], start, Run.nil,
      Or.inr ⟨operation, error, TransactionM.step_eq_error.mp raises⟩⟩

theorem isLookup_step {operation : TransactionOperation} (isRead : operation.isWrite = false) :
    IsLookup (TransactionM.step operation) where
  reads := by
    apply outcome_step
    intro other otherMem
    rw [List.mem_singleton.mp otherMem]
    exact isRead
  observes := by
    intro start other final response same returns
    have isStep := TransactionM.step_eq_ok.mp returns
    have isFinal : (start.step operation).1 = final := congrArg Prod.fst isStep
    refine ⟨?_, (other.step operation).1, ?_⟩
    · rw [← isFinal]
      exact step_read_written isRead
    · apply TransactionM.step_eq_ok.mpr
      apply Prod.ext
      · rfl
      · rw [step_read_congr same.symm isRead, isStep]

theorem isLookup_latest (metafile : Metafile) : IsLookup (TransactionM.latest metafile) := by
  apply (isLookup_step rfl).bind
  intro response
  cases response <;> exact isLookup_pure _

theorem isLookup_isThere (metafile : Metafile) : IsLookup (TransactionM.isThere metafile) := by
  apply (isLookup_step rfl).bind
  intro response
  cases response <;> exact isLookup_pure _

theorem isLookup_getStreamOfFormat (namespaceName tableName tableVersion format : Option String) :
    IsLookup (getStreamOfFormat namespaceName tableName tableVersion format) := by
  unfold getStreamOfFormat
  simp only
  split
  · apply (isLookup_pure _).bind
    intro version
    apply isLookup_latest
  · unfold resolveLatestActiveTableVersionId
    apply IsLookup.bind
    · apply (isLookup_latest _).bind
      intro table
      cases table with
      | none => apply isLookup_throw
      | some table => apply isLookup_pure
    · intro version
      apply isLookup_latest

theorem isLookup_getStagedStream (tableVersionLocator : Locator) (streamId : String) :
    IsLookup (getStagedStream tableVersionLocator streamId) := by
  apply (isLookup_latest _).bind
  intro found
  cases found with
  | none => apply isLookup_throw
  | some stagedStream =>
      simp only
      split
      · apply isLookup_throw
      · apply isLookup_pure

theorem isLookup_partitionSchemeIdOf (stream : Metafile) :
    IsLookup (partitionSchemeIdOf stream) := by
  unfold partitionSchemeIdOf
  split
  · apply isLookup_throw
  · apply isLookup_pure

theorem isLookup_getPartition (streamLocator : Locator) (partitionValues : Option (List String))
    (partitionSchemeId : Option String) :
    IsLookup (getPartition streamLocator partitionValues partitionSchemeId) := by
  apply IsLookup.bind
  · unfold resolveStream
    split
    · apply (isLookup_getStreamOfFormat _ _ _ _).bind
      intro stream
      cases stream with
      | none => apply isLookup_throw
      | some stream =>
          apply (isLookup_partitionSchemeIdOf stream).bind
          intro schemeId
          apply isLookup_pure
    · apply isLookup_pure
  · intro resolved
    apply isLookup_latest

theorem isLookup_getStagedPartition (streamLocator : Locator) (partitionId : String) :
    IsLookup (getStagedPartition streamLocator partitionId) := by
  apply (isLookup_latest _).bind
  intro found
  cases found with
  | none => apply isLookup_throw
  | some stagedPartition =>
      simp only
      split
      · apply isLookup_throw
      · apply isLookup_pure

theorem isLookup_getPreviousPartition (partition : Metafile) (streamLocator : Locator) :
    IsLookup (getPreviousPartition partition streamLocator) := by
  unfold getPreviousPartition
  split
  · apply isLookup_pure
  · apply (isLookup_getPartition _ _ _).bind
    intro found
    cases found with
    | none => apply isLookup_pure
    | some committedPartition =>
        simp only
        split
        · apply isLookup_throw
        · split
          · apply isLookup_throw
          · apply isLookup_pure

theorem isLookup_getParentPartition (delta : Metafile) :
    IsLookup (getParentPartition delta) := by
  unfold getParentPartition
  split
  · apply isLookup_throw
  · simp only
    split
    · apply isLookup_throw
    · apply isLookup_latest
    · apply isLookup_getPartition

theorem isLookup_resolvePosition (delta parentPartition : Metafile)
    (unordered : UnorderedPosition) :
    IsLookup (resolvePosition delta parentPartition unordered) := by
  unfold resolvePosition
  split
  · simp only
    split
    · split
      · apply isLookup_throw
      · apply isLookup_pure
    · apply isLookup_pure
  · apply isLookup_pure

end Lookups

section Writes

variable {start : ActiveTransaction}

/-- The exceptions of checks. -/
abbrev IsCheck (error : Error) : Prop := error.isCheck = true

theorem writes_step (operation : TransactionOperation) (start : ActiveTransaction) :
    Writes step IsCheck (TransactionM.step operation) start :=
  outcome_step trivial start

theorem writes_latest (metafile : Metafile) (start : ActiveTransaction) :
    Writes step IsCheck (TransactionM.latest metafile) start := by
  apply (writes_step _ _).bind
  intro response middle _
  cases response <;> apply writes_pure

theorem writes_of_raises {Value : Type} {procedure : TransactionM Value}
    (ofReturn : ∀ {value final}, procedure start = .ok value final →
      ∃ operation response, start.step operation = (final, .ok response))
    (ofRaise : ∀ {error final}, procedure start = .error error final →
      ∃ operation failure, start.step operation = (final, .error failure)) :
    Writes step IsCheck procedure start where
  ofReturn := by
    intro value final returns
    rcases ofReturn returns with ⟨operation, response, isStep⟩
    exact ⟨[operation], Run.nil.snoc ⟨response, isStep⟩, trivial⟩
  ofRaise := by
    intro error final raises
    exact ⟨[], start, Run.nil, Or.inr (ofRaise raises)⟩

theorem writes_stepOr (operation : TransactionOperation) (alreadyExists : Error)
    (start : ActiveTransaction) :
    Writes step IsCheck (stepOr operation alreadyExists) start := by
  apply writes_of_raises
  · intro value final returns
    exact ⟨operation, TransactionM.stepOr_eq_ok returns⟩
  · intro error final raises
    exact ⟨operation, TransactionM.stepOr_eq_error raises⟩

end Writes

section Calls

variable {active : ActiveTransaction}

theorem writes_writeDelta (delta parentPartition : Metafile) (streamPosition : ℕ)
    (start : ActiveTransaction) :
    Writes step IsCheck (writeDelta delta parentPartition streamPosition) start := by
  apply (writes_stepOr _ _ _).bind
  intro _ middle _
  split
  · apply (writes_step _ _).bind
    intro _ after _
    apply writes_pure
  · apply writes_pure

theorem checksFirst_commitDelta (delta : Metafile) (properties : List (String × String))
    (unordered : UnorderedPosition) :
    ChecksFirst step (·.isWrite) IsCheck (commitDelta delta properties unordered) active := by
  apply ((isLookup_getParentPartition delta).reads active).bind_checksFirst
  intro parentPartition middle _
  cases parentPartition with
  | none => exact (reads_throw _ _).checksFirst
  | some parentPartition =>
      apply ((isLookup_resolvePosition delta parentPartition unordered).reads
        middle).bind_checksFirst
      rintro ⟨streamPosition, previousStreamPosition⟩ positioned _
      apply Writes.checksFirst
      apply (writes_writeDelta _ _ _ _).bind
      intro _ after _
      apply writes_pure

/--
The committed stream is not the one that was there when the other stream was
staged. An object of another class has no place among the streams, nor a stream
that is staged and committed at once; the exceptions for these come as late.
-/
def IsOtherStream (prevCommittedStream stagedStream : Metafile) : Prop :=
  prevCommittedStream.locator.streamId ≠ stagedStream.previousStreamId ∨
    prevCommittedStream.locator.streamId = stagedStream.locator.streamId ∨
      prevCommittedStream.metafileClass ≠ stagedStream.metafileClass

theorem replaceCommittedStream_of_isOther {prevCommittedStream stagedStream : Metafile}
    (isOther : IsOtherStream prevCommittedStream stagedStream) :
    ∃ error, error.isCheck ∧
      replaceCommittedStream prevCommittedStream (committedStreamOf stagedStream) =
        throw error := by
  unfold replaceCommittedStream
  split
  · exact ⟨_, by decide, rfl⟩
  case isFalse isPrevious =>
    split
    · exact ⟨_, by decide, rfl⟩
    case isFalse notSame =>
      rcases isOther with notPrevious | isSame | otherClass
      · exact absurd notPrevious isPrevious
      · exact absurd isSame notSame
      · split
        case isTrue sameClass => exact absurd sameClass otherClass
        · exact ⟨_, by decide, rfl⟩

theorem writes_replaceCommittedStream {prevCommittedStream stagedStream : Metafile}
    (notOther : ¬IsOtherStream prevCommittedStream stagedStream) (start : ActiveTransaction) :
    Writes step IsCheck
      (replaceCommittedStream prevCommittedStream (committedStreamOf stagedStream)) start := by
  unfold replaceCommittedStream
  split
  case isTrue notPrevious => exact absurd (Or.inl notPrevious) notOther
  · split
    case isTrue isSame => exact absurd (Or.inr (Or.inl isSame)) notOther
    · split
      · apply (writes_step _ _).bind
        intro _ after _
        apply writes_pure
      case isFalse otherClass => exact absurd (Or.inr (Or.inr otherClass)) notOther

/-- `commit_stream` finds a committed stream that is not the one to replace. -/
structure FindsOtherStream (active : ActiveTransaction) (stream stagedStream
    prevCommittedStream : Metafile) : Prop where
  isStaged : ∃ streamId tableVersionLocator, nonEmpty stream.locator.streamId = some streamId ∧
    stream.tableVersionLocator = some tableVersionLocator ∧
      active.Finds (getStagedStream tableVersionLocator streamId) stagedStream
  isCommitted : active.Finds (getPrevCommittedStream stagedStream) (some prevCommittedStream)
  isOther : IsOtherStream prevCommittedStream stagedStream
  replaces : ∃ response,
    (active.step (.replace stagedStream (committedStreamOf stagedStream) rfl)).2 = .ok response

/-- A write that succeeds after some lookups would have succeeded before them. -/
theorem step_isOk_of_lookups {middle : ActiveTransaction} (same : middle.written = active.written)
    {operation : TransactionOperation} (isWrite : operation.isWrite) :
    (∃ response, (middle.step operation).2 = .ok response) ↔
      ∃ response, (active.step operation).2 = .ok response := by
  rw [step_write_congr same isWrite]

theorem commitStream_allOrNothing_iff {stream : Metafile}
    (isInteractive : active.transaction.interactive = true) :
    AllOrNothing (commitStream stream) active ↔
      ¬∃ stagedStream prevCommittedStream,
        FindsOtherStream active stream stagedStream prevCommittedStream := by
  constructor
  · rintro allOrNothing ⟨stagedStream, prevCommittedStream, finds⟩
    rcases finds.isStaged with ⟨streamId, tableVersionLocator, isId, isLocator, staged, isStaged⟩
    have stagedLookup := isLookup_getStagedStream tableVersionLocator streamId
    have sameStaged := (stagedLookup.observes rfl isStaged).1
    rcases finds.isCommitted with ⟨found, isFound⟩
    have prevLookup : IsLookup (getPrevCommittedStream stagedStream) :=
      isLookup_getStreamOfFormat _ _ _ _
    rcases (prevLookup.observes sameStaged.symm isFound).2 with ⟨looked, isLooked⟩
    have sameLooked := (prevLookup.observes rfl isLooked).1.trans sameStaged
    rcases (step_isOk_of_lookups sameLooked rfl).mpr finds.replaces with ⟨response, replaces⟩
    let replaced := looked.step (.replace stagedStream (committedStreamOf stagedStream) rfl)
    have isReplaced : looked.step (.replace stagedStream (committedStreamOf stagedStream) rfl) =
      (replaced.1, .ok response) := Prod.ext rfl replaces
    rcases replaceCommittedStream_of_isOther finds.isOther with ⟨error, isCheck, isThrow⟩
    have raises : commitStream stream active = .error error replaced.1 := by
      unfold commitStream
      rw [isId, isLocator]
      apply bind_eq_error.mpr
      refine Or.inr ⟨stagedStream, staged, isStaged, bind_eq_error.mpr (Or.inr
        ⟨some prevCommittedStream, looked, isLooked, bind_eq_error.mpr (Or.inl
          (bind_eq_error.mpr (Or.inr ⟨response, replaced.1,
            TransactionM.step_eq_ok.mpr isReplaced, ?_⟩)))⟩)⟩
      rw [isThrow]
      rfl
    rcases (stagedLookup.reads active).ofReturn isStaged with ⟨stagedReads, stagedRun, _⟩
    rcases (prevLookup.reads staged).ofReturn isLooked with ⟨prevReads, prevRun, _⟩
    have run := (stagedRun.append prevRun).snoc ⟨response, isReplaced⟩
    exact not_allOrNothing isInteractive raises isCheck run
      (List.mem_append_right _ List.mem_cons_self) rfl allOrNothing
  · intro notOther
    apply AllOrNothing.of_checksFirst isInteractive
    unfold commitStream
    split
    · exact (reads_throw _ _).checksFirst
    · exact (reads_throw _ _).checksFirst
    case h_3 streamId tableVersionLocator isId isLocator =>
      have stagedLookup := isLookup_getStagedStream tableVersionLocator streamId
      apply (stagedLookup.reads active).bind_checksFirst
      intro stagedStream staged isStaged
      have sameStaged := (stagedLookup.observes rfl isStaged).1
      have prevLookup : IsLookup (getPrevCommittedStream stagedStream) :=
        isLookup_getStreamOfFormat _ _ _ _
      apply (prevLookup.reads staged).bind_checksFirst
      intro prevCommittedStream looked isLooked
      have sameLooked := (prevLookup.observes rfl isLooked).1.trans sameStaged
      apply Writes.checksFirst
      refine Writes.bind ?_ fun _ after _ => writes_pure _ _
      cases prevCommittedStream with
      | none =>
          apply (writes_step _ _).bind
          intro _ after _
          apply writes_pure
      | some prevCommittedStream =>
          apply (writes_step _ _).bind
          intro response after isReplaced
          apply writes_replaceCommittedStream
          intro isOther
          have isStep := TransactionM.step_eq_ok.mp isReplaced
          exact notOther ⟨stagedStream, prevCommittedStream,
            ⟨streamId, tableVersionLocator, isId, isLocator, staged, isStaged⟩,
            (prevLookup.observes sameStaged isLooked).2, isOther,
            (step_isOk_of_lookups sameLooked rfl).mp ⟨response, congrArg Prod.snd isStep⟩⟩

/--
`commit_partition` finds a previously committed object that is not a partition,
which no call stores where partitions are looked up.
-/
structure FindsOtherClass (active : ActiveTransaction) (partition stagedPartition
    prevPartition : Metafile) : Prop where
  isStaged : ∃ partitionId streamLocator, nonEmpty partition.partitionId = some partitionId ∧
    partition.streamLocator = some streamLocator ∧
      active.Finds (getStagedPartition streamLocator partitionId) stagedPartition ∧
      active.Finds (getPreviousPartition partition streamLocator) (some prevPartition)
  otherClass : prevPartition.metafileClass ≠ stagedPartition.metafileClass
  replaces : ∃ response, (active.step
    (.replace stagedPartition (committedFrom partition stagedPartition) rfl)).2 = .ok response

theorem commitPartition_allOrNothing_iff {partition : Metafile}
    {previousPartition : Option Metafile}
    (isInteractive : active.transaction.interactive = true) :
    AllOrNothing (commitPartition partition previousPartition) active ↔
      ¬(previousPartition = none ∧ ∃ stagedPartition prevPartition,
        FindsOtherClass active partition stagedPartition prevPartition) := by
  constructor
  · rintro allOrNothing ⟨rfl, stagedPartition, prevPartition, finds⟩
    rcases finds.isStaged with
      ⟨partitionId, streamLocator, isId, isLocator, ⟨staged, isStaged⟩, found, isFound⟩
    have stagedLookup := isLookup_getStagedPartition streamLocator partitionId
    have sameStaged := (stagedLookup.observes rfl isStaged).1
    have prevLookup := isLookup_getPreviousPartition partition streamLocator
    rcases (prevLookup.observes sameStaged.symm isFound).2 with ⟨looked, isLooked⟩
    have sameLooked := (prevLookup.observes rfl isLooked).1.trans sameStaged
    rcases (step_isOk_of_lookups sameLooked rfl).mpr finds.replaces with ⟨response, replaces⟩
    let operation : TransactionOperation :=
      .replace stagedPartition (committedFrom partition stagedPartition) rfl
    have isReplaced : looked.step operation = ((looked.step operation).1, .ok response) :=
      Prod.ext rfl replaces
    have raises : commitPartition partition none active =
        .error .valueError (looked.step operation).1 := by
      unfold commitPartition
      simp only [Option.isSome_none, Bool.false_eq_true, if_false, isId, isLocator]
      apply bind_eq_error.mpr
      refine Or.inr ⟨stagedPartition, staged, isStaged, bind_eq_error.mpr (Or.inr
        ⟨some prevPartition, looked, isLooked, bind_eq_error.mpr (Or.inl
          (bind_eq_error.mpr (Or.inr ⟨response, (looked.step operation).1,
            TransactionM.step_eq_ok.mpr isReplaced, ?_⟩)))⟩)⟩
      exact congrFun (dif_neg finds.otherClass) _
    rcases (stagedLookup.reads active).ofReturn isStaged with ⟨stagedReads, stagedRun, _⟩
    rcases (prevLookup.reads staged).ofReturn isLooked with ⟨prevReads, prevRun, _⟩
    have run := (stagedRun.append prevRun).snoc ⟨response, isReplaced⟩
    exact not_allOrNothing isInteractive raises rfl run
      (List.mem_append_right _ List.mem_cons_self) rfl allOrNothing
  · intro notOther
    apply AllOrNothing.of_checksFirst isInteractive
    unfold commitPartition
    split
    · exact (reads_throw _ _).checksFirst
    case isFalse noPrevious =>
      split
      · exact (reads_throw _ _).checksFirst
      · exact (reads_throw _ _).checksFirst
      case h_3 partitionId streamLocator isId isLocator =>
        have stagedLookup := isLookup_getStagedPartition streamLocator partitionId
        apply (stagedLookup.reads active).bind_checksFirst
        intro stagedPartition staged isStaged
        have sameStaged := (stagedLookup.observes rfl isStaged).1
        have prevLookup := isLookup_getPreviousPartition partition streamLocator
        apply (prevLookup.reads staged).bind_checksFirst
        intro prevPartition looked isLooked
        have sameLooked := (prevLookup.observes rfl isLooked).1.trans sameStaged
        apply Writes.checksFirst
        refine Writes.bind ?_ fun _ after _ => writes_pure _ _
        cases prevPartition with
        | none =>
            apply (writes_step _ _).bind
            intro _ after _
            apply writes_pure
        | some prevPartition =>
            apply (writes_step _ _).bind
            intro response after isReplaced
            split
            · apply (writes_step _ _).bind
              intro _ replaced _
              apply writes_pure
            case isFalse otherClass =>
              have isStep := TransactionM.step_eq_ok.mp isReplaced
              exact absurd ⟨by simpa using noPrevious, stagedPartition, prevPartition,
                ⟨partitionId, streamLocator, isId, isLocator, ⟨staged, isStaged⟩,
                  (prevLookup.observes sameStaged isLooked).2⟩, otherClass,
                (step_isOk_of_lookups sameLooked rfl).mp ⟨response, congrArg Prod.snd isStep⟩⟩
                notOther

theorem checksFirst_writeTable (prevTable : Option Metafile) (newTable : Metafile) :
    ChecksFirst step (·.isWrite) IsCheck (writeTable prevTable newTable) active := by
  unfold writeTable
  split
  · exact (writes_stepOr _ _ _).checksFirst
  · split
    · exact (writes_stepOr _ _ _).checksFirst
    · exact (reads_throw _ _).checksFirst

variable (characters : CharacterClasses) (readerTypes : String → Except Error (List String))

theorem checksFirst_createTableVersion (request : TableVersionCreation)
    (tableId streamId : String) :
    ChecksFirst step (·.isWrite) IsCheck (createTableVersion characters request tableId streamId)
      active := by
  apply ((isLookup_isThere _).reads active).bind_checksFirst
  intro isThere afterNamespace _
  cases isThere with
  | false => exact (reads_throw _ _).checksFirst
  | true =>
      apply ((isLookup_ofExcept _).reads afterNamespace).bind_checksFirst
      intro _ validated _
      apply ((isLookup_latest _).reads validated).bind_checksFirst
      intro prevTable afterTable _
      apply ((isLookup_ofExcept _).reads afterTable).bind_checksFirst
      intro tableVersion numbered _
      apply ((isLookup_ofExcept _).reads numbered).bind_checksFirst
      intro restated afterVersion _
      apply (checksFirst_writeTable _ _).bind_writes
      intro _ withTable _
      apply (writes_stepOr _ _ _).bind
      intro _ withVersion _
      apply (writes_stepOr _ _ _).bind
      intro _ withStream _
      apply writes_pure

theorem checksFirst_activateTableVersion (request : TableVersionUpdate) (oldVersion : Metafile)
    (oldTable : Option Metafile) :
    ChecksFirst step (·.isWrite) IsCheck
      (activateTableVersion characters request oldVersion oldTable) active := by
  unfold activateTableVersion
  split
  · cases oldTable with
    | none => exact (reads_throw _ _).checksFirst
    | some oldTable =>
        apply ((isLookup_ofExcept _).reads active).bind_checksFirst
        intro becomesLatest middle _
        cases becomesLatest with
        | false => exact (reads_pure _ _).checksFirst
        | true =>
            apply Writes.checksFirst
            apply (writes_step _ _).bind
            intro _ after _
            apply writes_pure
  · exact (reads_pure _ _).checksFirst

/-- The only exception of its own here is one that no check raises. -/
theorem writes_updateStreamScheme (request : TableVersionUpdate) {tableVersion : String}
    (notEmpty : tableVersion ≠ "") (start : ActiveTransaction) :
    Writes step IsCheck (updateStreamScheme request tableVersion) start := by
  unfold updateStreamScheme
  split
  · apply writes_pure
  · apply Writes.bind
    · unfold getStream
      simp only [nonEmpty_some notEmpty]
      apply (writes_pure _ _).bind
      intro version middle _
      apply writes_latest
    · intro found middle _
      cases found with
      | none => exact writes_throw (by decide) _
      | some oldStream =>
          apply (writes_step _ _).bind
          intro _ after _
          apply writes_pure

theorem checksFirst_updateTableVersion (request : TableVersionUpdate) :
    ChecksFirst step (·.isWrite) IsCheck (updateTableVersion characters readerTypes request)
      active := by
  apply ((isLookup_ofExcept _).reads active).bind_checksFirst
  intro restated stated isStated
  have notEmpty := (versionNumber_restate (ofExcept_eq_ok.mp isStated).1).2
  apply ((isLookup_latest _).reads stated).bind_checksFirst
  intro oldVersion afterVersion _
  cases oldVersion with
  | none => exact (reads_throw _ _).checksFirst
  | some oldVersion =>
      apply ((isLookup_ofExcept _).reads afterVersion).bind_checksFirst
      intro newVersion revised isRevised
      apply ((isLookup_latest _).reads revised).bind_checksFirst
      intro oldTable afterTable _
      apply (checksFirst_activateTableVersion characters request oldVersion oldTable).bind_writes
      intro newTable activated _
      -- A revision is of the class of what it revises.
      have sameClass : oldVersion.metafileClass = newVersion.metafileClass := by
        have revises := revisedTableVersion_eq_ok (ofExcept_eq_ok.mp isRevised).1
        unfold Metafile.metafileClass
        rw [revises.locator]
      rw [dif_pos sameClass]
      apply (writes_stepOr _ _ _).bind
      intro _ withVersion _
      apply (writes_updateStreamScheme request notEmpty _).bind
      intro newStream withStream _
      apply writes_pure

end Calls

/-- A call of a procedure that may write more than once. -/
inductive StorageCall
  | commitStream (stream : Metafile)
  | commitPartition (partition : Metafile) (previousPartition : Option Metafile)
  | commitDelta (delta : Metafile) (properties : List (String × String))
      (unordered : UnorderedPosition)
  | createTableVersion (request : TableVersionCreation) (tableId streamId : String)
  | updateTableVersion (request : TableVersionUpdate)

namespace StorageCall

section AllOrNothing

variable (characters : CharacterClasses) (readerTypes : String → Except Error (List String))

/-- The call is all or nothing inside a transaction. -/
def AllOrNothingIn (active : ActiveTransaction) : StorageCall → Prop
  | commitStream stream => AllOrNothing (Storage.commitStream stream) active
  | commitPartition partition previousPartition =>
      AllOrNothing (Storage.commitPartition partition previousPartition) active
  | commitDelta delta properties unordered =>
      AllOrNothing (Storage.commitDelta delta properties unordered) active
  | createTableVersion request tableId streamId =>
      AllOrNothing (Storage.createTableVersion characters request tableId streamId) active
  | updateTableVersion request =>
      AllOrNothing (Storage.updateTableVersion characters readerTypes request) active

end AllOrNothing

/-- The call writes before a check that fails. -/
def WritesBeforeCheck (active : ActiveTransaction) : StorageCall → Prop
  | commitStream stream =>
      ∃ stagedStream prevCommittedStream,
        FindsOtherStream active stream stagedStream prevCommittedStream
  | commitPartition partition previousPartition =>
      previousPartition = none ∧ ∃ stagedPartition prevPartition,
        FindsOtherClass active partition stagedPartition prevPartition
  | commitDelta _ _ _ | createTableVersion _ _ _ | updateTableVersion _ => False

/--
Inside an interactive transaction of the caller, the calls are all or nothing,
except where `commit_stream` finds a committed stream other than the one that was
there at staging. (`commit_partition` compares the classes of two objects as late,
but none but partitions are stored where it looks.)
-/
theorem allOrNothingIn_iff {characters : CharacterClasses}
    {readerTypes : String → Except Error (List String)} {active : ActiveTransaction}
    (isInteractive : active.transaction.interactive = true) (call : StorageCall) :
    call.AllOrNothingIn characters readerTypes active ↔ ¬call.WritesBeforeCheck active := by
  cases call with
  | commitStream stream => exact commitStream_allOrNothing_iff isInteractive
  | commitPartition partition previousPartition =>
      exact commitPartition_allOrNothing_iff isInteractive
  | commitDelta delta properties unordered =>
      apply iff_of_true _ not_false
      apply AllOrNothing.of_checksFirst isInteractive
      apply checksFirst_commitDelta
  | createTableVersion request tableId streamId =>
      apply iff_of_true _ not_false
      apply AllOrNothing.of_checksFirst isInteractive
      apply checksFirst_createTableVersion
  | updateTableVersion request =>
      apply iff_of_true _ not_false
      apply AllOrNothing.of_checksFirst isInteractive
      apply checksFirst_updateTableVersion

end StorageCall

section Raced

/-- The transaction of a call that is made at a given time. -/
def streamTxn (time : ℕ) : TransactionId := .numbered time 1

/-- A stream of the table version of `streamCatalog`. -/
def orderStream (streamId : String) : Metafile where
  locator := ⟨[.namespaceName "sales", .tableName "orders", .tableVersionName "1"],
    .streamName (some streamId) (some "deltacat")⟩

/-- Two streams are staged next to the committed one, and then the first of them is committed. -/
def racedCatalog : Catalog :=
  let stage (streamId : String) : TransactionM Metafile :=
    stageStream asciiCharacters (some "sales") (some "orders") (some "1") none streamId
  ((streamCatalog.completed (streamTxn 10) (some 11) (stage "s1")).completed (streamTxn 20)
    (some 21) (stage "s2")).completed (streamTxn 30) (some 31) (commitStream (orderStream "s1"))

/-- The second stream as it was staged, with the stream that was committed at that time. -/
def racedStream : Metafile :=
  { orderStream "s2" with
    ancestorIds := ["n1", "t1", "1"]
    state := some .staged
    previousStreamId := some "st" }

/-- The stream that was committed since. -/
def racingStream : Metafile :=
  { orderStream "s1" with
    ancestorIds := ["n1", "t1", "1"]
    state := some .committed
    previousStreamId := some "st" }

/-- An update that describes the table version, activates it and gives it a partition scheme. -/
def activatingUpdate : TableVersionUpdate where
  namespaceName := "sales"
  tableName := "orders"
  tableVersion := "1"
  lifecycleState := some .active
  description := some "all orders"
  partitionScheme := some { keys := some [{ key := ["region"] }], id := some "by-region" }

/-- The update of the table version succeeds there, and is all or nothing. -/
theorem allOrNothingIn_iff_activatingUpdate :
    (racedCatalog.returned (streamTxn 40)
      (updateTableVersion asciiCharacters (fun _ => .ok []) activatingUpdate)).isSome ∧
    (StorageCall.updateTableVersion activatingUpdate).AllOrNothingIn asciiCharacters
      (fun _ => .ok []) ⟨Transaction.start (streamTxn 40) false [], racedCatalog⟩ :=
  ⟨by decide +kernel, (StorageCall.allOrNothingIn_iff rfl _).mpr id⟩

/--
Committing the second stream raises a `ConcurrentModificationError`, but only
after the name of the committed stream was mapped to the second stream.
-/
theorem not_allOrNothingIn_raced :
    ¬(StorageCall.commitStream (orderStream "s2")).AllOrNothingIn asciiCharacters (fun _ => .ok [])
      ⟨Transaction.start (streamTxn 40) false [], racedCatalog⟩ := by
  have finds {Value : Type} {lookup : TransactionM Value} {value : Value}
      (isReturned : racedCatalog.returned (streamTxn 40) lookup = some value) :
      ActiveTransaction.Finds ⟨Transaction.start (streamTxn 40) false [], racedCatalog⟩ lookup
        value := by
    unfold Catalog.returned at isReturned
    split at isReturned
    case h_1 found after isFound =>
      cases isReturned
      exact ⟨after, isFound⟩
    case h_2 => cases isReturned
  intro allOrNothing
  refine (commitStream_allOrNothing_iff rfl).mp allOrNothing
    ⟨racedStream, racingStream, ⟨"s2", ⟨_, _⟩, rfl, rfl, finds ?_⟩, finds ?_, ?_, ?_⟩
  · decide +kernel
  · decide +kernel
  · exact Or.inl (by decide)
  · have isOk : (ActiveTransaction.step ⟨Transaction.start (streamTxn 40) false [], racedCatalog⟩
        (.replace racedStream (committedStreamOf racedStream) rfl)).2.isOk := by
      decide +kernel
    rcases isStep : (ActiveTransaction.step ⟨Transaction.start (streamTxn 40) false [],
      racedCatalog⟩ (.replace racedStream (committedStreamOf racedStream) rfl)).2 with
        error | response
    · rw [isStep] at isOk
      cases isOk
    · exact ⟨response, rfl⟩

end Raced

end Deltacat.Storage
