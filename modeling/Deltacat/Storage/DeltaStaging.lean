import Deltacat.Storage.DeltaChain

/-!
# Staged deltas and the position of their partition

An ordered delta records the position of its partition when it is staged.
`commit_delta` overwrites this position with the one that it finds, so that a
delta is committed even if another one was committed in between, although its
documentation says that such a commit is rejected.

The runs below interleave staging and committing in any order. The position of
the partition is still the recorded one exactly if no ordered delta was committed
since the staging, because every ordered commit moves the position and nothing
else does (`commitChecked_run`).
-/

namespace Deltacat.Storage

open Deltacat.Library TransactionM TransactionOperation

/-- A staged delta, with the number of ordered deltas that were committed before. -/
structure StagedDelta where
  delta : Metafile
  orderedBefore : ℕ

/-- A partition's deltas together with those that were staged for it. -/
structure StagingState extends DeltaState where
  staged : List StagedDelta

/-- A `stage_delta` call, or a `commit_delta` call that returns or raises. -/
inductive StagingEvent where
  | stage (partition : Metafile) (deltaType : DeltaType) (contentType : String)
      (properties : List (String × String)) (entries : List String)
  | commit (event : DeltaEvent)
  | reject (event : DeltaEvent)

/-- A delta at the position that the caller chose for it, if any. -/
def choosePosition (delta : Metafile) (streamPosition : Option ℕ) : Metafile :=
  { delta with locator := { delta.locator with name := .deltaName streamPosition } }

namespace StagingState

/-- The calls on a partition. A delta is staged for the partition as it is stored. -/
def Step (partition : PartitionPath) (state : StagingState) (event : StagingEvent)
    (next : StagingState) : Prop :=
  match event with
  | .stage argument deltaType contentType properties entries =>
      ∃ stored parents delta, state.catalog.live partition.dir = some (.metafile stored) ∧
        argument = stored.withParents parents ∧
        stageDelta argument deltaType contentType properties entries = .ok delta ∧
        next = { state with
          staged := state.staged ++ [⟨delta, (orderedPositions state.committed).length⟩] }
  | .commit event =>
      state.toDeltaState.Step partition event next.toDeltaState ∧ next.staged = state.staged
  | .reject event =>
      ActiveTransaction.Unwritten ⟨Transaction.start event.txnId false [], state.catalog⟩ ∧
        ∃ error final, commitDelta event.delta event.properties event.unordered
          ⟨Transaction.start event.txnId false [], state.catalog⟩ = .error error final ∧
          next = { state with catalog := final.catalog }

/-- The staged delta is committed only at the recorded position, and is rejected otherwise. -/
def CommitChecked (partition : PartitionPath) (state : StagingState) (delta : Metafile)
    (event : DeltaEvent) : Prop :=
  ∀ stored, state.catalog.live partition.dir = some (.metafile stored) →
    stored.streamPosition ≠ delta.previousStreamPosition →
      ∃ error final, commitDelta event.delta event.properties event.unordered
        ⟨Transaction.start event.txnId false [], state.catalog⟩ = .error error final ∧
          final.catalog.live = state.catalog.live

/-- No ordered delta was committed since the staging. -/
def StillCurrent (state : StagingState) (staged : StagedDelta) : Prop :=
  staged.orderedBefore = (orderedPositions state.committed).length

/-- The position that was chosen for the delta is not greater than the partition's. -/
def Superseded (partition : PartitionPath) (state : StagingState) (event : DeltaEvent) : Prop :=
  ∃ stored streamPosition, state.catalog.live partition.dir = some (.metafile stored) ∧
    event.delta.deltaPosition = some streamPosition ∧
    streamPosition ≤ stored.streamPosition.getD 0

/-- An ordered staged delta records the last of the positions that were there. -/
def Recorded (state : StagingState) (staged : StagedDelta) : Prop :=
  staged.orderedBefore ≤ (orderedPositions state.committed).length ∧
    (staged.delta.deltaType ≠ some .add → staged.delta.previousStreamPosition =
      ((orderedPositions state.committed).take staged.orderedBefore).getLast?)

/-- The invariant of a run. -/
structure Invariant (partition : PartitionPath) (state : StagingState) : Prop where
  deltas : state.toDeltaState.Invariant partition
  recorded : ∀ staged ∈ state.staged, state.Recorded staged

variable {partition : PartitionPath} {state next : StagingState}

theorem Invariant.start {catalog : Catalog} (starts : DeltaState.StartsEmpty partition catalog) :
    Invariant partition ⟨⟨catalog, []⟩, []⟩ :=
  ⟨DeltaState.Invariant.start starts, by simp⟩

theorem stageDelta_eq_ok {argument delta : Metafile} {deltaType : DeltaType}
    {contentType : String} {properties : List (String × String)} {entries : List String}
    (isStaged : stageDelta argument deltaType contentType properties entries = .ok delta) :
    delta.deltaType = some deltaType ∧
      (deltaType ≠ .add → delta.previousStreamPosition = argument.streamPosition) := by
  unfold stageDelta at isStaged
  split at isStaged
  · cases isStaged
  split at isStaged
  · cases isStaged
  · cases isStaged
    refine ⟨rfl, ?_⟩
    intro isOrdered
    exact if_pos isOrdered

/-- The positions of a history are a beginning of the positions of a longer one. -/
theorem orderedPositions_append (deltas : List Metafile) (delta : Metafile) :
    ∃ more, orderedPositions (deltas ++ [delta]) = orderedPositions deltas ++ more := by
  by_cases isUnordered : delta.deltaType = some .add
  · exact ⟨[], by rw [DeltaState.orderedPositions_append_unordered isUnordered, List.append_nil]⟩
  · exact ⟨_, DeltaState.orderedPositions_append_ordered isUnordered⟩

theorem preserves_resolvePosition {delta parent : Metafile} {unordered : UnorderedPosition} :
    Procedure.Preserves ActiveTransaction.written (resolvePosition delta parent unordered) := by
  unfold resolvePosition
  split
  · simp only
    split
    · split
      · apply Procedure.preserves_throw
      · apply Procedure.preserves_pure
    · apply Procedure.preserves_pure
  · apply Procedure.preserves_pure

theorem writeDelta_error {delta parent : Metafile} {streamPosition : ℕ} {txnId : TransactionId}
    {before : Catalog} {active final : ActiveTransaction} {error : Error}
    (progress : ActiveTransaction.Progress txnId before false active) (numbered : before.Numbered)
    (raises : writeDelta delta parent streamPosition active = .error error final) :
    final.catalog.Numbered ∧ final.catalog.live = before.live := by
  unfold writeDelta at raises
  rcases Procedure.bind_eq_error.mp raises with isError | ⟨_, middle, isCreated, isMoved⟩
  · rcases stepOr_eq_error isError with ⟨failure, fails⟩
    exact progress.rollback rfl numbered fails
  clear raises
  rcases stepOr_eq_ok isCreated with ⟨result, creates⟩
  have middleProgress := progress.step_ok (congrArg Prod.snd creates)
  rw [creates] at middleProgress
  split at isMoved
  · rcases Procedure.bind_eq_error.mp isMoved with isError | ⟨_, _, _, isPure⟩
    · exact middleProgress.rollback rfl numbered (step_eq_error.mp isError)
    · cases isPure
  · cases isMoved

/-- A commit that raises an exception undoes what it has written. -/
theorem commitDelta_error {event : DeltaEvent} {error : Error} {final : ActiveTransaction}
    {catalog : Catalog}
    (unwritten : ActiveTransaction.Unwritten ⟨Transaction.start event.txnId false [], catalog⟩)
    (numbered : catalog.Numbered)
    (raises : commitDelta event.delta event.properties event.unordered
      ⟨Transaction.start event.txnId false [], catalog⟩ = .error error final) :
    final.catalog.Numbered ∧ final.catalog.live = catalog.live := by
  have unchanged : ∀ {other : ActiveTransaction}, other.written =
      (⟨Transaction.start event.txnId false [], catalog⟩ : ActiveTransaction).written →
        other.catalog.Numbered ∧ other.catalog.live = catalog.live := by
    intro other same
    rw [ActiveTransaction.catalog_of_written same]
    exact ⟨numbered, rfl⟩
  have preserved := preserves_getParentPartition event.delta
  unfold commitDelta at raises
  rcases Procedure.bind_eq_error.mp raises with isError | ⟨found, first, isFound, afterFound⟩
  · exact unchanged (preserved.of_error isError)
  clear raises
  have firstWritten := preserved.of_ok isFound
  cases found with
  | none =>
      cases afterFound
      exact unchanged firstWritten
  | some parent =>
      rcases Procedure.bind_eq_error.mp afterFound with
        isError | ⟨_, second, isPosition, afterPosition⟩
      · exact unchanged ((preserves_resolvePosition.of_error isError).trans firstWritten)
      clear afterFound
      have secondWritten := (preserves_resolvePosition.of_ok isPosition).trans firstWritten
      rcases Procedure.bind_eq_error.mp afterPosition with isError | ⟨_, _, _, isReturned⟩
      · have sameCatalog := ActiveTransaction.catalog_of_written secondWritten
        have progress := (unwritten.of_written secondWritten).progress
        rw [sameCatalog] at progress
        exact writeDelta_error progress numbered isError
      · cases isReturned

theorem Recorded.append {staged : StagedDelta} (recorded : state.Recorded staged)
    {delta : Metafile} (isCommitted : next.committed = state.committed ++ [delta]) :
    next.Recorded staged := by
  rcases recorded with ⟨isBefore, isRecorded⟩
  rcases orderedPositions_append state.committed delta with ⟨more, isLonger⟩
  rw [← isCommitted] at isLonger
  constructor
  · rw [isLonger, List.length_append]
    omega
  · intro isOrdered
    rw [isLonger, List.take_append_of_le_length isBefore]
    exact isRecorded isOrdered

theorem Invariant.step (invariant : Invariant partition state) {event : StagingEvent}
    (stepped : state.Step partition event next) : Invariant partition next := by
  cases event with
  | stage argument deltaType contentType properties entries =>
      rcases stepped with ⟨stored, parents, delta, isStored, rfl, isStaged, rfl⟩
      rcases stageDelta_eq_ok isStaged with ⟨isType, isRecorded⟩
      refine ⟨invariant.deltas, ?_⟩
      intro staged stagedMem
      rcases List.mem_append.mp stagedMem with isOld | isNew
      · exact invariant.recorded staged isOld
      · obtain rfl := List.mem_singleton.mp isNew
        refine ⟨le_refl _, ?_⟩
        intro isOrdered
        rcases invariant.deltas.chain.pointer with ⟨sameStored, sameIsStored, isPointer⟩
        rw [isStored] at sameIsStored
        cases sameIsStored
        rw [List.take_length, ← isPointer]
        apply isRecorded
        rintro rfl
        exact isOrdered isType
  | commit event =>
      rcases stepped with ⟨committed, sameStaged⟩
      have ⟨_, delta, _, isCommitted⟩ := committed
      refine ⟨invariant.deltas.step committed, ?_⟩
      rw [sameStaged]
      intro staged stagedMem
      exact (invariant.recorded staged stagedMem).append isCommitted
  | reject event =>
      rcases stepped with ⟨unwritten, error, final, raises, rfl⟩
      rcases commitDelta_error unwritten invariant.deltas.numbered raises with
        ⟨nextNumbered, sameLive⟩
      exact ⟨invariant.deltas.congr nextNumbered sameLive rfl, invariant.recorded⟩

/-- The recorded position is the partition's if and only if no ordered delta came in between. -/
theorem Invariant.stillCurrent_iff (invariant : Invariant partition state) {staged : StagedDelta}
    (stagedMem : staged ∈ state.staged) (isOrdered : staged.delta.deltaType ≠ some .add)
    {stored : Metafile} (isStored : state.catalog.live partition.dir = some (.metafile stored)) :
    stored.streamPosition = staged.delta.previousStreamPosition ↔ state.StillCurrent staged := by
  rcases invariant.recorded staged stagedMem with ⟨isBefore, isRecorded⟩
  rcases invariant.deltas.chain.pointer with ⟨sameStored, sameIsStored, isPointer⟩
  rw [isStored] at sameIsStored
  cases sameIsStored
  rw [isPointer, isRecorded isOrdered]
  unfold StillCurrent
  constructor
  · intro samePosition
    by_contra isMoved
    have isShorter := lt_of_le_of_ne isBefore isMoved
    -- The last of a shorter beginning occurs before the last position, and is smaller.
    have increasing := invariant.deltas.chain.increasing
    generalize orderedPositions state.committed = positions at *
    rcases List.eq_nil_or_concat positions with rfl | ⟨before, last, rfl⟩
    · simp at isShorter
    · rw [List.concat_eq_append] at *
      rw [List.length_append, List.length_singleton] at isShorter
      rw [List.getLast?_concat, List.take_append_of_le_length (by omega)] at samePosition
      have isEarlier : last ∈ before :=
        List.mem_of_mem_take (List.mem_of_getLast? samePosition.symm)
      rw [List.pairwise_append] at increasing
      exact lt_irrefl _ (increasing.2.2 last isEarlier last (by simp))
  · intro isCurrent
    rw [isCurrent, List.take_length]

/-- A delta whose chosen position is not greater than the partition's is rejected. -/
theorem commitDelta_superseded {event : DeltaEvent} (superseded : Superseded partition state event)
    (onPartition : OnPartition partition state.catalog event)
    (isOrdered : event.delta.deltaType ≠ some .add) :
    ∃ error final, commitDelta event.delta event.properties event.unordered
      ⟨Transaction.start event.txnId false [], state.catalog⟩ = .error error final ∧
        final.catalog.live = state.catalog.live := by
  rcases superseded with ⟨stored, streamPosition, isStored, isChosen, notGreater⟩
  have resolvedOrdered : resolvedType event.delta ≠ .add := by
    unfold resolvedType
    cases isType : event.delta.deltaType with
    | none => simp
    | some deltaType =>
        rintro rfl
        exact isOrdered isType
  have preserved := preserves_getParentPartition event.delta
  unfold commitDelta
  cases isFound : getParentPartition event.delta
    ⟨Transaction.start event.txnId false [], state.catalog⟩ with
  | error error final =>
      exact ⟨error, final, Procedure.bind_eq_error.mpr (Or.inl isFound),
        congrArg Catalog.live (ActiveTransaction.catalog_of_written (preserved.of_error isFound))⟩
  | ok found final =>
      have sameCatalog : final.catalog.live = state.catalog.live :=
        congrArg Catalog.live (ActiveTransaction.catalog_of_written (preserved.of_ok isFound))
      cases found with
      | none =>
          exact ⟨_, final, Procedure.bind_eq_error.mpr (Or.inr ⟨none, final, isFound, rfl⟩),
            sameCatalog⟩
      | some parent =>
          rcases onPartition.parent parent final isFound with ⟨sameStored, parents, sameLive, rfl⟩
          rw [isStored] at sameLive
          cases sameLive
          have rejects : resolvePosition event.delta (stored.withParents parents) event.unordered
              final = .error .tableValidationError final := by
            unfold resolvePosition
            rw [if_pos resolvedOrdered]
            simp only [isChosen]
            exact congrFun (if_pos notGreater) final
          exact ⟨_, final, Procedure.bind_eq_error.mpr (Or.inr ⟨_, final, isFound,
            Procedure.bind_eq_error.mpr (Or.inl rejects)⟩), sameCatalog⟩

/--
A staged delta is committed only at the recorded position if no ordered delta
was committed in between, or if the position that was chosen for it is rejected.
For a call that returns, the former is also necessary.
-/
theorem commitChecked_run {catalog : Catalog} {events : List StagingEvent}
    (starts : DeltaState.StartsEmpty partition catalog)
    (run : Run (Step partition) ⟨⟨catalog, []⟩, []⟩ events state) {staged : StagedDelta}
    (stagedMem : staged ∈ state.staged) (isOrdered : staged.delta.deltaType ≠ some .add)
    {event : DeltaEvent} (onPartition : OnPartition partition state.catalog event)
    {streamPosition : Option ℕ}
    (isEvent : event.delta = choosePosition staged.delta streamPosition) :
    (state.StillCurrent staged ∨ Superseded partition state event →
      state.CommitChecked partition staged.delta event) ∧
    ∀ committed final, commitDelta event.delta event.properties event.unordered
        ⟨Transaction.start event.txnId false [], state.catalog⟩ = .ok committed final →
      state.CommitChecked partition staged.delta event → state.StillCurrent staged := by
  have invariant : Invariant partition state :=
    run.invariant (Invariant.start starts) (fun _ _ _ holds stepped => holds.step stepped)
  have eventOrdered : event.delta.deltaType ≠ some .add := by
    rw [isEvent]
    exact isOrdered
  constructor
  · rintro (isCurrent | superseded) stored isStored isMoved
    · exact absurd ((invariant.stillCurrent_iff stagedMem isOrdered isStored).mpr isCurrent) isMoved
    · exact commitDelta_superseded superseded onPartition eventOrdered
  · intro committed final returns isChecked
    rcases invariant.deltas.chain.pointer with ⟨stored, isStored, _⟩
    by_contra isMoved
    rw [← invariant.stillCurrent_iff stagedMem isOrdered isStored] at isMoved
    rcases isChecked stored isStored isMoved with ⟨error, _, raises, _⟩
    rw [returns] at raises
    cases raises

section Examples

/-- Staging a delta for the partition as it was created. -/
def stagesDelta (deltaType : DeltaType) : StagingEvent :=
  .stage ((writtenMetafile euPath.parentIds euPartition).withParents regionStream.locator.names)
    deltaType "application/parquet" [] []

theorem euCatalog_live :
    euCatalog.live euPath.dir =
      some (.metafile (writtenMetafile euPath.parentIds euPartition)) := by
  decide +kernel

theorem stageDelta_euDelta (deltaType : DeltaType) :
    stageDelta
      ((writtenMetafile euPath.parentIds euPartition).withParents regionStream.locator.names)
      deltaType "application/parquet" [] [] = .ok (euDelta deltaType) := by
  cases deltaType <;> decide +kernel

theorem step_stagesDelta (deltaType : DeltaType) (committed : List Metafile)
    (staged : List StagedDelta) :
    Step euPath ⟨⟨euCatalog, committed⟩, staged⟩ (stagesDelta deltaType)
      ⟨⟨euCatalog, committed⟩,
        staged ++ [⟨euDelta deltaType, (orderedPositions committed).length⟩]⟩ :=
  ⟨_, _, _, euCatalog_live, rfl, stageDelta_euDelta deltaType, rfl⟩

/-- A delta is staged and committed with nothing in between. -/
theorem commitChecked_run_current :
    ∃ events state staged event, Run (Step euPath) ⟨⟨euCatalog, []⟩, []⟩ events state ∧
      staged ∈ state.staged ∧ state.StillCurrent staged ∧
      event.delta = choosePosition staged.delta none ∧
      state.CommitChecked euPath staged.delta event := by
  have run := Run.nil.snoc (step_stagesDelta .append [] [])
  have onPartition : OnPartition euPath euCatalog (commitsDelta 10 .append) :=
    onPartition_commitsDelta _ euCatalog_live (by decide +kernel) rfl (by decide +kernel)
  have isChecked := commitChecked_run euCatalog_startsEmpty run (List.mem_singleton_self _)
    (by decide) onPartition (show _ = choosePosition _ none from rfl)
  exact ⟨_, _, _, _, run, List.mem_singleton_self _, rfl, rfl, isChecked.1 (Or.inl rfl)⟩

/-- The catalog after the first of two staged deltas was committed. -/
def euMoved : Catalog :=
  afterCommit euCatalog (commitsDelta 10 .append)

theorem euMoved_live :
    euMoved.live euPath.dir =
      some (.metafile (writtenMetafile euPath.parentIds (atPosition euPartition 1))) := by
  decide +kernel

theorem euMoved_returned :
    (euMoved.returned (commitsDelta 20 .upsert).txnId (commitDelta (commitsDelta 20 .upsert).delta
      (commitsDelta 20 .upsert).properties (commitsDelta 20 .upsert).unordered)).isSome := by
  decide +kernel

theorem step_euMoved (staged : List StagedDelta) :
    ∃ delta, Step euPath ⟨⟨euCatalog, []⟩, staged⟩ (.commit (commitsDelta 10 .append))
      ⟨⟨euMoved, [delta]⟩, staged⟩ := by
  have onPartition : OnPartition euPath euCatalog (commitsDelta 10 .append) :=
    onPartition_commitsDelta _ euCatalog_live (by decide +kernel) rfl (by decide +kernel)
  rcases DeltaState.step_afterCommit [] onPartition (by decide +kernel) (by decide +kernel)
    (by decide +kernel) with ⟨delta, committed⟩
  exact ⟨delta, committed, rfl⟩

/--
Two ordered deltas are staged for the empty partition. When the first one is
committed, the second one can be committed as well, at another position than the
one that was recorded.
-/
theorem not_commitChecked_run :
    ∃ events state staged event, Run (Step euPath) ⟨⟨euCatalog, []⟩, []⟩ events state ∧
      staged ∈ state.staged ∧ staged.delta.deltaType = some .upsert ∧
      event.delta = choosePosition staged.delta none ∧
      OnPartition euPath state.catalog event ∧
      ¬state.CommitChecked euPath staged.delta event := by
  have staged := (Run.nil.snoc (step_stagesDelta .append [] [])).snoc
    (step_stagesDelta .upsert [] _)
  rcases step_euMoved ([] ++ [⟨euDelta .append, 0⟩] ++ [⟨euDelta .upsert, 0⟩]) with ⟨delta, moved⟩
  have onPartition : OnPartition euPath euMoved (commitsDelta 20 .upsert) :=
    onPartition_commitsDelta _ euMoved_live (by decide +kernel) rfl (by decide +kernel)
  refine ⟨_, _, ⟨euDelta .upsert, 0⟩, _, staged.snoc moved, by simp, rfl, rfl, onPartition, ?_⟩
  intro isChecked
  rcases isChecked _ euMoved_live (by decide +kernel) with ⟨error, final, raises, _⟩
  have returns := euMoved_returned
  rw [Catalog.returned_of_error raises] at returns
  cases returns

end Examples

end StagingState

end Deltacat.Storage
