import Deltacat.Library.Decimal
import Deltacat.Storage.Delta
import Deltacat.Storage.PartitionCommit

/-!
# The deltas of a partition

Over every sequence of `commit_delta` calls on a partition, its ordered deltas
form a chain: their positions increase, each of them names the position of the
one before it, and the partition points to the last one. Unordered deltas have
positions of their own and change nothing else (`deltaChain_run`).

One call creates the delta, which fails if its position is taken, and moves the
partition's pointer if the delta is ordered (`commitDelta_spec`). The history of
a run is the list of the deltas that were returned, and the invariant relates it
to what is stored.
-/

namespace Deltacat.Storage

open Deltacat.Library MetafileRevisionInfo TransactionM TransactionOperation

/-- A partition, by the identifiers of its ancestors and its own. -/
structure PartitionPath where
  parentIds : List String
  id : String

namespace PartitionPath

/-- The directory of the partition's revisions. -/
def dir (partition : PartitionPath) : RevisionDir :=
  ⟨partition.parentIds, .metafile partition.id⟩

/-- The identifiers of the ancestors of the partition's deltas. -/
def ids (partition : PartitionPath) : List String :=
  partition.parentIds ++ [partition.id]

/-- The directory of the revisions of the delta at a position. -/
def deltaDir (partition : PartitionPath) (streamPosition : ℕ) : RevisionDir :=
  ⟨partition.ids, .metafile (toString streamPosition)⟩

theorem dir_ne_deltaDir (partition : PartitionPath) (id : String) :
    partition.dir ≠ ⟨partition.ids, .metafile id⟩ := by
  intro same
  have sameIds := congrArg (fun dir => dir.parentIds.length) same
  simp [dir, ids] at sameIds

end PartitionPath

/-- A `commit_delta` call, the transaction in which it is made, and the time of the seal. -/
structure DeltaEvent where
  txnId : TransactionId
  now : Option ℕ
  delta : Metafile
  properties : List (String × String)
  unordered : UnorderedPosition

/-- The call is on a partition: it reads that partition and writes the delta below it. -/
structure OnPartition (partition : PartitionPath) (catalog : Catalog) (event : DeltaEvent) :
    Prop where
  parent : ∀ found final,
    getParentPartition event.delta ⟨Transaction.start event.txnId false [], catalog⟩ =
      .ok (some found) final →
      ∃ stored parents, catalog.live partition.dir = some (.metafile stored) ∧
        found = stored.withParents parents
  below : ∀ found final,
    getParentPartition event.delta ⟨Transaction.start event.txnId false [], catalog⟩ =
      .ok (some found) final →
    ∀ streamPosition previousStreamPosition parentIds,
      catalog.ancestorIds (Catalog.readerOf event.txnId)
        (resolvedDelta event.delta found event.properties streamPosition
          previousStreamPosition) = .ok parentIds → parentIds = partition.ids

/-- The partition as it is stored while deltas are committed to it. -/
structure Holds (partition : PartitionPath) (stored : Metafile) : Prop where
  isName : ∃ partitionValues,
    stored.locator.name = .partitionName partitionValues (some partition.id)
  notEmpty : partition.id ≠ ""
  ancestors : stored.ancestorIds = partition.parentIds
  hasParents : partition.parentIds ≠ []

theorem preserves_getParentPartition (delta : Metafile) :
    Procedure.Preserves ActiveTransaction.written (getParentPartition delta) := by
  unfold getParentPartition
  split
  · apply Procedure.preserves_throw
  · simp only
    split
    · apply Procedure.preserves_throw
    · apply preserves_latest
    · apply preserves_getPartition

section Writes

variable {store final : LiveStore} {parentIds : List String}

theorem performs_createDelta {delta : Metafile} {streamPosition : ℕ}
    (isName : delta.locator.name = .deltaName (some streamPosition)) :
    Performs store (((create delta).revisionWrites parentIds).map RevisionWrite.toStoreWrite)
        final ↔
      store ⟨parentIds, .metafile (toString streamPosition)⟩ = none ∧
        final = Function.update store ⟨parentIds, .metafile (toString streamPosition)⟩
          (some (.metafile (writtenMetafile parentIds delta))) := by
  apply performs_create
  · rw [isName]
    rfl
  · unfold Metafile.locatorAlias
    rw [isName]
    split <;> rfl

/-- Moving the pointer of a partition writes no mapping. -/
theorem performs_atPosition {partition : PartitionPath} {parent : Metafile}
    {streamPosition : ℕ} (holds : Holds partition parent) :
    Performs store (((update parent (atPosition parent streamPosition) rfl).revisionWrites
        parentIds).map RevisionWrite.toStoreWrite) final ↔
      store ⟨parentIds, .metafile partition.id⟩ ≠ none ∧
        final = Function.update store ⟨parentIds, .metafile partition.id⟩
          (some (.metafile (writtenMetafile parentIds (atPosition parent streamPosition)))) := by
  rcases holds.isName with ⟨partitionValues, isName⟩
  have isId : parent.id = partition.id := by
    simp [Metafile.id, isName, LocatorName.immutableId, nonEmpty_some holds.notEmpty]
  rw [← isId]
  exact performs_update rfl rfl rfl

end Writes

theorem Holds.withParents {partition : PartitionPath} {stored : Metafile}
    (holds : Holds partition stored) (parents : List LocatorName) :
    Holds partition (stored.withParents parents) :=
  ⟨holds.isName, holds.notEmpty, holds.ancestors, holds.hasParents⟩

theorem Holds.atPosition {partition : PartitionPath} {stored : Metafile}
    (holds : Holds partition stored) (streamPosition : ℕ) :
    Holds partition (writtenMetafile partition.parentIds
      (Storage.atPosition stored streamPosition)) := by
  rcases writtenMetafile_eq partition.parentIds (Storage.atPosition stored streamPosition) with
    ⟨parents, isWritten⟩
  rw [isWritten]
  exact ⟨holds.isName, holds.notEmpty, rfl, holds.hasParents⟩

/-- What `commit_delta` decides about a delta. -/
structure Positioned (delta parent committed : Metafile) (streamPosition : ℕ) : Prop where
  isPosition : committed.locator.name = .deltaName (some streamPosition)
  isType : committed.deltaType = some (resolvedType delta)
  ordered : resolvedType delta ≠ .add →
    committed.previousStreamPosition = some (parent.streamPosition.getD 0) ∧
      parent.streamPosition.getD 0 < streamPosition

theorem resolvePosition_eq_ok {delta parent : Metafile} {unordered : UnorderedPosition}
    {active next : ActiveTransaction} {streamPosition : ℕ} {previousStreamPosition : Option ℕ}
    (returns : resolvePosition delta parent unordered active =
      .ok (streamPosition, previousStreamPosition) next)
    (properties : List (String × String)) :
    next = active ∧ Positioned delta parent
      (resolvedDelta delta parent properties streamPosition previousStreamPosition)
      streamPosition := by
  unfold resolvePosition at returns
  split at returns
  case isTrue isOrdered =>
    cases isGiven : delta.deltaPosition with
    | some givenPosition =>
        rw [isGiven] at returns
        simp only at returns
        split at returns
        · exact (Procedure.throw_ne_ok.mp returns).elim
        case isFalse isGreater =>
          rcases Procedure.pure_eq_ok.mp returns with ⟨isResult, rfl⟩
          cases isResult
          exact ⟨rfl, rfl, rfl, fun _ => ⟨rfl, not_le.mp isGreater⟩⟩
    | none =>
        rw [isGiven] at returns
        rcases Procedure.pure_eq_ok.mp returns with ⟨isResult, rfl⟩
        cases isResult
        exact ⟨rfl, rfl, rfl, fun _ => ⟨rfl, Nat.lt_succ_self _⟩⟩
  case isFalse isUnordered =>
    rcases Procedure.pure_eq_ok.mp returns with ⟨isResult, rfl⟩
    cases isResult
    exact ⟨rfl, rfl, rfl, fun isOrdered => absurd isOrdered isUnordered⟩

/-- The live objects after a delta was committed. -/
def afterDelta (partition : PartitionPath) (store : LiveStore) (committed parent : Metafile)
    (streamPosition : ℕ) : LiveStore :=
  let created := Function.update store (partition.deltaDir streamPosition)
    (some (.metafile (writtenMetafile partition.ids committed)))
  if resolvedType committed ≠ .add then
    Function.update created partition.dir (some (.metafile
      (writtenMetafile partition.parentIds (atPosition parent streamPosition))))
  else created

/-- A committed delta is created at a free position, and moves the pointer if it is ordered. -/
theorem commitDelta_spec {partition : PartitionPath} {catalog : Catalog} {event : DeltaEvent}
    {committed : Metafile} {active : ActiveTransaction}
    (settled : ActiveTransaction.Settled ⟨Transaction.start event.txnId false [], catalog⟩)
    (onPartition : OnPartition partition catalog event) {stored : Metafile}
    (isStored : catalog.live partition.dir = some (.metafile stored))
    (holds : Holds partition stored)
    (returns : commitDelta event.delta event.properties event.unordered
      ⟨Transaction.start event.txnId false [], catalog⟩ = .ok committed active)
    (bounded : ∀ file ∈ active.catalog.files, file.info.revision ≤ maxRevisionNumber) :
    ∃ streamPosition parents, active.Settled ∧
      Positioned event.delta stored committed streamPosition ∧
      catalog.live (partition.deltaDir streamPosition) = none ∧
      active.catalog.live = afterDelta partition catalog.live committed
        (stored.withParents parents) streamPosition := by
  unfold commitDelta at returns
  rcases Procedure.bind_eq_ok.mp returns with ⟨found, first, isFound, afterFound⟩
  clear returns
  have firstWritten := (preserves_getParentPartition _).of_ok isFound
  cases found with
  | none => exact (Procedure.throw_ne_ok.mp afterFound).elim
  | some parent =>
      rcases Procedure.bind_eq_ok.mp afterFound with
        ⟨⟨streamPosition, previousStreamPosition⟩, second, isPosition, afterPosition⟩
      clear afterFound
      rcases resolvePosition_eq_ok isPosition event.properties with
        ⟨rfl, isPosition, isType, ordered⟩
      rcases Procedure.bind_eq_ok.mp afterPosition with ⟨_, third, isWritten, isReturned⟩
      clear afterPosition
      rcases Procedure.pure_eq_ok.mp isReturned with ⟨rfl, rfl⟩
      rcases onPartition.parent parent second isFound with ⟨sameStored, parents, sameLive, rfl⟩
      obtain rfl : stored = sameStored := by
        have same := isStored.symm.trans sameLive
        cases same
        rfl
      rcases Procedure.bind_eq_ok.mp isWritten with ⟨_, middle, isCreated, isMoved⟩
      rcases stepOr_eq_ok isCreated with ⟨_, createSteps⟩
      have sameCatalog := ActiveTransaction.catalog_of_written firstWritten
      have sameId := ActiveTransaction.id_of_written firstWritten
      simp only [Transaction.start] at sameCatalog sameId
      -- Creating the delta, whether or not the pointer is moved afterwards.
      have creates : (∀ file ∈ middle.catalog.files, file.info.revision ≤ maxRevisionNumber) →
          middle.Settled ∧ catalog.live (partition.deltaDir streamPosition) = none ∧
          middle.catalog.live = Function.update catalog.live (partition.deltaDir streamPosition)
            (some (.metafile (writtenMetafile partition.ids
              (resolvedDelta event.delta (stored.withParents parents) event.properties
                streamPosition previousStreamPosition)))) := by
        intro middleBounded
        rcases (settled.of_written firstWritten).step rfl createSteps middleBounded with
          ⟨deltaIds, isRoot, middleSettled, _, performs⟩
        rw [sameCatalog, sameId] at isRoot
        obtain rfl : deltaIds = partition.ids :=
          onPartition.below _ second isFound streamPosition previousStreamPosition deltaIds isRoot
        rw [sameCatalog, performs_createDelta rfl] at performs
        exact ⟨middleSettled, performs.1, performs.2⟩
      unfold afterDelta
      split at isMoved
      case isTrue isOrdered =>
        rcases Procedure.bind_eq_ok.mp isMoved with ⟨_, last, isUpdated, isPure⟩
        rcases Procedure.pure_eq_ok.mp isPure with ⟨_, rfl⟩
        have updateSteps := step_eq_ok.mp isUpdated
        rcases creates (ActiveTransaction.bounded_of_step rfl updateSteps bounded) with
          ⟨middleSettled, isFree, isCreated⟩
        rcases middleSettled.step rfl updateSteps bounded with
          ⟨partitionIds, isRoot, nextSettled, _, performs⟩
        have isAncestors : (atPosition (stored.withParents parents) streamPosition).ancestorIds =
            partition.parentIds := holds.ancestors
        obtain rfl : partition.parentIds = partitionIds := Except.ok.inj
          ((ancestorIds_of_recorded isAncestors holds.hasParents).symm.trans isRoot)
        rw [performs_atPosition (holds.withParents parents), isCreated] at performs
        refine ⟨streamPosition, parents, nextSettled,
          ⟨isPosition, isType, ordered⟩, isFree, ?_⟩
        rw [if_pos isOrdered, performs.2]
        rfl
      case isFalse isUnordered =>
        rcases Procedure.pure_eq_ok.mp isMoved with ⟨_, rfl⟩
        rcases creates bounded with ⟨middleSettled, isFree, isCreated⟩
        refine ⟨streamPosition, parents, middleSettled,
          ⟨isPosition, isType, ordered⟩, isFree, ?_⟩
        rw [if_neg isUnordered, isCreated]

/-- The position of a committed delta. -/
def committedPosition (delta : Metafile) : ℕ :=
  delta.deltaPosition.getD 0

/-- The ordered deltas of a history. -/
def orderedDeltas (deltas : List Metafile) : List Metafile :=
  deltas.filter (·.deltaType ≠ some .add)

/-- The positions of the ordered deltas of a history. -/
def orderedPositions (deltas : List Metafile) : List ℕ :=
  (orderedDeltas deltas).map committedPosition

/-- A catalog and the deltas that were committed to a partition, in commit order. -/
structure DeltaState where
  catalog : Catalog
  committed : List Metafile

namespace DeltaState

/-- A successful `commit_delta` call on a partition, in a transaction of its own. -/
def Step (partition : PartitionPath) (state : DeltaState) (event : DeltaEvent)
    (next : DeltaState) : Prop :=
  OnPartition partition state.catalog event ∧
    ∃ delta, state.catalog.Completes event.txnId event.now
        (commitDelta event.delta event.properties event.unordered) delta next.catalog ∧
      next.committed = state.committed ++ [delta]

/-- A partition to which no delta has been committed, as `stage_partition` creates it. -/
structure StartsEmpty (partition : PartitionPath) (catalog : Catalog) : Prop where
  numbered : catalog.Numbered
  isStored : ∃ stored, catalog.live partition.dir = some (.metafile stored) ∧
    Holds partition stored ∧ stored.streamPosition = none
  noDelta : ∀ id, catalog.live ⟨partition.ids, .metafile id⟩ = none

/-- The deltas of a partition and the partition's pointer to them. -/
structure DeltaChain (partition : PartitionPath) (state : DeltaState) : Prop where
  /-- Every committed delta is stored as it was returned, at its own position. -/
  stored : ∀ delta ∈ state.committed,
    state.catalog.live (partition.deltaDir (committedPosition delta)) =
      some (.metafile (writtenMetafile partition.ids delta))
  /-- There is no other delta. -/
  complete : ∀ id content, state.catalog.live ⟨partition.ids, .metafile id⟩ = some content →
    ∃ delta ∈ state.committed, id = toString (committedPosition delta)
  distinct : (state.committed.map committedPosition).Nodup
  increasing : (orderedPositions state.committed).Pairwise (· < ·)
  /-- Each ordered delta names the position of the one before it, and the first one zero. -/
  linked : (orderedDeltas state.committed).map (·.previousStreamPosition) =
    (0 :: orderedPositions state.committed).dropLast.map some
  pointer : ∃ stored, state.catalog.live partition.dir = some (.metafile stored) ∧
    stored.streamPosition = (orderedPositions state.committed).getLast?

/-- Committing an unordered delta changes nothing but that delta. -/
def UnorderedAddsOnly (partition : PartitionPath) (state : DeltaState) : Prop :=
  ∀ event next delta, state.Step partition event next →
    next.committed = state.committed ++ [delta] → delta.deltaType = some .add →
    ∀ dir, dir ≠ partition.deltaDir (committedPosition delta) →
      next.catalog.live dir = state.catalog.live dir

/-- The invariant of a run. -/
structure Invariant (partition : PartitionPath) (state : DeltaState) : Prop where
  numbered : state.catalog.Numbered
  chain : state.DeltaChain partition
  holds : ∃ stored, state.catalog.live partition.dir = some (.metafile stored) ∧
    Holds partition stored
  atMost : ∀ position ∈ orderedPositions state.committed,
    position ≤ (orderedPositions state.committed).getLast?.getD 0

variable {partition : PartitionPath} {state next : DeltaState}

theorem Invariant.start {catalog : Catalog} (starts : StartsEmpty partition catalog) :
    Invariant partition ⟨catalog, []⟩ := by
  rcases starts.isStored with ⟨stored, isStored, holds, noPosition⟩
  refine ⟨starts.numbered, ⟨by simp, ?_, by simp, by simp [orderedPositions, orderedDeltas],
    by simp [orderedPositions, orderedDeltas], ⟨stored, isStored, noPosition⟩⟩,
    ⟨stored, isStored, holds⟩, by simp [orderedPositions, orderedDeltas]⟩
  intro id content isLive
  rw [starts.noDelta id] at isLive
  cases isLive

/-- The invariant is about the history and the live objects. -/
theorem Invariant.congr (invariant : Invariant partition state) (numbered : next.catalog.Numbered)
    (sameLive : next.catalog.live = state.catalog.live)
    (sameCommitted : next.committed = state.committed) : Invariant partition next := by
  rcases invariant with
    ⟨_, ⟨stored, complete, distinct, increasing, linked, pointer⟩, holds, atMost⟩
  rw [← sameLive, ← sameCommitted] at stored complete pointer
  rw [← sameLive] at holds
  rw [← sameCommitted] at distinct increasing linked atMost
  exact ⟨numbered, ⟨stored, complete, distinct, increasing, linked, pointer⟩, holds, atMost⟩

/-- What a step does to the live objects and to the history. -/
theorem Invariant.step_eq (invariant : Invariant partition state) {event : DeltaEvent}
    (stepped : state.Step partition event next) :
    ∃ delta stored parents, next.committed = state.committed ++ [delta] ∧ next.catalog.Numbered ∧
      state.catalog.live partition.dir = some (.metafile stored) ∧ Holds partition stored ∧
      stored.streamPosition = (orderedPositions state.committed).getLast? ∧
      Positioned event.delta stored delta (committedPosition delta) ∧
      state.catalog.live (partition.deltaDir (committedPosition delta)) = none ∧
      next.catalog.live = afterDelta partition state.catalog.live delta
        (stored.withParents parents) (committedPosition delta) := by
  rcases stepped with ⟨onPartition, delta, completes, isCommitted⟩
  rcases completes.spec invariant.numbered with
    ⟨active, returns, settled, bounded, nextNumbered, sameLive⟩
  rcases invariant.chain.pointer with ⟨stored, isStored, isPointer⟩
  rcases invariant.holds with ⟨sameStored, sameIsStored, holds⟩
  obtain rfl : stored = sameStored := by
    have same := isStored.symm.trans sameIsStored
    cases same
    rfl
  rcases commitDelta_spec settled onPartition isStored holds returns bounded with
    ⟨streamPosition, parents, activeSettled, positioned, isFree, isLive⟩
  have isPosition : committedPosition delta = streamPosition := by
    simp [committedPosition, Metafile.deltaPosition, positioned.isPosition]
  rw [← isPosition] at positioned isFree isLive
  exact ⟨delta, stored, parents, isCommitted, nextNumbered activeSettled, isStored, holds,
    isPointer, positioned, isFree, sameLive.trans isLive⟩

section Append

variable {deltas : List Metafile} {delta : Metafile}

theorem orderedDeltas_append_ordered (isOrdered : delta.deltaType ≠ some .add) :
    orderedDeltas (deltas ++ [delta]) = orderedDeltas deltas ++ [delta] := by
  simp [orderedDeltas, isOrdered]

theorem orderedDeltas_append_unordered (isUnordered : delta.deltaType = some .add) :
    orderedDeltas (deltas ++ [delta]) = orderedDeltas deltas := by
  simp [orderedDeltas, isUnordered]

theorem orderedPositions_append_ordered (isOrdered : delta.deltaType ≠ some .add) :
    orderedPositions (deltas ++ [delta]) =
      orderedPositions deltas ++ [committedPosition delta] := by
  simp [orderedPositions, orderedDeltas_append_ordered isOrdered]

theorem orderedPositions_append_unordered (isUnordered : delta.deltaType = some .add) :
    orderedPositions (deltas ++ [delta]) = orderedPositions deltas := by
  simp [orderedPositions, orderedDeltas_append_unordered isUnordered]

/-- A list that starts with a default ends with its last element, or with the default. -/
theorem dropLast_append_last (positions : List ℕ) :
    (0 :: positions).dropLast ++ [positions.getLast?.getD 0] = 0 :: positions := by
  rcases List.eq_nil_or_concat positions with rfl | ⟨before, last, rfl⟩
  · rfl
  · rw [List.concat_eq_append, ← List.cons_append, List.dropLast_concat, List.getLast?_concat]
    rfl

/-- The chain grows by an ordered delta that names its last position. -/
theorem ordered_append {previousStreamPosition : ℕ}
    (increasing : (orderedPositions deltas).Pairwise (· < ·))
    (linked : (orderedDeltas deltas).map (·.previousStreamPosition) =
      (0 :: orderedPositions deltas).dropLast.map some)
    (atMost : ∀ position ∈ orderedPositions deltas,
      position ≤ (orderedPositions deltas).getLast?.getD 0)
    (isOrdered : delta.deltaType ≠ some .add)
    (isPrevious : previousStreamPosition = (orderedPositions deltas).getLast?.getD 0)
    (isLinked : delta.previousStreamPosition = some previousStreamPosition)
    (isGreater : previousStreamPosition < committedPosition delta) :
    (orderedPositions (deltas ++ [delta])).Pairwise (· < ·) ∧
      (orderedDeltas (deltas ++ [delta])).map (·.previousStreamPosition) =
        (0 :: orderedPositions (deltas ++ [delta])).dropLast.map some ∧
      ∀ position ∈ orderedPositions (deltas ++ [delta]),
        position ≤ (orderedPositions (deltas ++ [delta])).getLast?.getD 0 := by
  subst isPrevious
  rw [orderedPositions_append_ordered isOrdered, orderedDeltas_append_ordered isOrdered]
  refine ⟨?_, ?_, ?_⟩
  · rw [List.pairwise_append]
    refine ⟨increasing, by simp, ?_⟩
    intro position isPosition last isLast
    obtain rfl : last = committedPosition delta := by simpa using isLast
    exact lt_of_le_of_lt (atMost position isPosition) isGreater
  · calc (orderedDeltas deltas ++ [delta]).map (·.previousStreamPosition)
        = ((0 :: orderedPositions deltas).dropLast ++
            [(orderedPositions deltas).getLast?.getD 0]).map some := by
          rw [List.map_append, List.map_append, linked]
          simp [isLinked]
      _ = (0 :: orderedPositions deltas).map some := by rw [dropLast_append_last]
      _ = (0 :: (orderedPositions deltas ++ [committedPosition delta])).dropLast.map some := by
          rw [← List.cons_append, List.dropLast_concat]
  · intro position isPosition
    rw [List.getLast?_concat, Option.getD_some]
    rcases List.mem_append.mp isPosition with isOld | isLast
    · exact le_of_lt (lt_of_le_of_lt (atMost position isOld) isGreater)
    · exact le_of_eq (by simpa using isLast)

end Append

/-- Which objects a committed delta changes. -/
theorem afterDelta_apply {store : LiveStore} {delta parent : Metafile} {streamPosition : ℕ}
    (dir : RevisionDir) :
    afterDelta partition store delta parent streamPosition dir =
      if dir = partition.dir ∧ resolvedType delta ≠ .add then
        some (.metafile (writtenMetafile partition.parentIds (atPosition parent streamPosition)))
      else if dir = partition.deltaDir streamPosition then
        some (.metafile (writtenMetafile partition.ids delta))
      else store dir := by
  unfold afterDelta
  by_cases isOrdered : resolvedType delta = .add <;>
    by_cases isPartition : dir = partition.dir <;>
    by_cases isDelta : dir = partition.deltaDir streamPosition <;>
    simp [isOrdered, isPartition, isDelta, Function.update_apply]

theorem afterDelta_deltas {store : LiveStore} {delta parent : Metafile} {streamPosition : ℕ}
    (id : String) :
    afterDelta partition store delta parent streamPosition ⟨partition.ids, .metafile id⟩ =
      if id = toString streamPosition then
        some (.metafile (writtenMetafile partition.ids delta))
      else store ⟨partition.ids, .metafile id⟩ := by
  rw [afterDelta_apply, if_neg (fun both => partition.dir_ne_deltaDir id both.1.symm)]
  simp [PartitionPath.deltaDir]

/-- The pointer after a committed delta, and the position to which it moves. -/
theorem pointer_afterDelta {store : LiveStore} {stored delta parent : Metafile}
    (isStored : store partition.dir = some (.metafile stored)) (holds : Holds partition stored)
    (isPointer : stored.streamPosition = (orderedPositions state.committed).getLast?)
    (isType : resolvedType delta = .add ↔ delta.deltaType = some .add)
    {parents : List LocatorName} (isParent : parent = stored.withParents parents) :
    ∃ nextStored,
      afterDelta partition store delta parent (committedPosition delta) partition.dir =
        some (.metafile nextStored) ∧ Holds partition nextStored ∧
      nextStored.streamPosition =
        (orderedPositions (state.committed ++ [delta])).getLast? := by
  rw [afterDelta_apply]
  by_cases isUnordered : resolvedType delta = .add
  · rw [if_neg (fun both => both.2 isUnordered),
      if_neg (show partition.dir ≠ partition.deltaDir _ from partition.dir_ne_deltaDir _),
      isStored]
    refine ⟨stored, rfl, holds, ?_⟩
    rw [isPointer, orderedPositions_append_unordered (isType.mp isUnordered)]
  · rw [if_pos ⟨rfl, isUnordered⟩]
    subst isParent
    refine ⟨_, rfl, (holds.withParents parents).atPosition _, ?_⟩
    rw [orderedPositions_append_ordered (fun isAdd => isUnordered (isType.mpr isAdd))]
    rcases writtenMetafile_eq partition.parentIds
      (atPosition (stored.withParents parents) (committedPosition delta)) with ⟨_, isWritten⟩
    rw [isWritten, List.getLast?_concat]
    rfl

theorem Invariant.step (invariant : Invariant partition state) {event : DeltaEvent}
    (stepped : state.Step partition event next) : Invariant partition next := by
  rcases invariant.step_eq stepped with
    ⟨delta, stored, parents, isCommitted, nextNumbered, isStored, holds, isPointer, positioned,
      isFree, isLive⟩
  have isType : resolvedType delta = .add ↔ delta.deltaType = some .add := by
    simp [resolvedType, positioned.isType]
  have notTaken : ∀ old ∈ state.committed, committedPosition old ≠ committedPosition delta := by
    intro old isOld same
    have isTaken := invariant.chain.stored old isOld
    rw [same, isFree] at isTaken
    cases isTaken
  rcases pointer_afterDelta isStored holds isPointer isType rfl with
    ⟨nextStored, nextIsStored, nextHolds, nextPointer⟩
  rw [← isCommitted] at nextPointer
  rw [← isLive] at nextIsStored
  have sorted : (orderedPositions next.committed).Pairwise (· < ·) ∧
      (orderedDeltas next.committed).map (·.previousStreamPosition) =
        (0 :: orderedPositions next.committed).dropLast.map some ∧
      ∀ position ∈ orderedPositions next.committed,
        position ≤ (orderedPositions next.committed).getLast?.getD 0 := by
    rw [isCommitted]
    by_cases isUnordered : delta.deltaType = some .add
    · rw [orderedPositions_append_unordered isUnordered,
        orderedDeltas_append_unordered isUnordered]
      exact ⟨invariant.chain.increasing, invariant.chain.linked, invariant.atMost⟩
    · have isOrdered : resolvedType event.delta ≠ .add := by
        intro isAdd
        exact isUnordered (positioned.isType.trans (congrArg some isAdd))
      rcases positioned.ordered isOrdered with ⟨isLinked, isGreater⟩
      exact ordered_append invariant.chain.increasing invariant.chain.linked invariant.atMost
        isUnordered (congrArg (·.getD 0) isPointer) isLinked isGreater
  refine ⟨nextNumbered, ⟨?_, ?_, ?_, sorted.1, sorted.2.1, ⟨nextStored, nextIsStored, nextPointer⟩⟩,
    ⟨nextStored, nextIsStored, nextHolds⟩, sorted.2.2⟩
  · intro old isOld
    rw [isLive, PartitionPath.deltaDir, afterDelta_deltas]
    rw [isCommitted] at isOld
    rcases List.mem_append.mp isOld with isOld | isLast
    · have isOther : toString (committedPosition old) ≠ toString (committedPosition delta) := by
        intro same
        exact notTaken old isOld (toString_injective same)
      rw [if_neg isOther]
      exact invariant.chain.stored old isOld
    · obtain rfl : old = delta := by simpa using isLast
      rw [if_pos rfl]
  · intro id content isContent
    rw [isLive, afterDelta_deltas] at isContent
    rw [isCommitted]
    by_cases isNew : id = toString (committedPosition delta)
    · exact ⟨delta, by simp, isNew⟩
    · rw [if_neg isNew] at isContent
      rcases invariant.chain.complete id content isContent with ⟨old, isOld, isId⟩
      exact ⟨old, List.mem_append_left _ isOld, isId⟩
  · rw [isCommitted, List.map_append, List.nodup_append]
    refine ⟨invariant.chain.distinct, by simp, ?_⟩
    intro position isPosition last isLast
    rcases List.mem_map.mp isPosition with ⟨old, isOld, rfl⟩
    obtain rfl : last = committedPosition delta := by simpa using isLast
    exact notTaken old isOld

/-- Over every sequence of committed deltas, the deltas of the partition form a chain. -/
theorem deltaChain_run {catalog : Catalog} {events : List DeltaEvent}
    (starts : StartsEmpty partition catalog)
    (run : Run (Step partition) ⟨catalog, []⟩ events state) :
    state.DeltaChain partition ∧ state.UnorderedAddsOnly partition := by
  have invariant : Invariant partition state :=
    run.invariant (Invariant.start starts) (fun _ _ _ holds stepped => holds.step stepped)
  refine ⟨invariant.chain, ?_⟩
  intro event next delta stepped isCommitted isUnordered dir isOther
  rcases invariant.step_eq stepped with
    ⟨sameDelta, stored, parents, sameCommitted, _, _, _, _, positioned, _, isLive⟩
  obtain rfl : delta = sameDelta := by simpa using isCommitted.symm.trans sameCommitted
  have isAdd : resolvedType delta = .add := by simp [resolvedType, isUnordered]
  rw [isLive, afterDelta_apply, if_neg (fun both => both.2 isAdd), if_neg isOther]

end DeltaState

section Examples

/-- A partition of the stream, as it is committed. -/
def euPartition : Metafile :=
  { newPartition regionStream.locator (some ["eu"]) "p1" none (some "s") none with
    state := some .committed }

/-- The stream's catalog with that partition, committed at time 6 as well. -/
def euCatalog : Catalog :=
  (streamCatalog.writeTxn streamFounder (.create euPartition)).1

def euPath : PartitionPath := ⟨["n1", "t1", "1", "st"], "p1"⟩

theorem euCatalog_numbered : euCatalog.Numbered := by
  have wellFormed : euCatalog.WellFormed := streamCatalog_numbered.wellFormed.writeTxn
    streamFounder (show (create euPartition).isWrite from rfl)
  exact ⟨wellFormed, by decide +kernel, by decide +kernel⟩

theorem euCatalog_startsEmpty : DeltaState.StartsEmpty euPath euCatalog := by
  refine ⟨euCatalog_numbered, ⟨writtenMetafile euPath.parentIds euPartition, by decide +kernel,
    ⟨⟨some ["eu"], rfl⟩, by decide, rfl, by decide⟩, rfl⟩, ?_⟩
  intro id
  by_contra isLive
  rcases Option.ne_none_iff_exists'.mp isLive with ⟨content, isContent⟩
  rcases Catalog.live_eq_some.mp isContent with ⟨file, isCurrent, _⟩
  rcases Catalog.current_eq_some isCurrent with ⟨fileMem, isDir, _⟩
  have noDelta : ∀ file ∈ euCatalog.files, file.dir.parentIds ≠ euPath.ids := by
    decide +kernel
  exact noDelta file fileMem (congrArg RevisionDir.parentIds isDir)

/-- A delta of a given type, staged for the partition before any ordered delta is committed. -/
def euDelta (deltaType : DeltaType) : Metafile where
  locator := .deltaLocatorOf euPartition.locator none
  deltaType := some deltaType
  manifest := some []

/-- Committing such a delta. -/
def commitsDelta (time : ℕ) (deltaType : DeltaType) : DeltaEvent where
  txnId := .numbered time 3
  now := some (time + 1)
  delta := euDelta deltaType
  properties := []
  unordered := ⟨2 ^ 40, by decide, by decide⟩

/-- Such a call is on the partition if it finds the partition and its ancestors. -/
theorem onPartition_commitsDelta {catalog : Catalog} {time : ℕ} {deltaType : DeltaType}
    (stored : Metafile) (isStored : catalog.live euPath.dir = some (.metafile stored))
    (isFound : catalog.returned (commitsDelta time deltaType).txnId
      (getParentPartition (commitsDelta time deltaType).delta) =
        some (some (stored.withParents regionStream.locator.names)))
    (sameLocator : (stored.withParents regionStream.locator.names).locator = euPartition.locator)
    (isBelow : catalog.ancestorIdsFrom (Catalog.readerOf (commitsDelta time deltaType).txnId)
      euPartition.locator.names [] = .ok euPath.ids) :
    OnPartition euPath catalog (commitsDelta time deltaType) := by
  have isParent : ∀ found final, getParentPartition (commitsDelta time deltaType).delta
      ⟨Transaction.start (commitsDelta time deltaType).txnId false [], catalog⟩ =
        .ok (some found) final → found = stored.withParents regionStream.locator.names := by
    intro found final returns
    rw [Catalog.returned_of_ok returns] at isFound
    simpa using isFound
  constructor
  · intro found final returns
    exact ⟨stored, _, isStored, isParent found final returns⟩
  · intro found final returns streamPosition previousStreamPosition parentIds isRoot
    rw [isParent found final returns] at isRoot
    have sameRoot : catalog.ancestorIds (Catalog.readerOf (commitsDelta time deltaType).txnId)
        (resolvedDelta (commitsDelta time deltaType).delta
          (stored.withParents regionStream.locator.names)
          (commitsDelta time deltaType).properties streamPosition previousStreamPosition) =
        catalog.ancestorIdsFrom (Catalog.readerOf (commitsDelta time deltaType).txnId)
          (stored.withParents regionStream.locator.names).locator.names [] := rfl
    rw [sameRoot, sameLocator, isBelow] at isRoot
    cases isRoot
    rfl

/-- The catalog after such a call. -/
def afterCommit (catalog : Catalog) (event : DeltaEvent) : Catalog :=
  catalog.completed event.txnId event.now
    (commitDelta event.delta event.properties event.unordered)

namespace DeltaState

theorem step_afterCommit {catalog : Catalog} {event : DeltaEvent} (committed : List Metafile)
    (onPartition : OnPartition euPath catalog event) (seesAll : catalog.AllVisible event.txnId)
    (isCompleted : catalog.isCompleted event.txnId event.now
      (commitDelta event.delta event.properties event.unordered))
    (bounded : ∀ file ∈ (afterCommit catalog event).files,
      file.info.revision ≤ maxRevisionNumber) :
    ∃ delta, Step euPath ⟨catalog, committed⟩ event
      ⟨afterCommit catalog event, committed ++ [delta]⟩ := by
  rcases Catalog.completes_of_isCompleted seesAll isCompleted bounded with ⟨delta, completes⟩
  exact ⟨delta, onPartition, delta, completes, rfl⟩

/-- An ordered and an unordered delta are committed, and form a chain. -/
theorem deltaChain_run_mixed :
    ∃ events state, Run (Step euPath) ⟨euCatalog, []⟩ events state ∧
      state.committed.length = 2 ∧ state.DeltaChain euPath ∧ state.UnorderedAddsOnly euPath := by
  let append := commitsDelta 10 .append
  let add := commitsDelta 20 .add
  have appendOn : OnPartition euPath euCatalog append :=
    onPartition_commitsDelta (writtenMetafile euPath.parentIds euPartition)
      (by decide +kernel) (by decide +kernel) rfl (by decide +kernel)
  rcases step_afterCommit [] appendOn (by decide +kernel) (by decide +kernel)
    (by decide +kernel) with ⟨first, appended⟩
  have addOn : OnPartition euPath (afterCommit euCatalog append) add :=
    onPartition_commitsDelta (writtenMetafile euPath.parentIds (atPosition euPartition 1))
      (by decide +kernel) (by decide +kernel) rfl (by decide +kernel)
  rcases step_afterCommit [first] addOn (by decide +kernel) (by decide +kernel)
    (by decide +kernel) with ⟨second, added⟩
  have run := (Run.nil.snoc appended).snoc added
  exact ⟨_, _, run, rfl, deltaChain_run euCatalog_startsEmpty run⟩

end DeltaState

end Examples

end Deltacat.Storage
