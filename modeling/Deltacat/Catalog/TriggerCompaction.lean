import Deltacat.Storage.DeltaMerge
import Mathlib.Data.List.Sort
import Mathlib.Tactic

/-!
# Triggering compaction

After a write, `_trigger_compaction` decides whether the partition is compacted. Deletes and
upserts always are, appends once the deltas since the last compaction reach one of three
triggers. The deltas are meant to be listed from stream position 2 on, since a compacted
partition begins with the compacted delta. But `list_deltas` has no parameter
`start_stream_position`: the keyword argument is passed on and read by nobody, so the
compacted delta is counted as if it had been appended.
-/

namespace Deltacat.Catalog

open Deltacat.Storage

inductive TableReadOptimizationLevel
  | none
  | moderate
  | max
  deriving DecidableEq

/-- The properties of a table version that the trigger reads; a property may be absent. -/
structure TableProperties where
  readOptimizationLevel : Option TableReadOptimizationLevel := none
  appendedRecordCountCompactionTrigger : Option (Option ℕ) := none
  appendedFileCountCompactionTrigger : Option (Option ℕ) := none
  appendedDeltaCountCompactionTrigger : Option (Option ℕ) := none
  deriving DecidableEq

/-- `MAX_RECORDS_PER_COMPACTED_FILE`. -/
def maxRecordsPerCompactedFile : ℕ := 4000000

namespace TableProperties

variable (properties : TableProperties)

/-! `read_table_property`, with `TablePropertyDefaultValues`. -/

def readReadOptimizationLevel : TableReadOptimizationLevel :=
  properties.readOptimizationLevel.getD .max

def readRecordTrigger : Option ℕ :=
  properties.appendedRecordCountCompactionTrigger.getD (some (maxRecordsPerCompactedFile * 16))

def readFileTrigger : Option ℕ :=
  properties.appendedFileCountCompactionTrigger.getD (some 1000)

def readDeltaTrigger : Option ℕ :=
  properties.appendedDeltaCountCompactionTrigger.getD (some 100)

end TableProperties

/-- A delta of a partition: committing it gives it a stream position. -/
structure CommittedDelta where
  delta : Delta
  streamPosition : ℕ
  isPosition : delta.locator.streamPosition = some streamPosition

/--
`list_deltas` of a partition. The keyword arguments that it does not know are handed to the
functions that resolve the partition, none of which reads them.
-/
def listDeltas (partition : List CommittedDelta) (firstStreamPosition lastStreamPosition : Option ℕ)
    (ascendingOrder : Bool) (_kwargs : List (String × ℕ)) : Except Error (List CommittedDelta) :=
  if ∃ first ∈ firstStreamPosition, ∃ last ∈ lastStreamPosition, last < first then
    .error .valueError
  else
    let filteredDeltas := partition.filter fun delta =>
      firstStreamPosition.all (· ≤ delta.streamPosition) &&
        lastStreamPosition.all (delta.streamPosition ≤ ·)
    .ok (filteredDeltas.mergeSort fun left right =>
      if ascendingOrder then left.streamPosition ≤ right.streamPosition
      else right.streamPosition ≤ left.streamPosition)

/-- A trigger that is set and reached. -/
def reaches (trigger : Option ℕ) (count : ℕ) : Bool :=
  trigger.any fun threshold => threshold ≠ 0 ∧ threshold ≤ count

/-- The number of files of some deltas. -/
def fileCount (deltas : List CommittedDelta) : ℕ :=
  (deltas.map fun delta => delta.delta.entries.length).sum

/-- The number of records of some deltas, as far as it is known. -/
def recordCount (deltas : List CommittedDelta) : ℕ :=
  (deltas.map fun delta => (delta.delta.metadata.bind (·.recordCount)).getD 0).sum

/-- `_trigger_compaction`, for the partition of the latest delta. -/
def triggerCompaction (properties : TableProperties) (latestDelta : Option Delta)
    (targetReadOptimizationLevel : TableReadOptimizationLevel) (partition : List CommittedDelta) :
    Except Error Bool :=
  match latestDelta with
  | none => .ok false
  | some latestDelta =>
      if properties.readReadOptimizationLevel = targetReadOptimizationLevel then
        match latestDelta.type with
        | some .delete | some .upsert => .ok true
        | some .append | some .add => do
            -- The last compacted delta will always have stream position 1.
            let deltas ← listDeltas partition none none false [("start_stream_position", 2)]
            if deltas.isEmpty then return false
            else if reaches properties.readDeltaTrigger deltas.length then return true
            else if reaches properties.readFileTrigger (fileCount deltas) then return true
            else if reaches properties.readRecordTrigger (recordCount deltas) then return true
            else return false
        | none => .error .runtimeError
      else .ok false

/-- A committed partition, with the stream position up to which its deltas are compacted. -/
structure CommittedPartition where
  deltas : List CommittedDelta
  compactedPosition : Option ℕ

namespace CommittedPartition

/-- A partition to which nothing was written. -/
def empty : CommittedPartition where
  deltas := []
  compactedPosition := none

/-- Commit a delta at a stream position. -/
def place (delta : Delta) (streamPosition : ℕ) : CommittedDelta where
  delta := { delta with locator := { delta.locator with streamPosition := some streamPosition } }
  streamPosition := streamPosition
  isPosition := rfl

/-- Committing an appended delta gives it the next position. -/
def append (partition : CommittedPartition) (delta : Delta) : CommittedPartition :=
  { partition with deltas := partition.deltas ++ [place delta (partition.deltas.length + 1)] }

/-- Compaction replaces the partition by one that begins with the compacted delta. -/
def compact (_partition : CommittedPartition) (compacted : Delta) : CommittedPartition where
  deltas := [place compacted 1]
  compactedPosition := some 1

/-- The deltas that were appended after the last compaction. -/
def newDeltas (partition : CommittedPartition) : List CommittedDelta :=
  partition.deltas.filter fun delta => partition.compactedPosition.all (· < delta.streamPosition)

@[simp] theorem newDeltas_compact (partition : CommittedPartition) (compacted : Delta) :
    (partition.compact compacted).newDeltas = [] := by
  simp [newDeltas, compact, place]

end CommittedPartition

/-- Some deltas reach one of the triggers. -/
def TableProperties.Reached (properties : TableProperties) (deltas : List CommittedDelta) : Prop :=
  reaches properties.readDeltaTrigger deltas.length ∨
    reaches properties.readFileTrigger (fileCount deltas) ∨
      reaches properties.readRecordTrigger (recordCount deltas)

/-- The decision is the one that the new deltas alone lead to. -/
def CountsNewWork (properties : TableProperties) (latestDelta : Option Delta)
    (target : TableReadOptimizationLevel) (partition : CommittedPartition) : Prop :=
  triggerCompaction properties latestDelta target partition.deltas =
    triggerCompaction properties latestDelta target partition.newDeltas

/-- The decision depends on the triggers: an append to a table of the target level. -/
def ReadsTriggers (properties : TableProperties) (latestDelta : Option Delta)
    (target : TableReadOptimizationLevel) : Prop :=
  properties.readReadOptimizationLevel = target ∧
    ∃ delta ∈ latestDelta, delta.type = some .append ∨ delta.type = some .add

section Decision

variable {properties : TableProperties} {latestDelta : Option Delta}
  {target : TableReadOptimizationLevel} {deltas : List CommittedDelta}

theorem reaches_zero (trigger : Option ℕ) : reaches trigger 0 = false := by
  cases trigger with
  | none => rfl
  | some threshold => simp [reaches]

theorem reaches_mono {trigger : Option ℕ} {less more : ℕ} (le : less ≤ more)
    (isReached : reaches trigger less) : reaches trigger more := by
  cases trigger with
  | none => exact isReached
  | some threshold =>
      simp only [reaches, Option.any_some, decide_eq_true_eq] at isReached ⊢
      exact ⟨isReached.1, isReached.2.trans le⟩

/-- Listing without bounds only sorts. -/
theorem exists_listDeltas (ascendingOrder : Bool) (kwargs : List (String × ℕ)) :
    ∃ listed, listDeltas deltas none none ascendingOrder kwargs = .ok listed ∧
      listed.Perm deltas := by
  refine ⟨_, if_neg (by simp), ?_⟩
  simp [List.mergeSort_perm]

theorem fileCount_perm {listed : List CommittedDelta} (perm : listed.Perm deltas) :
    fileCount listed = fileCount deltas :=
  (perm.map _).sum_eq

theorem recordCount_perm {listed : List CommittedDelta} (perm : listed.Perm deltas) :
    recordCount listed = recordCount deltas :=
  (perm.map _).sum_eq

/-- What the decision on an append depends on. -/
theorem triggerCompaction_append (reads : ReadsTriggers properties latestDelta target) :
    ∃ answer, triggerCompaction properties latestDelta target deltas = .ok answer ∧
      (answer = true ↔ properties.Reached deltas) := by
  rcases reads with ⟨isTarget, latest, rfl, isAppend⟩
  rcases @exists_listDeltas deltas false [("start_stream_position", 2)] with
    ⟨listed, isListed, perm⟩
  have decision : triggerCompaction properties (some latest) target deltas =
      if listed.isEmpty then .ok false
      else if reaches properties.readDeltaTrigger listed.length then .ok true
      else if reaches properties.readFileTrigger (fileCount listed) then .ok true
      else if reaches properties.readRecordTrigger (recordCount listed) then .ok true
      else .ok false := by
    rcases isAppend with isAppend | isAdd
    · simp only [triggerCompaction, if_pos isTarget, isAppend, isListed]
      rfl
    · simp only [triggerCompaction, if_pos isTarget, isAdd, isListed]
      rfl
  rw [decision, TableProperties.Reached, ← perm.length_eq, ← fileCount_perm perm,
    ← recordCount_perm perm]
  cases listed with
  | nil => exact ⟨false, rfl, by simp [reaches_zero, fileCount, recordCount]⟩
  | cons first rest =>
      simp only [List.isEmpty_cons, Bool.false_eq_true, if_false]
      split_ifs with byDeltas byFiles byRecords
      · exact ⟨true, rfl, iff_of_true rfl (Or.inl byDeltas)⟩
      · exact ⟨true, rfl, iff_of_true rfl (Or.inr (Or.inl byFiles))⟩
      · exact ⟨true, rfl, iff_of_true rfl (Or.inr (Or.inr byRecords))⟩
      · refine ⟨false, rfl, iff_of_false Bool.false_ne_true ?_⟩
        rintro (isReached | isReached | isReached)
        · exact byDeltas isReached
        · exact byFiles isReached
        · exact byRecords isReached

/-- Where no trigger is read, the deltas of the partition do not matter. -/
theorem triggerCompaction_of_not_readsTriggers
    (readsNone : ¬ReadsTriggers properties latestDelta target)
    (others : List CommittedDelta) :
    triggerCompaction properties latestDelta target deltas =
      triggerCompaction properties latestDelta target others := by
  cases latestDelta with
  | none => rfl
  | some latest =>
      by_cases isTarget : properties.readReadOptimizationLevel = target
      · have notAppend : ¬(latest.type = some .append ∨ latest.type = some .add) :=
          fun isAppend => readsNone ⟨isTarget, latest, rfl, isAppend⟩
        simp only [triggerCompaction, if_pos isTarget]
        match isType : latest.type with
        | none => rfl
        | some .delete => rfl
        | some .upsert => rfl
        | some .append => exact absurd (Or.inl isType) notAppend
        | some .add => exact absurd (Or.inr isType) notAppend
      · simp only [triggerCompaction, if_neg isTarget]

theorem TableProperties.Reached.mono {less : List CommittedDelta}
    (isReached : properties.Reached less) (sub : less.Sublist deltas) :
    properties.Reached deltas := by
  refine isReached.imp (reaches_mono sub.length_le) (Or.imp (reaches_mono ?_) (reaches_mono ?_))
  · exact (sub.map _).sum_le_sum fun _ _ => Nat.zero_le _
  · exact (sub.map _).sum_le_sum fun _ _ => Nat.zero_le _

/--
The decision counts only new work if and only if it does not read the triggers, or the
deltas of the partition reach a trigger only where the new ones alone do.
-/
theorem countsNewWork_iff (properties : TableProperties) (latestDelta : Option Delta)
    (target : TableReadOptimizationLevel) (partition : CommittedPartition) :
    CountsNewWork properties latestDelta target partition ↔
      (ReadsTriggers properties latestDelta target → properties.Reached partition.deltas →
        properties.Reached partition.newDeltas) := by
  by_cases reads : ReadsTriggers properties latestDelta target
  · rcases @triggerCompaction_append _ _ _ partition.deltas reads with
      ⟨answer, decided, isAnswer⟩
    rcases @triggerCompaction_append _ _ _ partition.newDeltas reads with
      ⟨newAnswer, newDecided, isNewAnswer⟩
    rw [CountsNewWork, decided, newDecided, Except.ok.injEq, Bool.eq_iff_iff, isAnswer,
      isNewAnswer, forall_prop_of_true reads]
    have mono : properties.Reached partition.newDeltas → properties.Reached partition.deltas :=
      fun isReached => isReached.mono List.filter_sublist
    exact ⟨Iff.mp, fun onlyNew => ⟨onlyNew, mono⟩⟩
  · exact iff_of_true (triggerCompaction_of_not_readsTriggers reads _)
      fun isRead => absurd isRead reads

end Decision

section Examples

open CommittedPartition

/-- An append without files. -/
def smallAppend : Delta where
  locator := ⟨⟨[], .partitionName none (some "p")⟩, none⟩
  type := some .append
  metadata := none
  properties := none
  manifest := none
  previousStreamPosition := none

/-- A table that is compacted after every second append. -/
def everySecond : TableProperties where
  appendedDeltaCountCompactionTrigger := some (some 2)

/-- The first append after a compaction triggers the next one. -/
theorem not_countsNewWork :
    ¬∀ (properties : TableProperties) (latestDelta : Option Delta)
        (target : TableReadOptimizationLevel) (partition : CommittedPartition),
      CountsNewWork properties latestDelta target partition := by
  intro claim
  have onlyNew := claim everySecond (some smallAppend) .max
    ((((empty.append smallAppend).append smallAppend).compact smallAppend).append smallAppend)
  have reads : ReadsTriggers everySecond (some smallAppend) .max :=
    ⟨rfl, smallAppend, rfl, Or.inl rfl⟩
  rcases @triggerCompaction_append _ _ _ ((((empty.append smallAppend).append
    smallAppend).compact smallAppend).append smallAppend).deltas reads with
    ⟨answer, decided, isAnswer⟩
  rcases @triggerCompaction_append _ _ _ ((((empty.append smallAppend).append
    smallAppend).compact smallAppend).append smallAppend).newDeltas reads with
    ⟨newAnswer, newDecided, isNewAnswer⟩
  rw [CountsNewWork, decided, newDecided, Except.ok.injEq] at onlyNew
  have isReached : answer = true := isAnswer.mpr (Or.inl rfl)
  have notReached : newAnswer ≠ true := by
    rw [ne_eq, isNewAnswer]
    rintro (isReached | isReached | isReached) <;> revert isReached <;> decide
  exact notReached (onlyNew ▸ isReached)

end Examples

end Deltacat.Catalog
