import Deltacat.Compute.CompactorV2.BucketReplay

/-!
# Compaction sessions

A session compacts the deltas that were committed since the last one into the manifest that
the last one has left. Its rounds get parts of the uniform deltas, but all deletes and the
whole compacted manifest. A local merge, which is done for a single bucket, does not get the
compacted manifest. Hence the bag of the new manifest is the one that the deltas make of the
bag of the old one, which counts as often as there are rounds, or not at all
(`compactInputDeltas_holds`).
-/

namespace Deltacat.Compute.CompactorV2

open Deltacat.Library Deltacat.Storage Deltacat.Utils

/-- What a session leaves to the next one: the manifest of the compacted delta. -/
structure CompactedRound where
  roundCompletionInfo : RoundCompletionInfo
  manifest : Option Manifest

section Session

variable {Value Bytes Count : Type} (params : CompactPartitionParams Value Bytes Count)

namespace CompactPartitionParams

/-- What the hash bucket tasks of a round are given. -/
def bucketing (round : ℕ) : BucketingParams Value where
  read := params.read
  hashing := params.hashing
  batches := params.batches
  primaryKeys := params.primaryKeys
  uuids := params.hashBucketUuids round

/-- What a merge task of a round is given. -/
def mergeTaskInput (previous : Option CompactedRound)
    (deleteFileEnvelopes : Option (List (DeleteFileEnvelope Value))) (round task : ℕ) :
    MergeTaskInput Value where
  hashing := params.hashing
  arrow := params.arrow
  sortBy := params.sortBy
  primaryKeys := params.primaryKeys
  sortKeys := params.sortKeys
  dropDuplicates := params.dropDuplicates
  originalFields := params.originalFields
  deleteFileEnvelopes := deleteFileEnvelopes
  roundCompletionInfo := previous.map CompactedRound.roundCompletionInfo
  compactedManifest := previous.bind CompactedRound.manifest
  disableCopyByReference := params.disableCopyByReference
  writeToPartition := params.compactedPartition
  storage := params.storage
  uuids := params.mergeUuids round task

end CompactPartitionParams

/-- `generate_local_merge_input`, which passes no compacted manifest. -/
def generateLocalMergeInput (previous : Option CompactedRound)
    (deleteFileEnvelopes : Option (List (DeleteFileEnvelope Value))) (round : ℕ) :
    MergeTaskInput Value :=
  { params.mergeTaskInput previous deleteFileEnvelopes round 0 with compactedManifest := none }

variable [LinearOrder Value]

/-- `_run_hash_and_merge`. -/
def runHashAndMerge (numBuckets numGroups : ℕ) [NeZero numBuckets] [NeZero numGroups]
    (previous : Option CompactedRound)
    (deleteFileEnvelopes : Option (List (DeleteFileEnvelope Value)))
    (uniformDeltas : List Compactor.DeltaAnnotated) (round : ℕ) :
    Except Error (List MergeResult) :=
  if numBuckets = 1 then do
    let mergeFileGroups ← createLocal params.read uniformDeltas
    let localMergeResult ←
      timedMerge (generateLocalMergeInput params previous deleteFileEnvelopes round) mergeFileGroups
    return [localMergeResult]
  else do
    let mergeTasks ← mergeFileGroups (params.bucketing round) numBuckets numGroups uniformDeltas
    mergeTasks.zipIdx.mapM fun task =>
      timedMerge (params.mergeTaskInput previous deleteFileEnvelopes round task.2) task.1

variable [Add Bytes] [Zero Bytes] [LE Bytes] [DecidableLE Bytes] [NatCast Count] [LE Count]
  [DecidableLE Count]

/-- What `_execute_compaction` does with the deltas that it has found. -/
def compactInputDeltas (numBuckets numGroups : ℕ) [NeZero numBuckets] [NeZero numGroups]
    (previous : Option CompactedRound) (inputDeltas : List InputDelta) :
    Except Error CompactedRound := do
  let (uniformDeltas, deleteFileEnvelopes) ← buildUniformDeltas params inputDeltas
  let uniformDeltasGrouped ← groupUniformDeltas params.numRounds uniformDeltas
  let mergeResultList ← uniformDeltasGrouped.zipIdx.mapM fun round =>
    runHashAndMerge params numBuckets numGroups previous deleteFileEnvelopes round.1 round.2
  let (mergedDelta, _, hbIdToEntryIndicesRange) ← processMergeResults params.numRounds
    params.lastStreamPositionToCompact mergeResultList.flatten params.manifestUuid
  let compactedDelta ← params.storage.commitDelta mergedDelta
  return {
    roundCompletionInfo := {
      highWatermark := compactedDelta.locator.streamPosition
      hashBucketCount := numBuckets
      hbIndexToEntryRange := some hbIdToEntryIndicesRange }
    manifest := compactedDelta.manifest }

end Session

section Results

variable {Value : Type} (storage : CompactionStorage Value) (writeToPartition : Metafile)
  (all : Table String Value) (bucket : Row String Value → ℕ) (numBuckets : ℕ)

/-- Results with the rows of a bag in their buckets, of which each has a few results. -/
structure Makes (atMost : ℕ) (bag : List (Row String Value)) (results : List MaterializeResult) :
    Prop where
  counted : ∀ result ∈ results, result.pyarrowWriteResult.files = result.delta.entries.length
  staged : ∀ result ∈ results, StagedFor storage writeToPartition all result.delta
  bounded : ∀ result ∈ results, result.taskIndex < numBuckets
  atMost : ∀ hbIndex, (resultsOf results hbIndex).length ≤ atMost
  ofBucket : ∀ hbIndex, (storage.rows ((resultsOf results hbIndex).flatMap (·.delta.entries))).Perm
    (bag.filter (bucket · = hbIndex))

variable {storage writeToPartition all bucket numBuckets} {first second : ℕ}
  {bag other : List (Row String Value)} {results more : List MaterializeResult}

theorem Makes.nil : Makes storage writeToPartition all bucket numBuckets 0 [] [] where
  counted := by simp
  staged := by simp
  bounded := by simp
  atMost _ := le_rfl
  ofBucket _ := List.Perm.refl _

theorem Makes.append
    (isFirst : Makes storage writeToPartition all bucket numBuckets first bag results)
    (isSecond : Makes storage writeToPartition all bucket numBuckets second other more) :
    Makes storage writeToPartition all bucket numBuckets (first + second) (bag ++ other)
      (results ++ more) where
  counted := List.forall_mem_append.mpr ⟨isFirst.counted, isSecond.counted⟩
  staged := List.forall_mem_append.mpr ⟨isFirst.staged, isSecond.staged⟩
  bounded := List.forall_mem_append.mpr ⟨isFirst.bounded, isSecond.bounded⟩
  atMost hbIndex := by
    rw [resultsOf, List.filter_append, List.length_append]
    exact Nat.add_le_add (isFirst.atMost hbIndex) (isSecond.atMost hbIndex)
  ofBucket hbIndex := by
    rw [resultsOf, List.filter_append, List.flatMap_append, storage.rows_append,
      List.filter_append]
    exact (isFirst.ofBucket hbIndex).append (isSecond.ofBucket hbIndex)

theorem Makes.perm (makes : Makes storage writeToPartition all bucket numBuckets first bag results)
    (sameBag : bag.Perm other) (sameResults : results.Perm more) :
    Makes storage writeToPartition all bucket numBuckets first other more where
  counted result resultMem := makes.counted result (sameResults.mem_iff.mpr resultMem)
  staged result resultMem := makes.staged result (sameResults.mem_iff.mpr resultMem)
  bounded result resultMem := makes.bounded result (sameResults.mem_iff.mpr resultMem)
  atMost hbIndex := by
    have sameOf : (resultsOf results hbIndex).Perm (resultsOf more hbIndex) := sameResults.filter _
    rw [← sameOf.length_eq]
    exact makes.atMost hbIndex
  ofBucket hbIndex := by
    have sameOf : (resultsOf results hbIndex).Perm (resultsOf more hbIndex) := sameResults.filter _
    have sameRows : (storage.rows ((resultsOf results hbIndex).flatMap (·.delta.entries))).Perm
        (storage.rows ((resultsOf more hbIndex).flatMap (·.delta.entries))) := by
      rw [storage.rows_flatMap, storage.rows_flatMap]
      exact sameOf.flatMap_right _
    exact sameRows.symm.trans ((makes.ofBucket hbIndex).trans (sameBag.filter _))

/-- All rows of the results are those of the bag. -/
theorem Makes.content
    (makes : Makes storage writeToPartition all bucket numBuckets first bag results)
    (inBucket : ∀ row ∈ bag, bucket row < numBuckets) :
    (storage.rows (results.flatMap (·.delta.entries))).Perm bag := by
  have byBucket : ((List.range numBuckets).flatMap (resultsOf results)).Perm results :=
    flatMap_filter_perm makes.bounded
  have sameRows := byBucket.flatMap_right fun result => storage.rows result.delta.entries
  rw [storage.rows_flatMap]
  refine sameRows.symm.trans ?_
  rw [List.flatMap_assoc]
  refine List.Perm.trans ?_ (flatMap_filter_perm inBucket)
  apply List.Perm.flatMap_left
  intro hbIndex _
  rw [← storage.rows_flatMap]
  exact makes.ofBucket hbIndex

end Results

section Outcomes

variable {Value : Type} [LinearOrder Value] {input : MergeTaskInput Value}
  {columnNames : List String} {all : Table String Value} {numBuckets : ℕ} [NeZero numBuckets]
  {bag target : List (Row String Value)} {groups : List (MergeFileGroup Value)}
  {outcomes : List (Option MaterializeResult)} {results : List MaterializeResult}

omit [LinearOrder Value] in
theorem MergeTaskInput.bucket_lt (row : Row String Value) :
    input.bucket numBuckets row < numBuckets :=
  Fin.isLt _

theorem mem_of_outcomes
    (areOutcomes : List.Forall₂ (input.Outcome columnNames all numBuckets bag) groups outcomes)
    {result : MaterializeResult} (resultMem : some result ∈ outcomes) :
    ∃ group ∈ groups, input.Outcome columnNames all numBuckets bag group (some result) := by
  induction areOutcomes with
  | nil => cases resultMem
  | @cons group outcome groups outcomes isOutcome _ ih =>
      rcases List.mem_cons.mp resultMem with rfl | inRest
      · exact ⟨group, List.mem_cons_self, isOutcome⟩
      · rcases ih inRest with ⟨other, otherMem, isOther⟩
        exact ⟨other, List.mem_cons_of_mem group otherMem, isOther⟩

/-- The results of a bucket are at most as many as its file groups, and have its rows. -/
theorem resultsOf_outcomes
    (areOutcomes : List.Forall₂ (input.Outcome columnNames all numBuckets bag) groups outcomes)
    (content : ∀ group ∈ groups, (replay (input.merging numBuckets)
      (bag.filter (input.bucket numBuckets · = group.hbIndex))
      (input.changes columnNames group)).Perm
        (target.filter (input.bucket numBuckets · = group.hbIndex))) (hbIndex : ℕ) :
    (resultsOf outcomes.reduceOption hbIndex).length ≤
        (groups.map MergeFileGroup.hbIndex).count hbIndex ∧
      (input.storage.rows ((resultsOf outcomes.reduceOption hbIndex).flatMap
          (·.delta.entries))).Perm
        (List.replicate ((groups.map MergeFileGroup.hbIndex).count hbIndex)
          (target.filter (input.bucket numBuckets · = hbIndex))).flatten := by
  induction areOutcomes with
  | nil => exact ⟨le_rfl, List.Perm.refl _⟩
  | @cons group outcome groups outcomes isOutcome _ ih =>
      rcases ih fun other otherMem => content other (List.mem_cons_of_mem group otherMem) with
        ⟨fewer, areRows⟩
      have ofGroup := isOutcome.content.trans (content group List.mem_cons_self)
      by_cases isBucket : group.hbIndex = hbIndex
      · subst isBucket
        rw [List.map_cons, List.count_cons_self, List.replicate_succ, List.flatten_cons]
        cases outcome with
        | none =>
            refine ⟨fewer.trans (Nat.le_succ _), ?_⟩
            rw [List.reduceOption_cons_of_none]
            exact areRows.trans (List.Perm.append_right _ ofGroup)
        | some result =>
            have sameIndex := isOutcome.taskIndex result rfl
            rw [List.reduceOption_cons_of_some, resultsOf,
              List.filter_cons_of_pos (by simpa using sameIndex), List.length_cons,
              List.flatMap_cons, input.storage.rows_append]
            refine ⟨Nat.succ_le_succ fewer, List.Perm.append ?_ areRows⟩
            simpa using ofGroup
      · rw [List.map_cons, List.count_cons_of_ne isBucket]
        cases outcome with
        | none =>
            rw [List.reduceOption_cons_of_none]
            exact ⟨fewer, areRows⟩
        | some result =>
            have sameIndex := isOutcome.taskIndex result rfl
            rw [List.reduceOption_cons_of_some, resultsOf,
              List.filter_cons_of_neg (by simpa [sameIndex] using isBucket)]
            exact ⟨fewer, areRows⟩

/-- The outcomes of all buckets make the bag whose buckets they have. -/
theorem makes_of_outcomes
    (areOutcomes : List.Forall₂ (input.Outcome columnNames all numBuckets bag) groups outcomes)
    (buckets : (groups.map MergeFileGroup.hbIndex).Perm (List.range numBuckets))
    (content : ∀ group ∈ groups, (replay (input.merging numBuckets)
      (bag.filter (input.bucket numBuckets · = group.hbIndex))
      (input.changes columnNames group)).Perm
        (target.filter (input.bucket numBuckets · = group.hbIndex)))
    (sameResults : results.Perm outcomes.reduceOption) :
    Makes input.storage input.writeToPartition all (input.bucket numBuckets) numBuckets 1 target
      results := by
  have ofResult : ∀ result ∈ outcomes.reduceOption, ∃ group ∈ groups,
      input.Outcome columnNames all numBuckets bag group (some result) :=
    fun result resultMem =>
      mem_of_outcomes areOutcomes (List.reduceOption_mem_iff.mp resultMem)
  have counts : ∀ hbIndex, (groups.map MergeFileGroup.hbIndex).count hbIndex =
      if hbIndex < numBuckets then 1 else 0 := by
    intro hbIndex
    rw [buckets.count_eq, List.nodup_range.count]
    simp
  refine Makes.perm ⟨?_, ?_, ?_, ?_, ?_⟩ (List.Perm.refl target) sameResults.symm
  · intro result resultMem
    rcases ofResult result resultMem with ⟨group, _, isOutcome⟩
    exact isOutcome.counted result rfl
  · intro result resultMem
    rcases ofResult result resultMem with ⟨group, _, isOutcome⟩
    exact isOutcome.staged result rfl
  · intro result resultMem
    rcases ofResult result resultMem with ⟨group, groupMem, isOutcome⟩
    rw [isOutcome.taskIndex result rfl, ← List.mem_range, ← buckets.mem_iff]
    exact List.mem_map_of_mem groupMem
  · intro hbIndex
    have fewer := (resultsOf_outcomes areOutcomes content hbIndex).1
    rw [counts] at fewer
    exact fewer.trans (by split_ifs <;> simp)
  · intro hbIndex
    have areRows := (resultsOf_outcomes areOutcomes content hbIndex).2
    rw [counts] at areRows
    split_ifs at areRows with isBucket
    · simpa using areRows
    · have noRows : target.filter (input.bucket numBuckets · = hbIndex) = [] := by
        rw [List.filter_eq_nil_iff]
        intro row _ isRow
        rw [decide_eq_true_iff] at isRow
        exact isBucket (isRow ▸ MergeTaskInput.bucket_lt row)
      rw [noRows]
      simpa using areRows

end Outcomes

section Tasks

variable {Value Bytes Count : Type} [LinearOrder Value]
  {params : CompactPartitionParams Value Bytes Count} {previous : Option CompactedRound}
  {deleteFileEnvelopes : Option (List (DeleteFileEnvelope Value))} {columnNames : List String}
  {all : Table String Value} {numBuckets : ℕ} [NeZero numBuckets]
  {bag : List (Row String Value)}

/-- Without results, there was neither a file nor a compacted table. -/
theorem eq_nil_of_outcomes {input : MergeTaskInput Value} {groups : List (MergeFileGroup Value)}
    {outcomes : List (Option MaterializeResult)}
    (areOutcomes : List.Forall₂ (input.Outcome columnNames all numBuckets bag) groups outcomes)
    (noResults : outcomes.reduceOption = []) :
    ∀ group ∈ groups, group.files = [] ∧ input.previousRange group.hbIndex = none := by
  induction areOutcomes with
  | nil => simp
  | @cons group outcome groups outcomes isOutcome _ ih =>
      cases outcome with
      | none =>
          rw [List.reduceOption_cons_of_none] at noResults
          simpa using ⟨isOutcome.isNone.mp rfl, ih noResults⟩
      | some result => simp at noResults

/-- The merge tasks of a round, which differ in the UUIDs that they draw. -/
theorem mapM_timedMerge_outcomes
    (uniform : Uniform (params.mergeTaskInput previous deleteFileEnvelopes 0 0).params columnNames
      all)
    (canStage : CanStage params.storage params.compactedPartition all)
    (startsFrom : (params.mergeTaskInput previous deleteFileEnvelopes 0 0).StartsFrom all
      numBuckets bag) (round start : ℕ) {tasks : List (List (MergeFileGroup Value))}
    (wellFormed : ∀ groups ∈ tasks, ∀ group ∈ groups, group.WellFormed all)
    (atMostOne : ∀ groups ∈ tasks, groups.countP (canCopyByReference
      (params.mergeTaskInput previous deleteFileEnvelopes 0 0)) ≤ 1) :
    ∃ results outcomes,
      ((tasks.zipIdx start).mapM fun task =>
        timedMerge (params.mergeTaskInput previous deleteFileEnvelopes round task.2) task.1) =
          .ok results ∧
      List.Forall₂ ((params.mergeTaskInput previous deleteFileEnvelopes 0 0).Outcome columnNames
        all numBuckets bag) tasks.flatten outcomes ∧
      (allResults results).Perm outcomes.reduceOption := by
  induction tasks generalizing start with
  | nil => exact ⟨[], [], rfl, List.Forall₂.nil, List.Perm.refl _⟩
  | cons groups tasks ih =>
      have isFirst := @timedMerge_outcomes _ _
        (params.mergeTaskInput previous deleteFileEnvelopes round start) columnNames all
        numBuckets _
        bag uniform canStage startsFrom groups (wellFormed groups List.mem_cons_self)
        (atMostOne groups List.mem_cons_self)
      rcases isFirst with ⟨result, outcomes, isResult, areOutcomes, sameResults⟩
      rcases ih (start + 1)
        (fun others othersMem => wellFormed others (List.mem_cons_of_mem _ othersMem))
        (fun others othersMem => atMostOne others (List.mem_cons_of_mem _ othersMem)) with
        ⟨results, more, areResults, areMore, sameMore⟩
      refine ⟨result :: results, outcomes ++ more, ?_, ?_, ?_⟩
      · rw [List.zipIdx_cons, List.mapM_cons, isResult, areResults]
        rfl
      · rw [List.flatten_cons]
        refine List.rel_append ?_ areMore
        refine areOutcomes.imp ?_
        intro group outcome isOutcome
        exact ⟨isOutcome.taskIndex, isOutcome.counted, isOutcome.staged, isOutcome.isNone,
          isOutcome.content⟩
      · rw [List.reduceOption_append]
        exact sameResults.append sameMore

end Tasks

section Round

variable {Value Bytes Count : Type} [LinearOrder Value]
  {params : CompactPartitionParams Value Bytes Count} {previous : Option CompactedRound}
  {deleteFileEnvelopes : Option (List (DeleteFileEnvelope Value))} {columnNames : List String}
  {all : Table String Value} {numBuckets numGroups : ℕ} [NeZero numBuckets] [NeZero numGroups]
  {bag : List (Row String Value)} {uniformDeltas : List Compactor.DeltaAnnotated}
  {files : List (DeltaFileEnvelope Value)}

namespace CompactPartitionParams

variable (params numBuckets)

def bucket : Row String Value → ℕ := bucketIndex params.hashing params.primaryKeys numBuckets

def merging : Merging (params.bucket numBuckets) :=
  rowMerging params.hashing params.primaryKeys numBuckets params.dropDuplicates

end CompactPartitionParams

/-- What a round makes of a bag, given the deletes and its uniform deltas. -/
def roundBag (params : CompactPartitionParams Value Bytes Count) (numBuckets : ℕ)
    [NeZero numBuckets] (columnNames : List String)
    (deleteFileEnvelopes : Option (List (DeleteFileEnvelope Value)))
    (uniformDeltas : List Compactor.DeltaAnnotated) (bag : List (Row String Value)) :
    List (Row String Value) :=
  replayInOrder (params.merging numBuckets) bag
    ((deleteFileEnvelopes.getD []).map (removeAt columnNames) ++
      uniformDeltas.flatMap (entryChanges params.read))

/-- A round reads the entries of each uniform delta as one file. -/
theorem roundBag_eq
    (areFiles : List.Forall₂ (FileOf params.read all (params.merging numBuckets)) uniformDeltas
      files) :
    roundBag params numBuckets columnNames deleteFileEnvelopes uniformDeltas bag =
      replayInOrder (params.merging numBuckets) bag
        ((deleteFileEnvelopes.getD []).map (removeAt columnNames) ++ files.map fileAt) := by
  rw [roundBag, List.flatMap_def]
  apply replayInOrder_append
  rw [List.forall₂_map_left_iff, List.forall₂_map_right_iff]
  exact areFiles.flip.imp fun file annotated isFile => isFile.refines

/-- A bucket of what a round makes comes from the deletes and its part of the files. -/
theorem roundBag_filter (round : ℕ) (hasKeys : params.primaryKeys ≠ [])
    (areFiles : List.Forall₂ (FileOf params.read all (params.merging numBuckets)) uniformDeltas
      files) (hbIdx : Fin numBuckets) :
    (roundBag params numBuckets columnNames deleteFileEnvelopes uniformDeltas bag).filter
        (params.bucket numBuckets · = hbIdx) =
      replayInOrder (params.merging numBuckets)
        (bag.filter (params.bucket numBuckets · = hbIdx))
        ((deleteFileEnvelopes.getD []).map (removeAt columnNames) ++
          (filesIn (params.bucketing round) hbIdx (files.map fun file => [file])).map fileAt) := by
  have cut := @replayInOrder_filesIn _ (params.bucketing round) numBuckets _
    (params.merging numBuckets) hasKeys hbIdx (bag.filter (params.bucket numBuckets · = hbIdx))
    ((deleteFileEnvelopes.getD []).map (removeAt columnNames)) files
  rw [roundBag_eq areFiles, replayInOrder_filter, List.map_append, List.map_map]
  exact cut.symm

/-- There is a group for each bucket, or nothing is copied by reference. -/
def CopiesSingly (params : CompactPartitionParams Value Bytes Count) (numBuckets numGroups : ℕ)
    (previous : Option CompactedRound)
    (deleteFileEnvelopes : Option (List (DeleteFileEnvelope Value))) : Prop :=
  numBuckets ≤ numGroups ∨ params.disableCopyByReference ∨ deleteFileEnvelopes.isSome ∨
    previous = none

omit [LinearOrder Value] [NeZero numBuckets] [NeZero numGroups] in
theorem countP_copied_le (copiesSingly : CopiesSingly params numBuckets numGroups previous
      deleteFileEnvelopes) (hbGroup : ℕ)
    {group : ℕ → MergeFileGroup Value} :
    (((List.range numBuckets).filter (· % numGroups = hbGroup)).map group).countP
      (canCopyByReference (params.mergeTaskInput previous deleteFileEnvelopes 0 0)) ≤ 1 := by
  rcases copiesSingly with isEnough | isDisabled | hasDeletes | isFirst
  · have single : (List.range numBuckets).filter (· % numGroups = hbGroup) =
        (List.range numBuckets).filter (· = hbGroup) := by
      apply List.filter_congr
      intro hbIdx hbIdxMem
      rw [Nat.mod_eq_of_lt ((List.mem_range.mp hbIdxMem).trans_le isEnough)]
    refine List.countP_le_length.trans ?_
    rw [List.length_map, single, ← List.countP_eq_length_filter]
    exact List.nodup_iff_count_le_one.mp List.nodup_range hbGroup
  all_goals
    rw [List.countP_eq_zero.mpr]
    · exact Nat.zero_le 1
    · intro other _
      simp_all [canCopyByReference, CompactPartitionParams.mergeTaskInput,
        Option.isSome_iff_ne_none]

/-- No bucket has a range in the compacted manifest that a merge is given. -/
def NoRanges (params : CompactPartitionParams Value Bytes Count) (previous : Option CompactedRound)
    (numBuckets : ℕ) : Prop :=
  numBuckets = 1 ∨ ∀ hbIndex < numBuckets,
    (params.mergeTaskInput previous none 0 0).previousRange hbIndex = none

omit [LinearOrder Value] in
theorem readDeltaFileEnvelopes_mapM
    (areFiles : List.Forall₂ (FileOf params.read all (params.merging numBuckets)) uniformDeltas
      files) :
    uniformDeltas.mapM (readDeltaFileEnvelopes params.read) =
      .ok (files.map fun file => some [file]) := by
  rw [except_mapM_eq_ok_iff, List.forall₂_map_right_iff]
  exact areFiles.imp fun annotated file isFile => isFile.isRead

omit [LinearOrder Value] in
theorem mem_files
    (areFiles : List.Forall₂ (FileOf params.read all (params.merging numBuckets)) uniformDeltas
      files) {file : DeltaFileEnvelope Value} (fileMem : file ∈ files) :
    file.fileIndex = 0 ∧ file.deltaType ≠ .delete ∧ PartOf all file.table := by
  induction areFiles with
  | nil => cases fileMem
  | @cons annotated first uniformDeltas files isFile _ ih =>
      rcases List.mem_cons.mp fileMem with rfl | inRest
      · exact ⟨isFile.fileIndex, isFile.notDelete, isFile.part⟩
      · exact ih inRest

/-- A round with several buckets, or several groups of one. -/
theorem remoteMerge_makes (round : ℕ)
    (uniform : Uniform (params.mergeTaskInput previous deleteFileEnvelopes 0 0).params columnNames
      all)
    (hexadecimal : (params.bucketing round).Hexadecimal)
    (canStage : CanStage params.storage params.compactedPartition all)
    (startsFrom : (params.mergeTaskInput previous deleteFileEnvelopes 0 0).StartsFrom all
      numBuckets bag)
    (copiesSingly : CopiesSingly params numBuckets numGroups previous deleteFileEnvelopes)
    (distinct : ((deleteFileEnvelopes.getD []).map DeleteFileEnvelope.streamPosition).Nodup)
    (areFiles : List.Forall₂ (FileOf params.read all (params.merging numBuckets)) uniformDeltas
      files) :
    ∃ mergeTasks results,
      mergeFileGroups (params.bucketing round) numBuckets numGroups uniformDeltas =
        .ok mergeTasks ∧
      (mergeTasks.zipIdx.mapM fun task =>
        timedMerge (params.mergeTaskInput previous deleteFileEnvelopes round task.2) task.1) =
          .ok results ∧
      Makes params.storage params.compactedPartition all (params.bucket numBuckets) numBuckets 1
        (roundBag params numBuckets columnNames deleteFileEnvelopes uniformDeltas bag)
        (allResults results) ∧
      (allResults results = [] → NoRanges params previous numBuckets) := by
  let taskFiles : List (Option (List (DeltaFileEnvelope Value))) :=
    files.map fun file => some [file]
  let objects := fun hbGroup : Fin numGroups =>
    (taskGroups (params.bucketing round) numBuckets taskFiles.zipIdx).filterMap
      fun groups => groupHashBucketIndices groups hbGroup
  let mergeTasks := (List.finRange numGroups).map fun hbGroup : Fin numGroups =>
    ((List.range numBuckets).filter (· % numGroups = hbGroup.val)).map
      (mergeFileGroup (objects hbGroup))
  have areTasks : mergeFileGroups (params.bucketing round) numBuckets numGroups uniformDeltas =
      .ok mergeTasks := by
    apply mergeFileGroups_eq numBuckets numGroups hexadecimal (readDeltaFileEnvelopes_mapM areFiles)
    intro given givenMem file fileMem pkName pkNameMem
    rcases List.mem_map.mp givenMem with ⟨only, onlyMem, rfl⟩
    obtain rfl : file = only := by simpa using fileMem
    rw [(mem_files areFiles onlyMem).2.2.columns, uniform.hasColumns]
    exact uniform.areColumns pkNameMem
  have handsOut : HandsOut (params.bucketing round) numBuckets (files.map fun file => [file])
      mergeTasks := by
    have ofTasks := @handsOut_tasks _ (params.bucketing round) numBuckets numGroups _ _ taskFiles
    rw [List.map_map] at ofTasks
    exact ofTasks
  have ofGroup : ∀ group ∈ mergeTasks.flatten, ∃ hbIdx : Fin numBuckets, group.hbIndex = hbIdx ∧
      group.files = filesIn (params.bucketing round) hbIdx (files.map fun file => [file]) ∧
      (group.dfeGroups = none ↔ group.files = []) ∧
      ∀ part ∈ group.files,
        part.fileIndex = 0 ∧ part.deltaType ≠ .delete ∧ PartOf all part.table := by
    intro group groupMem
    rcases handsOut.files group groupMem with ⟨hbIdx, isBucket, areParts, isNone⟩
    refine ⟨hbIdx, isBucket, areParts, by rw [isNone, MergeFileGroup.files, areParts], ?_⟩
    intro part partMem
    rw [MergeFileGroup.files, areParts] at partMem
    rcases mem_filesIn uniform.hasKeys partMem with
      ⟨file, fileMem, sameIndex, sameType, columns, rows⟩
    rcases mem_files areFiles fileMem with ⟨fileIndex, notDelete, part⟩
    exact ⟨sameIndex.trans fileIndex, sameType ▸ notDelete, columns.trans part.columns,
      fun row rowMem => part.rows (rows rowMem)⟩
  have wellFormed : ∀ groups ∈ mergeTasks, ∀ group ∈ groups, group.WellFormed all := by
    intro groups groupsMem group groupMem
    rcases ofGroup group (List.mem_flatten.mpr ⟨groups, groupsMem, groupMem⟩) with
      ⟨_, _, _, isNone, ofPart⟩
    exact ⟨fun part partMem => (ofPart part partMem).2.2,
      fun part partMem => (ofPart part partMem).2.1, isNone⟩
  have atMostOne : ∀ groups ∈ mergeTasks, groups.countP (canCopyByReference
      (params.mergeTaskInput previous deleteFileEnvelopes 0 0)) ≤ 1 := by
    intro groups groupsMem
    rcases List.mem_map.mp groupsMem with ⟨hbGroup, _, rfl⟩
    exact countP_copied_le copiesSingly hbGroup
  rcases mapM_timedMerge_outcomes uniform canStage startsFrom round 0 wellFormed atMostOne with
    ⟨results, outcomes, areResults, areOutcomes, sameResults⟩
  refine ⟨mergeTasks, results, areTasks, areResults, ?_, ?_⟩
  · refine makes_of_outcomes areOutcomes handsOut.buckets ?_ sameResults
    intro group groupMem
    rcases ofGroup group groupMem with ⟨hbIdx, isBucket, areParts, _, ofPart⟩
    have ofBucket := @roundBag_filter _ _ _ _ params deleteFileEnvelopes columnNames all
      numBuckets _
      bag uniformDeltas files round uniform.hasKeys areFiles hbIdx
    have ofChanges := @replay_changes _ _
      (params.mergeTaskInput previous deleteFileEnvelopes 0 0) columnNames group _
      (params.merging numBuckets) (bag.filter (params.bucket numBuckets · = hbIdx)) distinct
      (fun part partMem => (ofPart part partMem).1) fun part partMem => (ofPart part partMem).2.1
    rw [areParts] at ofChanges
    rw [isBucket]
    exact List.Perm.of_eq (ofChanges.trans ofBucket.symm)
  · intro noResults
    have noOutcomes : outcomes.reduceOption = [] := (noResults ▸ sameResults).symm.eq_nil
    refine Or.inr fun hbIndex isBucket => ?_
    have isHanded : hbIndex ∈ mergeTasks.flatten.map MergeFileGroup.hbIndex := by
      rwa [handsOut.buckets.mem_iff, List.mem_range]
    rcases List.mem_map.mp isHanded with ⟨group, groupMem, rfl⟩
    exact (eq_nil_of_outcomes areOutcomes noOutcomes group groupMem).2

/-- A round with one bucket, which begins with nothing. -/
theorem localMerge_makes (round : ℕ) (isLocal : numBuckets = 1)
    (uniform : Uniform (params.mergeTaskInput previous deleteFileEnvelopes 0 0).params columnNames
      all)
    (canStage : CanStage params.storage params.compactedPartition all)
    (distinct : ((deleteFileEnvelopes.getD []).map DeleteFileEnvelope.streamPosition).Nodup)
    (areFiles : List.Forall₂ (FileOf params.read all (params.merging numBuckets)) uniformDeltas
      files) :
    ∃ groups result, createLocal params.read uniformDeltas = .ok groups ∧
      timedMerge (generateLocalMergeInput params previous deleteFileEnvelopes round) groups =
        .ok result ∧
      Makes params.storage params.compactedPartition all (params.bucket numBuckets) numBuckets 1
        (roundBag params numBuckets columnNames deleteFileEnvelopes uniformDeltas [])
        (allResults [result]) := by
  let input := generateLocalMergeInput params previous deleteFileEnvelopes round
  let group : MergeFileGroup Value := ⟨0, if 0 < files.length then some [files] else none⟩
  have areGroups : createLocal params.read uniformDeltas = .ok [group] := by
    unfold createLocal
    rw [readDeltaFileEnvelopes_mapM areFiles]
    simp [bind, Except.bind, pure, Except.pure, group, List.flatMap_map]
  have groupFiles : group.files = files := by
    cases files <;> simp [group, MergeFileGroup.files]
  have wellFormed : group.WellFormed all := by
    refine ⟨?_, ?_, ?_⟩
    · intro file fileMem
      exact (mem_files areFiles (groupFiles ▸ fileMem)).2.2
    · intro file fileMem
      exact (mem_files areFiles (groupFiles ▸ fileMem)).2.1
    · rw [groupFiles]
      cases files <;> simp [group]
  have startsEmpty : input.StartsFrom all numBuckets [] := rfl
  have areMerged := @timedMerge_outcomes _ _ input columnNames all numBuckets _ [] uniform canStage
    startsEmpty [group] (by simpa using wellFormed) (List.countP_le_length.trans le_rfl)
  rcases areMerged with ⟨result, outcomes, isResult, areOutcomes, sameResults⟩
  have sameAll : (allResults [result]).Perm outcomes.reduceOption := by
    simpa [allResults] using sameResults
  refine ⟨[group], result, areGroups, isResult, ?_⟩
  refine makes_of_outcomes areOutcomes (by simp [group, isLocal]) ?_ sameAll
  intro other otherMem
  obtain rfl := List.mem_singleton.mp otherMem
  have onlyBucket : (roundBag params numBuckets columnNames deleteFileEnvelopes uniformDeltas
      []).filter (input.bucket numBuckets · = group.hbIndex) =
      roundBag params numBuckets columnNames deleteFileEnvelopes uniformDeltas [] := by
    rw [List.filter_eq_self]
    intro row _
    have isBucket : input.bucket numBuckets row < numBuckets := MergeTaskInput.bucket_lt row
    simp only [group, decide_eq_true_eq]
    omega
  have ofChanges := @replay_changes _ _ input columnNames group _ (params.merging numBuckets) []
    distinct (fun file fileMem => (mem_files areFiles (groupFiles ▸ fileMem)).1)
    fun file fileMem => (mem_files areFiles (groupFiles ▸ fileMem)).2.1
  rw [groupFiles] at ofChanges
  rw [onlyBucket, List.filter_nil, roundBag_eq areFiles]
  exact List.Perm.of_eq ofChanges

/-- The bag that a session begins with; a local merge does not get the compacted manifest. -/
def startBag (numBuckets : ℕ) (bag : List (Row String Value)) : List (Row String Value) :=
  if numBuckets = 1 then [] else bag

/-- A round makes what the deletes and its uniform deltas make of the bag that it begins with. -/
theorem runHashAndMerge_makes (round : ℕ)
    (uniform : Uniform (params.mergeTaskInput previous deleteFileEnvelopes 0 0).params columnNames
      all)
    (hexadecimal : (params.bucketing round).Hexadecimal)
    (canStage : CanStage params.storage params.compactedPartition all)
    (startsFrom : (params.mergeTaskInput previous deleteFileEnvelopes 0 0).StartsFrom all
      numBuckets bag)
    (copiesSingly : CopiesSingly params numBuckets numGroups previous deleteFileEnvelopes)
    (distinct : ((deleteFileEnvelopes.getD []).map DeleteFileEnvelope.streamPosition).Nodup)
    (sameTypes : SameTypesIn params.read.SameTypes all)
    (annotates : ∀ annotated ∈ uniformDeltas, Annotates params.read all annotated) :
    ∃ results, runHashAndMerge params numBuckets numGroups previous deleteFileEnvelopes
      uniformDeltas
        round = .ok results ∧
      Makes params.storage params.compactedPartition all (params.bucket numBuckets) numBuckets 1
        (roundBag params numBuckets columnNames deleteFileEnvelopes uniformDeltas
          (startBag numBuckets bag)) (allResults results) ∧
      (allResults results = [] → NoRanges params previous numBuckets) := by
  rcases exists_filesOf (params.merging numBuckets) sameTypes annotates with ⟨files, areFiles⟩
  unfold runHashAndMerge startBag
  split_ifs with isLocal
  · rcases localMerge_makes round isLocal uniform canStage distinct areFiles with
      ⟨groups, result, areGroups, isResult, makes⟩
    refine ⟨[result], ?_, makes, fun _ => Or.inl isLocal⟩
    rw [areGroups]
    simp only [bind, Except.bind, isResult]
    rfl
  · rcases remoteMerge_makes round uniform hexadecimal canStage startsFrom copiesSingly distinct
      areFiles with ⟨mergeTasks, results, areTasks, areResults, makes, nothing⟩
    refine ⟨results, ?_, makes, nothing⟩
    rw [areTasks]
    exact areResults

end Round

section Session

variable {Value Bytes Count : Type} [LinearOrder Value]
  {params : CompactPartitionParams Value Bytes Count} {previous : Option CompactedRound}
  {deleteFileEnvelopes : Option (List (DeleteFileEnvelope Value))} {columnNames : List String}
  {all : Table String Value} {numBuckets numGroups : ℕ} [NeZero numBuckets] [NeZero numGroups]
  {bag : List (Row String Value)} {grouped : List (List Compactor.DeltaAnnotated)}

/-- The rounds of a session, one after another. -/
theorem mapM_runHashAndMerge_makes
    (uniform : Uniform (params.mergeTaskInput previous deleteFileEnvelopes 0 0).params columnNames
      all)
    (hexadecimal : ∀ round, (params.bucketing round).Hexadecimal)
    (canStage : CanStage params.storage params.compactedPartition all)
    (startsFrom : (params.mergeTaskInput previous deleteFileEnvelopes 0 0).StartsFrom all
      numBuckets bag)
    (copiesSingly : CopiesSingly params numBuckets numGroups previous deleteFileEnvelopes)
    (distinct : ((deleteFileEnvelopes.getD []).map DeleteFileEnvelope.streamPosition).Nodup)
    (sameTypes : SameTypesIn params.read.SameTypes all) (start : ℕ)
    (annotates : ∀ uniformDeltas ∈ grouped, ∀ annotated ∈ uniformDeltas,
      Annotates params.read all annotated) :
    ∃ results,
      ((grouped.zipIdx start).mapM fun round =>
        runHashAndMerge params numBuckets numGroups previous deleteFileEnvelopes round.1 round.2) =
          .ok results ∧
      Makes params.storage params.compactedPartition all (params.bucket numBuckets) numBuckets
        grouped.length
        (grouped.flatMap fun uniformDeltas => roundBag params numBuckets columnNames
          deleteFileEnvelopes uniformDeltas (startBag numBuckets bag))
        (allResults results.flatten) ∧
      (allResults results.flatten = [] → grouped = [] ∨ NoRanges params previous numBuckets) := by
  induction grouped generalizing start with
  | nil => exact ⟨[], rfl, Makes.nil, fun _ => Or.inl rfl⟩
  | cons uniformDeltas grouped ih =>
      rcases runHashAndMerge_makes start uniform (hexadecimal start) canStage startsFrom
        copiesSingly distinct sameTypes (annotates uniformDeltas List.mem_cons_self) with
        ⟨results, areResults, makes, nothing⟩
      rcases ih (start + 1) fun others othersMem =>
        annotates others (List.mem_cons_of_mem uniformDeltas othersMem) with
        ⟨more, areMore, makesMore, _⟩
      have split : allResults (results :: more).flatten =
          allResults results ++ allResults more.flatten := by simp [allResults]
      refine ⟨results :: more, ?_, ?_, ?_⟩
      · rw [List.zipIdx_cons, List.mapM_cons, areResults, areMore]
        rfl
      · rw [split, List.flatMap_cons, List.length_cons, Nat.add_comm]
        exact makes.append makesMore
      · rw [split]
        intro noResults
        exact Or.inr (nothing (List.append_eq_nil_iff.mp noResults).1)

/-- The rounds together make what one round makes of as many copies of the bag. -/
theorem flatMap_roundBag_perm (rounds : grouped.length = 1 ∨ params.dropDuplicates = false)
    (bag : List (Row String Value)) :
    (grouped.flatMap fun uniformDeltas => roundBag params numBuckets columnNames
        deleteFileEnvelopes uniformDeltas bag).Perm
      (roundBag params numBuckets columnNames deleteFileEnvelopes grouped.flatten
        (List.replicate grouped.length bag).flatten) := by
  rcases rounds with isSingle | keepsAll
  · rcases List.length_eq_one_iff.mp isSingle with ⟨uniformDeltas, rfl⟩
    simp
  · have isAppending : params.merging numBuckets = Merging.appending _ := by
      simp only [CompactPartitionParams.merging, rowMerging, keepsAll, Bool.false_eq_true, if_false]
      rfl
    have areRemovals : ∀ removal ∈ (deleteFileEnvelopes.getD []).map (removeAt columnNames),
        ∃ select, removal.2 = .remove select := by
      intro removal removalMem
      rcases List.mem_map.mp removalMem with ⟨envelope, _, rfl⟩
      exact ⟨_, rfl⟩
    have arePuts : ∀ round ∈ grouped.map (·.flatMap (entryChanges params.read)), ∀ put ∈ round,
        ∃ items, put.2 = .put items := by
      intro round roundMem put putMem
      rcases List.mem_map.mp roundMem with ⟨uniformDeltas, _, rfl⟩
      rcases List.mem_flatMap.mp putMem with ⟨annotated, _, putMem⟩
      rcases List.mem_map.mp putMem with ⟨item, _, rfl⟩
      exact ⟨_, rfl⟩
    have together := @flatMap_replayInOrder_perm _ _ _ (params.bucket numBuckets) bag _ areRemovals
      _ arePuts
    have sameChanges : (grouped.map (·.flatMap (entryChanges params.read))).flatten =
        grouped.flatten.flatMap (entryChanges params.read) := by
      rw [← List.flatMap_def]
      simp [List.flatMap_def, List.map_flatten, List.flatten_flatten, Function.comp_def]
    rw [sameChanges, List.flatMap_map, List.length_map] at together
    simpa only [roundBag, isAppending] using together

end Session

section Merged

variable {Value : Type} {storage : CompactionStorage Value} {writeToPartition : Metafile}
  {all : Table String Value} {bucket : Row String Value → ℕ} {numBuckets numRounds : ℕ}
  {bag : List (Row String Value)} {results : List MaterializeResult}

/-- Staged results of one partition can be merged. -/
theorem Makes.mergeable
    (makes : Makes storage writeToPartition all bucket numBuckets numRounds bag results)
    (someResult : results ≠ []) : Delta.Mergeable ((sortResults results).map (·.delta)) := by
  have staged : ∀ delta ∈ (sortResults results).map (·.delta),
      StagedFor storage writeToPartition all delta := by
    intro delta deltaMem
    rcases List.mem_map.mp deltaMem with ⟨result, resultMem, rfl⟩
    exact makes.staged result (mem_sortResults.mp resultMem)
  have samePartition : ∀ left ∈ (sortResults results).map (·.delta),
      ∀ right ∈ (sortResults results).map (·.delta),
        left.locator.partitionLocator = right.locator.partitionLocator :=
    fun left leftMem right rightMem =>
      (staged left leftMem).partition.trans (staged right rightMem).partition.symm
  constructor
  · rcases List.exists_mem_of_ne_nil _ someResult with ⟨result, resultMem⟩
    exact List.ne_nil_of_mem (List.mem_map_of_mem (mem_sortResults.mpr resultMem))
  · exact fun delta deltaMem => (staged delta deltaMem).hasManifest
  · intro left leftMem right rightMem
    rw [Delta.storageType, Delta.storageType, samePartition left leftMem right rightMem]
  · intro left leftMem right rightMem
    rw [samePartition left leftMem right rightMem]
  · exact Or.inr fun delta deltaMem => Or.inr (staged delta deltaMem).type
  · apply agree_of_unrestricted
    intro entry entryMem
    rcases List.mem_flatMap.mp entryMem with ⟨delta, deltaMem, entryMem⟩
    exact (staged delta deltaMem).files.unrestricted entry entryMem

/-- Results that have the rows of a bag are merged to a manifest that holds it. -/
theorem processMergeResults_holds {mergeResults : List MergeResult}
    (makes : Makes storage writeToPartition all bucket numBuckets numRounds bag
      (allResults mergeResults))
    (inBucket : ∀ row ∈ bag, bucket row < numBuckets)
    (someResult : allResults mergeResults ≠ []) (lastStreamPositionToCompact : ℕ) (uuid : String) :
    ∃ mergedDelta matResults ranges manifest,
      processMergeResults numRounds lastStreamPositionToCompact mergeResults uuid =
        .ok (mergedDelta, matResults, ranges) ∧
      mergedDelta.manifest = some manifest ∧
      mergedDelta.locator.streamPosition =
        some (if lastStreamPositionToCompact ≠ maxDeltaStreamPosition then
          lastStreamPositionToCompact else 1) ∧
      HoldsRows storage all bucket numBuckets ranges manifest bag ∧
      ∃ hbIndex, (ranges hbIndex).isSome := by
  let results := sortResults (allResults mergeResults)
  have ascending : Ascending results := ascending_sortResults _
  have staged : ∀ result ∈ results, StagedFor storage writeToPartition all result.delta :=
    fun result resultMem => makes.staged result (mem_sortResults.mp resultMem)
  have counted : ∀ result ∈ results,
      result.pyarrowWriteResult.files = result.delta.entries.length :=
    fun result resultMem => makes.counted result (mem_sortResults.mp resultMem)
  have countable : Countable numRounds results := by
    constructor
    · intro result resultMem
      rw [counted result resultMem]
      exact List.length_pos_of_ne_nil (staged result resultMem).nonempty
    · intro hbIndex
      rw [resultsOf_sortResults]
      exact makes.atMost hbIndex
  rcases Delta.exists_mergeDeltas_iff.mpr (makes.mergeable someResult) with
    ⟨mergedDelta, isMerged⟩
  rcases Delta.mergeDeltas_eq_ok isMerged with ⟨areEntries, hasManifest, isPosition⟩
  rcases Option.isSome_iff_exists.mp hasManifest with ⟨manifest, isManifest⟩
  have sameEntries : manifest.entries = results.flatMap (·.delta.entries) := by
    calc manifest.entries
        = mergedDelta.entries := by rw [Delta.entries, isManifest]; rfl
      _ = _ := by rw [areEntries, List.flatMap_map]
  have describes := describes_stateAfter ascending counted sameEntries
  refine ⟨mergedDelta, results, (stateAfter results).hbIdToEntryIndicesRange, manifest,
    processMergeResults_eq_ok_iff.mpr ⟨rfl, countable, rfl, isMerged⟩, isManifest, isPosition,
    ⟨describes.toIndexes, ?_, ?_, ?_, ?_, ?_⟩, ?_⟩
  · intro hbIndex range isRange
    rcases (describes.buckets hbIndex).mp (by simp [isRange]) with ⟨result, resultMem, isBucket⟩
    have someEntry : entriesIn manifest range ≠ [] := by
      rw [describes.entries hbIndex range isRange]
      intro noEntries
      apply (staged result resultMem).nonempty
      exact List.flatMap_eq_nil_iff.mp noEntries result
        (List.mem_filter.mpr ⟨resultMem, by simpa using isBucket⟩)
    by_contra isEmpty
    apply someEntry
    rw [entriesIn, Nat.sub_eq_zero_of_le (Nat.le_of_not_lt isEmpty), List.take_zero]
  · intro hbIndex hasRange
    rcases (describes.buckets hbIndex).mp hasRange with ⟨result, resultMem, rfl⟩
    exact makes.bounded result (mem_sortResults.mp resultMem)
  · constructor
    all_goals
      intro entry entryMem
      rw [sameEntries] at entryMem
      rcases List.mem_flatMap.mp entryMem with ⟨result, resultMem, entryMem⟩
    · exact (staged result resultMem).files.unrestricted entry entryMem
    · exact (staged result resultMem).files.parts entry entryMem
  · intro hbIndex
    have ofBucket := makes.ofBucket hbIndex
    rw [← resultsOf_sortResults] at ofBucket
    unfold bucketEntries
    cases isRange : (stateAfter results).hbIdToEntryIndicesRange hbIndex with
    | none =>
        have noResults : resultsOf results hbIndex = [] := by
          by_contra hasResults
          simp [stateAfter, hasResults] at isRange
        rw [noResults] at ofBucket
        exact ofBucket
    | some range =>
        rw [Option.elim_some, describes.entries hbIndex range isRange]
        exact ofBucket
  · rw [sameEntries]
    have sorted : (allResults mergeResults).Perm results :=
      (List.perm_insertionSort _ _).symm
    exact (makes.perm (List.Perm.refl bag) sorted).content inBucket
  · rcases List.exists_mem_of_ne_nil _ someResult with ⟨result, resultMem⟩
    exact ⟨result.taskIndex,
      (describes.buckets _).mpr ⟨result, mem_sortResults.mpr resultMem, rfl⟩⟩

end Merged

section Sessions

variable {Value : Type} (storage : CompactionStorage Value) (all : Table String Value)
  (bucket : Row String Value → ℕ) (numBuckets : ℕ)

/-- The manifest of a compacted round has the rows of a bag in its buckets. -/
structure CompactedRound.Holds (round : CompactedRound) (bag : List (Row String Value)) :
    Prop where
  hashBucketCount : round.roundCompletionInfo.hashBucketCount = numBuckets
  holds : ∃ manifest ranges, round.manifest = some manifest ∧
    round.roundCompletionInfo.hbIndexToEntryRange = some ranges ∧
    (∃ hbIndex, (ranges hbIndex).isSome) ∧
    HoldsRows storage all bucket numBuckets ranges manifest bag

/-- A session begins with nothing, or with what the last one has left. -/
def BeginsWith (previous : Option CompactedRound) (bag : List (Row String Value)) : Prop :=
  match previous with
  | none => bag = []
  | some round => round.Holds storage all bucket numBuckets bag

end Sessions

section Main

variable {Value Bytes Count : Type} [LinearOrder Value] [Add Bytes] [Zero Bytes] [LE Bytes]
  [DecidableLE Bytes] [NatCast Count] [LE Count] [DecidableLE Count]

/-- What a session needs of its parameters and of the deltas that it compacts. -/
structure CanCompact (params : CompactPartitionParams Value Bytes Count)
    (numBuckets numGroups : ℕ) (columnNames : List String) (all : Table String Value)
    (previous : Option CompactedRound) (inputDeltas : List InputDelta) : Prop where
  compactable : Compactable params.read all inputDeltas
  uniform : Uniform (params.mergeTaskInput previous none 0 0).params columnNames all
  comparable : ∀ prepared, prepareDeletes params.read inputDeltas = .ok prepared →
    ∀ envelope ∈ prepared.2, Comparable params.arrow all envelope ∧
      (envelope.isReference → CanDrop params.arrow all envelope)
  hexadecimal : ∀ round, (params.bucketing round).Hexadecimal
  canStage : CanStage params.storage params.compactedPartition all
  commits : ∀ merged position, merged.locator.streamPosition = some position → 0 < position →
    ∃ committed, params.storage.commitDelta merged = .ok committed ∧
      committed.manifest = merged.manifest ∧ committed.locator.streamPosition = some position
  isPositive : 0 < params.lastStreamPositionToCompact
  copiesSingly : numBuckets ≤ numGroups ∨ params.disableCopyByReference ∨
    (∃ delta ∈ inputDeltas, delta.type = .delete) ∨ previous = none
  rounds : params.numRounds = 1 ∨ params.dropDuplicates = false ∧ 0 < params.numRounds ∧
    ∀ built, buildUniformDeltas params inputDeltas = .ok built →
      params.numRounds ≤ built.1.length

variable {params : CompactPartitionParams Value Bytes Count} {numBuckets numGroups : ℕ}
  [NeZero numBuckets] [NeZero numGroups] {columnNames : List String} {all : Table String Value}
  {previous : Option CompactedRound} {inputDeltas : List InputDelta}
  {bag : List (Row String Value)}

omit [Add Bytes] [Zero Bytes] [LE Bytes] [DecidableLE Bytes] [NatCast Count] [LE Count]
  [DecidableLE Count] [LinearOrder Value] in
theorem startsFrom_of_beginsWith
    (deleteFileEnvelopes : Option (List (DeleteFileEnvelope Value)))
    (beginsWith :
      BeginsWith params.storage all (params.bucket numBuckets) numBuckets previous bag) :
    (params.mergeTaskInput previous deleteFileEnvelopes 0 0).StartsFrom all numBuckets bag := by
  unfold BeginsWith at beginsWith
  unfold MergeTaskInput.StartsFrom
  cases previous with
  | none => exact beginsWith
  | some round =>
      rcases beginsWith.holds with ⟨manifest, ranges, isManifest, areRanges, _, holds⟩
      simp only [CompactPartitionParams.mergeTaskInput, Option.bind_some, isManifest]
      exact ⟨round.roundCompletionInfo, ranges, rfl, areRanges, holds⟩

omit [Add Bytes] [Zero Bytes] [LE Bytes] [DecidableLE Bytes] [NatCast Count] [LE Count]
  [DecidableLE Count] [LinearOrder Value] [NeZero numBuckets] in
theorem not_noRanges {round : CompactedRound} {bucket : Row String Value → ℕ}
    (holds : round.Holds params.storage all bucket numBuckets bag) (isRemote : numBuckets ≠ 1) :
    ¬NoRanges params (some round) numBuckets := by
  rintro (isLocal | noRange)
  · exact isRemote isLocal
  · rcases holds.holds with
      ⟨manifest, ranges, isManifest, areRanges, ⟨hbIndex, hasRange⟩, holdsRows⟩
    have isNone := noRange hbIndex (holdsRows.buckets hbIndex hasRange)
    simp [CompactPartitionParams.mergeTaskInput, MergeTaskInput.previousRange,
      MergeTaskInput.entryRange, isManifest, areRanges] at isNone
    simp [isNone] at hasRange

/-- The bag that a session makes of the one that it begins with. -/
def sessionBag (params : CompactPartitionParams Value Bytes Count) (numBuckets : ℕ)
    [NeZero numBuckets] (columnNames : List String) (inputDeltas : List InputDelta)
    (bag : List (Row String Value)) : List (Row String Value) :=
  replay (params.merging numBuckets)
    (List.replicate params.numRounds (startBag numBuckets bag)).flatten
    (inputDeltas.map (InputDelta.change params.read columnNames))

/-- A session stores what its deltas make of the bag that its rounds begin with. -/
theorem compactInputDeltas_eq
    (canCompact : CanCompact params numBuckets numGroups columnNames all previous inputDeltas)
    (beginsWith : BeginsWith params.storage all (params.bucket numBuckets) numBuckets previous bag)
    (hasRows : sessionBag params numBuckets columnNames inputDeltas bag ≠ [] ∨
      numBuckets ≠ 1 ∧ previous.isSome) :
    ∃ round, compactInputDeltas params numBuckets numGroups previous inputDeltas = .ok round ∧
      round.Holds params.storage all (params.bucket numBuckets) numBuckets
        (sessionBag params numBuckets columnNames inputDeltas bag) ∧
      round.roundCompletionInfo.highWatermark =
        some (if params.lastStreamPositionToCompact ≠ maxDeltaStreamPosition then
          params.lastStreamPositionToCompact else 1) := by
  rcases buildUniformDeltas_replays params (params.merging numBuckets) columnNames
    canCompact.compactable with ⟨uniformDeltas, deleteFileEnvelopes, isBuilt, prepares⟩
  have positive : 0 < params.numRounds := by
    rcases canCompact.rounds with isOne | ⟨_, positive, _⟩
    · omega
    · exact positive
  have enough : params.numRounds = 1 ∨ params.numRounds ≤ uniformDeltas.length :=
    canCompact.rounds.imp_right fun several => several.2.2 _ isBuilt
  rcases groupUniformDeltas_eq positive enough with ⟨grouped, isGrouped, isWhole, isLength⟩
  have uniform : Uniform (params.mergeTaskInput previous deleteFileEnvelopes 0 0).params
      columnNames all := by
    have ofEnvelope : ∀ envelope ∈ deleteFileEnvelopes.getD [],
      Comparable params.arrow all envelope ∧
        (envelope.isReference → CanDrop params.arrow all envelope) := by
      intro envelope envelopeMem
      rcases prepares.prepared envelope envelopeMem with ⟨prepared, isPrepared, isEnvelope⟩
      exact canCompact.comparable prepared isPrepared envelope isEnvelope
    exact { canCompact.uniform with
      comparable := fun envelope envelopeMem => (ofEnvelope envelope envelopeMem).1
      canDrop := fun envelope envelopeMem => (ofEnvelope envelope envelopeMem).2 }
  have copiesSingly : CopiesSingly params numBuckets numGroups previous deleteFileEnvelopes := by
    rcases canCompact.copiesSingly with
      isEnough | isDisabled | ⟨delta, deltaMem, isDelete⟩ | isFirst
    · exact Or.inl isEnough
    · exact Or.inr (Or.inl isDisabled)
    · refine Or.inr (Or.inr (Or.inl ?_))
      rw [Option.isSome_iff_ne_none]
      exact fun noEnvelopes => prepares.isNone.mp noEnvelopes delta deltaMem isDelete
    · exact Or.inr (Or.inr (Or.inr isFirst))
  have annotates : ∀ uniformDeltas ∈ grouped, ∀ annotated ∈ uniformDeltas,
      Annotates params.read all annotated := by
    intro round roundMem annotated annotatedMem
    apply prepares.annotates
    rw [← isWhole]
    exact List.mem_flatten.mpr ⟨round, roundMem, annotatedMem⟩
  rcases mapM_runHashAndMerge_makes uniform canCompact.hexadecimal canCompact.canStage
    (startsFrom_of_beginsWith deleteFileEnvelopes beginsWith) copiesSingly prepares.distinct
    canCompact.compactable.sameTypes 0 annotates with ⟨results, areResults, makes, nothing⟩
  have severalRounds : grouped.length = 1 ∨ params.dropDuplicates = false := by
    rw [isLength]
    exact canCompact.rounds.imp_right And.left
  have together := @flatMap_roundBag_perm _ _ _ _ params deleteFileEnvelopes columnNames
    numBuckets _
    grouped severalRounds (startBag numBuckets bag)
  have isSession : roundBag params numBuckets columnNames deleteFileEnvelopes grouped.flatten
      (List.replicate grouped.length (startBag numBuckets bag)).flatten =
      sessionBag params numBuckets columnNames inputDeltas bag := by
    rw [roundBag, isWhole, prepares.replays, isLength]
    rfl
  rw [isSession] at together
  have makesSession := makes.perm together (List.Perm.refl _)
  rw [isLength] at makesSession
  have inBucket : ∀ row ∈ sessionBag params numBuckets columnNames inputDeltas bag,
      params.bucket numBuckets row < numBuckets := fun row _ => Fin.isLt _
  have someResult : allResults results.flatten ≠ [] := by
    intro noResults
    rcases hasRows with someRow | ⟨isRemote, hasPrevious⟩
    · have content := makesSession.content inBucket
      rw [noResults] at content
      exact someRow content.symm.eq_nil
    · rcases nothing noResults with noRounds | noRanges
      · rw [noRounds, List.length_nil] at isLength
        omega
      · cases previous with
        | none => simp at hasPrevious
        | some round => exact not_noRanges beginsWith isRemote noRanges
  rcases processMergeResults_holds makesSession inBucket someResult
    params.lastStreamPositionToCompact params.manifestUuid with
    ⟨mergedDelta, matResults, ranges, manifest, isProcessed, isManifest, isPosition, holds,
      hasRange⟩
  have isAfter : 0 < if params.lastStreamPositionToCompact ≠ maxDeltaStreamPosition then
      params.lastStreamPositionToCompact else 1 := by
    have isPositive := canCompact.isPositive
    split_ifs <;> omega
  rcases canCompact.commits mergedDelta _ isPosition isAfter with
    ⟨committed, isCommitted, sameManifest, samePosition⟩
  refine ⟨⟨⟨committed.locator.streamPosition, numBuckets, some ranges⟩, committed.manifest⟩, ?_,
    ⟨rfl, manifest, ranges, sameManifest.trans isManifest, rfl, hasRange, holds⟩, samePosition⟩
  unfold compactInputDeltas
  simp only [isBuilt, isGrouped, areResults, isProcessed, isCommitted, bind, Except.bind]
  rfl

end Main

section Examples

/-- The store that all files have rows of. -/
def oneStore : Table String String := storeTable [(some "eu", some "1")]

/-- A file whose name is as long as it has rows. -/
def fileOfLength (count : ℕ) : ManifestEntry :=
  parquetEntry (String.ofList (List.replicate count 'r'))

/-- Tables are written to one file each. -/
def storeStorage : CompactionStorage String where
  stageDelta writeToPartition _ table :=
    .ok ⟨⟨writeToPartition.locator, none⟩, some .append, none, none,
      some ⟨"m", { (fileOfLength 1).metadata with recordCount := some table.rows.length },
        [fileOfLength table.rows.length], none⟩, none⟩
  downloadEntry entry := storeTable (List.replicate entry.uri.length (some "eu", some "1"))
  SameTypes _ _ := True
  concat := Table.concatSameColumns
  commitDelta delta := .ok delta
  tableBytes table := table.rows.length

/-- Rows of one region are replaced, or all are kept. -/
def storeParams (dropDuplicates : Bool) : CompactPartitionParams String ℕ ℕ where
  read := readsAll oneStore
  hashing := regionHashing
  arrow := stringJoins
  sortBy := insertionSortBy
  batches := regionParams.batches
  primaryKeys := ["region"]
  sortKeys := none
  dropDuplicates := dropDuplicates
  originalFields := ["region", "store"]
  disableCopyByReference := false
  numRounds := 1
  lastStreamPositionToCompact := 1
  minDeltaBytesInBatch := 1
  minFilesInBatch := 1
  estimateManifestEntrySizeBytes _ := 1
  enableInputSplit := true
  storage := storeStorage
  compactedPartition := compactedPartition
  hashBucketUuids _ _ _ := "0"
  mergeUuids _ _ _ := "0"
  manifestUuid := "m"

theorem canStage_storeStorage : CanStage storeStorage compactedPartition oneStore := by
  refine ⟨fun _ _ _ _ => trivial, fun taskIndex table part => ?_⟩
  let count := table.rows.length
  have isRepeated :
      table.rows = (storeTable (List.replicate count (some "eu", some "1"))).rows := by
    simp only [storeTable, List.map_replicate]
    refine List.eq_replicate_iff.mpr ⟨rfl, ?_⟩
    intro row rowMem
    simpa [oneStore, storeTable] using part.rows rowMem
  have isFile : storeStorage.downloadEntry (fileOfLength count) =
      storeTable (List.replicate count (some "eu", some "1")) := by
    simp [storeStorage, fileOfLength, parquetEntry]
  refine ⟨_, _, rfl, rfl, rfl, ⟨rfl, rfl, rfl, by simp [Delta.entries], ⟨?_, ?_⟩⟩, ?_⟩
  · intro entry entryMem
    obtain rfl : entry = fileOfLength count := by simpa [Delta.entries] using entryMem
    exact ⟨rfl, rfl⟩
  · intro entry entryMem
    obtain rfl : entry = fileOfLength count := by simpa [Delta.entries] using entryMem
    rw [isFile]
    exact ⟨rfl, fun row rowMem => part.rows (isRepeated ▸ rowMem)⟩
  · have areRows : storeStorage.rows [fileOfLength count] = table.rows := by
      rw [CompactionStorage.rows, List.flatMap_singleton, isFile, isRepeated]
    exact List.Perm.of_eq areRows

theorem canCompact_storeParams (dropDuplicates : Bool) (numBuckets numGroups : ℕ)
    (previous : Option CompactedRound) {inputDeltas : List InputDelta}
    (few : inputDeltas = [] ∨ inputDeltas = [storeDelta .upsert none 1])
    (isEnough : numBuckets ≤ numGroups) :
    CanCompact (storeParams dropDuplicates) numBuckets numGroups ["region", "store"] oneStore
      previous inputDeltas := by
  have ofStore : ∀ delta ∈ inputDeltas, delta = storeDelta .upsert none 1 := by
    rcases few with rfl | rfl <;> simp
  constructor
  · constructor
    · rcases few with rfl | rfl <;> simp
    · intro delta deltaMem isDelete
      rw [ofStore delta deltaMem] at isDelete
      cases isDelete
    · exact fun _ _ _ _ _ _ _ _ _ _ => trivial
    · exact fun _ _ _ _ _ => ⟨rfl, List.Subset.refl _⟩
    · intro delta deltaMem _ entry entryMem
      rw [ofStore delta deltaMem] at entryMem
      obtain rfl := List.mem_singleton.mp entryMem
      constructor <;> intro parameters isSplit <;> cases isSplit
    · exact fun _ _ _ _ => trivial
  · constructor
    · decide
    · exact List.cons_ne_nil _ _
    · exact List.cons_subset.mpr ⟨List.mem_cons_self, List.nil_subset _⟩
    · rfl
    · exact List.Subset.refl _
    · rfl
    · intro left leftMem right rightMem _
      rw [List.mem_singleton.mp leftMem, List.mem_singleton.mp rightMem]
    · intro envelope envelopeMem
      cases envelopeMem
    · intro envelope envelopeMem
      cases envelopeMem
  · intro prepared isPrepared envelope envelopeMem
    rcases few with rfl | rfl <;> cases isPrepared <;> cases envelopeMem
  · exact fun _ => ⟨regionParams_hexadecimal.digests, regionParams_hexadecimal.uuids⟩
  · exact canStage_storeStorage
  · exact fun merged position isPosition _ => ⟨merged, rfl, rfl, isPosition⟩
  · exact Nat.one_pos
  · exact Or.inl isEnough
  · exact Or.inl rfl

end Examples

end Deltacat.Compute.CompactorV2
