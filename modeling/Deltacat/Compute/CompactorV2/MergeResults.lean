import Deltacat.Compute.CompactorV2.CopyByReference
import Deltacat.Library.Sorting

/-!
# The ranges of the buckets in a merged delta

The results of all merge tasks are ordered by their bucket and merged to one delta. A running
counter of files gives each bucket the range of its entries in the merged manifest. The
counter and the merged manifest go through the results in the same order, so that the
ranges are right (`processMergeResults_spec`), as the next round needs them to be.
-/

namespace Deltacat.Compute.CompactorV2

open Deltacat.Library Deltacat.Storage

/-- `MergeResult`. -/
structure MergeResult where
  materializeResults : List MaterializeResult

/-- `MAX_DELTA_STREAM_POSITION`. -/
def maxDeltaStreamPosition : ℕ := 2 ^ 63 - 1

/-- What the loop over the results knows. -/
structure RangeState where
  hbIdToEntryIndicesRange : EntryRanges
  fileIndex : ℕ
  previousTaskIndex : Option ℕ
  duplicateHashBucketMatResults : ℕ

def RangeState.initial : RangeState := ⟨fun _ => none, 0, none, 0⟩

def extendRange (numRounds : ℕ) (state : RangeState) (result : MaterializeResult) :
    Except Error RangeState :=
  let files := result.pyarrowWriteResult.files
  let duplicates :=
    if some result.taskIndex = state.previousTaskIndex then
      state.duplicateHashBucketMatResults + 1
    else 0
  let start :=
    ((state.hbIdToEntryIndicesRange result.taskIndex).map Prod.fst).getD state.fileIndex
  if files < 1 then .error .assertionError
  else if numRounds ≤ duplicates then .error .assertionError
  else .ok
    { hbIdToEntryIndicesRange := Function.update state.hbIdToEntryIndicesRange result.taskIndex
        (some (start, state.fileIndex + files))
      fileIndex := state.fileIndex + files
      previousTaskIndex := some result.taskIndex
      duplicateHashBucketMatResults := duplicates }

/-- The results in the order of their buckets. -/
def sortResults (results : List MaterializeResult) : List MaterializeResult :=
  results.insertionSort fun left right => left.taskIndex ≤ right.taskIndex

/-- `_process_merge_results`. -/
def processMergeResults (numRounds lastStreamPositionToCompact : ℕ)
    (mergeResults : List MergeResult) (uuid : String) :
    Except Error (Delta × List MaterializeResult × EntryRanges) := do
  let matResults := sortResults (mergeResults.flatMap (·.materializeResults))
  let state ← matResults.foldlM (extendRange numRounds) .initial
  let streamPosition :=
    if lastStreamPositionToCompact ≠ maxDeltaStreamPosition then lastStreamPositionToCompact
    else 1
  let mergedDelta ← Delta.mergeDeltas (matResults.map (·.delta)) none (some streamPosition) none
    uuid
  return (mergedDelta, matResults, state.hbIdToEntryIndicesRange)

section Ranges

/-- The number of files of the results. -/
def fileCount (results : List MaterializeResult) : ℕ :=
  (results.map (·.pyarrowWriteResult.files)).sum

/-- The results of a bucket. -/
def resultsOf (results : List MaterializeResult) (hbIndex : ℕ) : List MaterializeResult :=
  results.filter (·.taskIndex = hbIndex)

/-- The range of a bucket in results that are ordered by their buckets. -/
def rangeOf (results : List MaterializeResult) (hbIndex : ℕ) : ℕ × ℕ :=
  let start := fileCount (results.filter (·.taskIndex < hbIndex))
  (start, start + fileCount (resultsOf results hbIndex))

/-- What the loop knows after it went through results. -/
def stateAfter (results : List MaterializeResult) : RangeState where
  hbIdToEntryIndicesRange hbIndex :=
    if resultsOf results hbIndex = [] then none else some (rangeOf results hbIndex)
  fileIndex := fileCount results
  previousTaskIndex := results.getLast?.map (·.taskIndex)
  duplicateHashBucketMatResults :=
    match results.getLast? with
    | none => 0
    | some last => (resultsOf results last.taskIndex).length - 1

def Ascending (results : List MaterializeResult) : Prop :=
  results.Pairwise fun left right => left.taskIndex ≤ right.taskIndex

/-- Results that pass the assertions of the loop. -/
structure Countable (numRounds : ℕ) (results : List MaterializeResult) : Prop where
  files : ∀ result ∈ results, 1 ≤ result.pyarrowWriteResult.files
  rounds : ∀ hbIndex, (resultsOf results hbIndex).length ≤ numRounds

@[simp] theorem fileCount_nil : fileCount [] = 0 := rfl

@[simp] theorem fileCount_append {left right : List MaterializeResult} :
    fileCount (left ++ right) = fileCount left + fileCount right := by
  simp [fileCount]

theorem resultsOf_snoc {results : List MaterializeResult} {result : MaterializeResult}
    {hbIndex : ℕ} :
    resultsOf (results ++ [result]) hbIndex =
      if result.taskIndex = hbIndex then resultsOf results hbIndex ++ [result]
      else resultsOf results hbIndex := by
  by_cases isBucket : result.taskIndex = hbIndex <;> simp [resultsOf, isBucket]

variable {numRounds : ℕ} {results : List MaterializeResult} {result : MaterializeResult}

theorem Ascending.before (ascending : Ascending (results ++ [result])) :
    Ascending results ∧ ∀ other ∈ results, other.taskIndex ≤ result.taskIndex := by
  rcases List.pairwise_append.mp ascending with ⟨before, _, isLast⟩
  exact ⟨before, fun other otherMem => isLast other otherMem result (List.mem_singleton_self _)⟩

/-- Results that are followed by one of a bucket are of earlier buckets or of this one. -/
theorem fileCount_before (ascending : Ascending (results ++ [result])) :
    fileCount results = fileCount (results.filter (·.taskIndex < result.taskIndex)) +
      fileCount (resultsOf results result.taskIndex) := by
  rcases ascending.before with ⟨before, atMost⟩
  have noneAfter : results.filter (result.taskIndex < ·.taskIndex) = [] := by
    apply List.filter_eq_nil_iff.mpr
    intro other otherMem
    simpa using atMost other otherMem
  have split := eq_append_of_ascending result.taskIndex before
  rw [noneAfter, List.append_nil] at split
  calc fileCount results
      = fileCount (results.filter (·.taskIndex < result.taskIndex) ++
          resultsOf results result.taskIndex) := congrArg fileCount split
    _ = _ := fileCount_append

theorem duplicates_stateAfter (ascending : Ascending (results ++ [result])) :
    (if some result.taskIndex = (stateAfter results).previousTaskIndex then
      (stateAfter results).duplicateHashBucketMatResults + 1 else 0) =
        (resultsOf results result.taskIndex).length := by
  rcases ascending.before with ⟨before, atMost⟩
  rcases List.eq_nil_or_concat results with rfl | ⟨front, last, rfl⟩
  · rfl
  · rw [List.concat_eq_append] at *
    have isLast : (front ++ [last]).getLast? = some last := by simp
    simp only [stateAfter, isLast, Option.map_some, Option.some.injEq]
    by_cases sameBucket : result.taskIndex = last.taskIndex
    · have isPositive : 0 < (resultsOf (front ++ [last]) last.taskIndex).length := by
        rw [resultsOf_snoc, if_pos rfl]
        simp
      rw [if_pos sameBucket, sameBucket]
      omega
    · have isLess : last.taskIndex < result.taskIndex :=
        lt_of_le_of_ne (atMost last (by simp)) (Ne.symm sameBucket)
      have noneBefore : resultsOf (front ++ [last]) result.taskIndex = [] := by
        apply List.filter_eq_nil_iff.mpr
        intro other otherMem
        have atMostLast : other.taskIndex ≤ last.taskIndex := by
          rcases List.mem_append.mp otherMem with inFront | isLast
          · exact before.before.2 other inFront
          · rw [List.mem_singleton.mp isLast]
        simpa using (atMostLast.trans_lt isLess).ne
      rw [if_neg sameBucket, noneBefore]
      rfl

/-- The range of the bucket of the last result. -/
theorem rangeOf_snoc (ascending : Ascending (results ++ [result])) :
    rangeOf (results ++ [result]) result.taskIndex =
      ((((stateAfter results).hbIdToEntryIndicesRange result.taskIndex).map Prod.fst).getD
        (fileCount results), fileCount results + result.pyarrowWriteResult.files) := by
  have counted := fileCount_before ascending
  have sameBefore : (results ++ [result]).filter (·.taskIndex < result.taskIndex) =
      results.filter (·.taskIndex < result.taskIndex) := by simp
  have oneFiles : fileCount [result] = result.pyarrowWriteResult.files := by simp [fileCount]
  have isStart : (((stateAfter results).hbIdToEntryIndicesRange result.taskIndex).map
      Prod.fst).getD (fileCount results) =
        fileCount (results.filter (·.taskIndex < result.taskIndex)) := by
    unfold stateAfter
    by_cases isFirst : resultsOf results result.taskIndex = []
    · rw [isFirst] at counted
      simpa [isFirst] using counted
    · simp [isFirst, rangeOf]
  rw [isStart, rangeOf, sameBefore, resultsOf_snoc, if_pos rfl, fileCount_append, oneFiles]
  simp only [Prod.mk.injEq, true_and]
  omega

/-- The ranges of the other buckets stay. -/
theorem rangeOf_snoc_of_ne {hbIndex : ℕ} (ascending : Ascending (results ++ [result]))
    (isOther : result.taskIndex ≠ hbIndex) (hasResults : resultsOf results hbIndex ≠ []) :
    rangeOf (results ++ [result]) hbIndex = rangeOf results hbIndex := by
  rcases List.exists_mem_of_ne_nil _ hasResults with ⟨other, otherMem⟩
  rw [resultsOf, List.mem_filter, decide_eq_true_iff] at otherMem
  have atMost := ascending.before.2 other otherMem.1
  have sameBefore : (results ++ [result]).filter (·.taskIndex < hbIndex) =
      results.filter (·.taskIndex < hbIndex) := by
    have notBefore : hbIndex ≤ result.taskIndex := otherMem.2 ▸ atMost
    simp [notBefore]
  rw [rangeOf, sameBefore, resultsOf_snoc, if_neg isOther]
  rfl

theorem stateAfter_snoc (ascending : Ascending (results ++ [result])) :
    stateAfter (results ++ [result]) =
      { hbIdToEntryIndicesRange :=
          Function.update (stateAfter results).hbIdToEntryIndicesRange result.taskIndex
            (some ((((stateAfter results).hbIdToEntryIndicesRange result.taskIndex).map
              Prod.fst).getD (fileCount results),
                fileCount results + result.pyarrowWriteResult.files))
        fileIndex := fileCount results + result.pyarrowWriteResult.files
        previousTaskIndex := some result.taskIndex
        duplicateHashBucketMatResults := (resultsOf results result.taskIndex).length } := by
  have isLast : (results ++ [result]).getLast? = some result := by simp
  have sameRanges : (stateAfter (results ++ [result])).hbIdToEntryIndicesRange =
      Function.update (stateAfter results).hbIdToEntryIndicesRange result.taskIndex
        (some (rangeOf (results ++ [result]) result.taskIndex)) := by
    funext hbIndex
    simp only [stateAfter, resultsOf_snoc]
    by_cases isBucket : result.taskIndex = hbIndex
    · subst isBucket
      rw [if_pos rfl, Function.update_self, if_neg (by simp)]
    · rw [if_neg isBucket, Function.update_of_ne (Ne.symm isBucket)]
      by_cases isFirst : resultsOf results hbIndex = []
      · rw [if_pos isFirst, if_pos isFirst]
      · rw [if_neg isFirst, if_neg isFirst, rangeOf_snoc_of_ne ascending isBucket isFirst]
  rw [rangeOf_snoc ascending] at sameRanges
  rw [← sameRanges]
  simp [stateAfter, isLast, resultsOf_snoc, fileCount]

/-- One step of the loop. -/
theorem extendRange_stateAfter (ascending : Ascending (results ++ [result])) :
    extendRange numRounds (stateAfter results) result =
      if result.pyarrowWriteResult.files < 1 ∨
          numRounds ≤ (resultsOf results result.taskIndex).length then .error .assertionError
      else .ok (stateAfter (results ++ [result])) := by
  simp only [extendRange, duplicates_stateAfter ascending]
  rw [stateAfter_snoc ascending]
  by_cases noFile : result.pyarrowWriteResult.files < 1
  · simp [noFile]
  · by_cases isRepeated : numRounds ≤ (resultsOf results result.taskIndex).length
    · simp [isRepeated]
    · simp only [noFile, isRepeated, or_self, if_false]
      rfl

/-- The loop passes its assertions exactly if the results are countable. -/
theorem foldlM_extendRange_iff {state : RangeState} (ascending : Ascending results) :
    results.foldlM (extendRange numRounds) .initial = .ok state ↔
      Countable numRounds results ∧ state = stateAfter results := by
  induction results using List.reverseRecOn generalizing state with
  | nil =>
      have start : stateAfter [] = .initial := by
        simp [stateAfter, RangeState.initial, resultsOf]
      rw [start]
      constructor
      · intro isState
        cases isState
        exact ⟨⟨by simp, by simp [resultsOf]⟩, rfl⟩
      · rintro ⟨_, rfl⟩
        rfl
  | append_singleton results result ih =>
      rw [List.foldlM_append, except_bind_eq_ok]
      constructor
      · rintro ⟨middle, isMiddle, afterMiddle⟩
        rcases (ih ascending.before.1).mp isMiddle with ⟨countable, rfl⟩
        rw [List.foldlM_cons, extendRange_stateAfter ascending] at afterMiddle
        split at afterMiddle
        · cases afterMiddle
        case isFalse passes =>
          cases afterMiddle
          refine ⟨⟨?_, ?_⟩, rfl⟩
          · intro other otherMem
            rcases List.mem_append.mp otherMem with isEarlier | isLast
            · exact countable.files other isEarlier
            · rw [List.mem_singleton.mp isLast]
              omega
          · intro hbIndex
            rw [resultsOf_snoc]
            split
            case isTrue isBucket =>
              rw [List.length_append, List.length_singleton, ← isBucket]
              omega
            case isFalse => exact countable.rounds hbIndex
      · rintro ⟨countable, rfl⟩
        have before : Countable numRounds results := by
          refine ⟨fun other otherMem => countable.files other (by simp [otherMem]), ?_⟩
          intro hbIndex
          exact (List.Sublist.filter _ (List.sublist_append_left _ _)).length_le.trans
            (countable.rounds hbIndex)
        refine ⟨stateAfter results, (ih ascending.before.1).mpr ⟨before, rfl⟩, ?_⟩
        have hasFile := countable.files result (by simp)
        have isRepeated := countable.rounds result.taskIndex
        rw [resultsOf_snoc, if_pos rfl, List.length_append, List.length_singleton] at isRepeated
        rw [List.foldlM_cons, extendRange_stateAfter ascending, if_neg (by omega)]
        rfl

end Ranges

/-- The ranges are those of the entries of the buckets in a manifest of the results. -/
structure Describes (results : List MaterializeResult) (ranges : EntryRanges)
    (manifest : Manifest) : Prop extends Indexes ranges manifest where
  cover : ∀ index < manifest.entries.length, ∃ hbIndex range, ranges hbIndex = some range ∧
    range.1 ≤ index ∧ index < range.2
  buckets : ∀ hbIndex, (ranges hbIndex).isSome ↔ ∃ result ∈ results, result.taskIndex = hbIndex
  entries : ∀ hbIndex range, ranges hbIndex = some range →
    entriesIn manifest range = (resultsOf results hbIndex).flatMap (·.delta.entries)

section Describes

variable {results : List MaterializeResult}

theorem fileCount_filter_add_le {left right both : MaterializeResult → Bool}
    (apart : ∀ result, left result → ¬right result)
    (leftBoth : ∀ result, left result → both result)
    (rightBoth : ∀ result, right result → both result) :
    fileCount (results.filter left) + fileCount (results.filter right) ≤
      fileCount (results.filter both) := by
  induction results with
  | nil => simp
  | cons result results ih =>
      have add : ∀ test : MaterializeResult → Bool, fileCount ((result :: results).filter test) =
          (if test result then result.pyarrowWriteResult.files else 0) +
            fileCount (results.filter test) := by
        intro test
        by_cases passes : test result <;> simp [fileCount, passes]
      have notBoth := apart result
      have isLeft := leftBoth result
      have isRight := rightBoth result
      rw [add, add, add]
      split_ifs <;> simp_all <;> omega

theorem exists_range {index : ℕ} (ascending : Ascending results)
    (isBound : index < fileCount results) :
    ∃ hbIndex, resultsOf results hbIndex ≠ [] ∧ (rangeOf results hbIndex).1 ≤ index ∧
      index < (rangeOf results hbIndex).2 := by
  induction results using List.reverseRecOn with
  | nil => simp at isBound
  | append_singleton results result ih =>
      have isStop := congrArg Prod.snd (rangeOf_snoc ascending)
      have isStart : (rangeOf (results ++ [result]) result.taskIndex).1 =
          (rangeOf results result.taskIndex).1 := by simp [rangeOf]
      have hasResult : resultsOf (results ++ [result]) result.taskIndex ≠ [] := by
        simp [resultsOf_snoc]
      have isTotal : fileCount (results ++ [result]) =
          fileCount results + result.pyarrowWriteResult.files := by simp [fileCount]
      by_cases isEarlier : index < fileCount results
      · rcases ih ascending.before.1 isEarlier with ⟨hbIndex, hasResults, isAbove, isBelow⟩
        by_cases isBucket : result.taskIndex = hbIndex
        · subst isBucket
          exact ⟨_, hasResult, by omega, by omega⟩
        · refine ⟨hbIndex, ?_, ?_⟩
          · rwa [resultsOf_snoc, if_neg isBucket]
          · rw [rangeOf_snoc_of_ne ascending isBucket hasResults]
            exact ⟨isAbove, isBelow⟩
      · have atMost : (rangeOf results result.taskIndex).1 ≤ fileCount results := by
          rw [fileCount_before ascending]
          exact Nat.le_add_right _ _
        exact ⟨_, hasResult, by omega, by omega⟩

theorem length_flatMap_entries
    (counted : ∀ result ∈ results, result.pyarrowWriteResult.files = result.delta.entries.length) :
    (results.flatMap (·.delta.entries)).length = fileCount results := by
  rw [List.length_flatMap, fileCount]
  congr 1
  apply List.map_congr_left
  exact fun result resultMem => (counted result resultMem).symm

/-- The entries of a bucket are at its range. -/
theorem entriesIn_rangeOf {manifest : Manifest} (ascending : Ascending results)
    (counted : ∀ result ∈ results, result.pyarrowWriteResult.files = result.delta.entries.length)
    (isMerged : manifest.entries = results.flatMap (·.delta.entries)) (hbIndex : ℕ) :
    entriesIn manifest (rangeOf results hbIndex) =
      (resultsOf results hbIndex).flatMap (·.delta.entries) := by
  have ofFiltered : ∀ test : MaterializeResult → Bool,
      ((results.filter test).flatMap (·.delta.entries)).length =
        fileCount (results.filter test) := fun test =>
    length_flatMap_entries fun result resultMem => counted result (List.mem_filter.mp resultMem).1
  have split := eq_append_of_ascending hbIndex ascending
  have isSplit : manifest.entries =
      (results.filter (·.taskIndex < hbIndex)).flatMap (·.delta.entries) ++
        ((resultsOf results hbIndex).flatMap (·.delta.entries) ++
          (results.filter (hbIndex < ·.taskIndex)).flatMap (·.delta.entries)) := by
    rw [isMerged, split, List.flatMap_append, List.flatMap_append, List.append_assoc, ← split]
    rfl
  simp only [entriesIn, rangeOf, Nat.add_sub_cancel_left]
  rw [isSplit, List.drop_left' (ofFiltered _)]
  exact List.take_left' (ofFiltered _)

/-- The ranges that the loop computes are those of the entries of the sorted results. -/
theorem describes_stateAfter {manifest : Manifest} (ascending : Ascending results)
    (counted : ∀ result ∈ results, result.pyarrowWriteResult.files = result.delta.entries.length)
    (isMerged : manifest.entries = results.flatMap (·.delta.entries)) :
    Describes results (stateAfter results).hbIdToEntryIndicesRange manifest := by
  have isRange : ∀ hbIndex range,
      (stateAfter results).hbIdToEntryIndicesRange hbIndex = some range →
        resultsOf results hbIndex ≠ [] ∧ range = rangeOf results hbIndex := by
    intro hbIndex range isSome
    simp only [stateAfter] at isSome
    split at isSome
    · cases isSome
    case isFalse hasResults => exact ⟨hasResults, (Option.some.inj isSome).symm⟩
  have hasRange : ∀ hbIndex, resultsOf results hbIndex ≠ [] →
      (stateAfter results).hbIdToEntryIndicesRange hbIndex = some (rangeOf results hbIndex) := by
    intro hbIndex hasResults
    simp only [stateAfter, if_neg hasResults]
  have total : manifest.entries.length = fileCount results := by
    rw [isMerged, length_flatMap_entries counted]
  have isBefore : ∀ left right, left < right →
      (rangeOf results left).2 ≤ (rangeOf results right).1 := by
    intro left right isLess
    apply fileCount_filter_add_le <;> intro result isResult <;>
      simp only [decide_eq_true_iff] at isResult ⊢ <;> omega
  constructor
  · constructor
    · intro hbIndex range isSome
      rw [(isRange hbIndex range isSome).2]
      exact Nat.le_add_right _ _
    · intro hbIndex range isSome
      rw [(isRange hbIndex range isSome).2, total]
      have atMost : (rangeOf results hbIndex).2 ≤ fileCount (results.filter fun _ => true) :=
        fileCount_filter_add_le
          (fun result isBelow => by simpa using (of_decide_eq_true isBelow).ne)
          (fun _ _ => rfl) (fun _ _ => rfl)
      rwa [List.filter_true] at atMost
    · intro left right leftRange rightRange isOther isLeft isRight
      rw [(isRange left leftRange isLeft).2, (isRange right rightRange isRight).2]
      rcases lt_or_gt_of_ne isOther with isLess | isMore
      · exact Or.inl (isBefore left right isLess)
      · exact Or.inr (isBefore right left isMore)
  · intro index isBound
    rcases exists_range ascending (total ▸ isBound) with ⟨hbIndex, hasResults, isInRange⟩
    exact ⟨hbIndex, _, hasRange hbIndex hasResults, isInRange⟩
  · intro hbIndex
    have hasResults : (∃ result ∈ results, result.taskIndex = hbIndex) ↔
        resultsOf results hbIndex ≠ [] := by
      simp [resultsOf, List.filter_eq_nil_iff]
    rw [hasResults]
    by_cases isFirst : resultsOf results hbIndex = [] <;> simp [stateAfter, isFirst]
  · intro hbIndex range isSome
    rw [(isRange hbIndex range isSome).2]
    exact entriesIn_rangeOf ascending counted isMerged hbIndex

end Describes

/-- The results of the merge tasks, in the order of the tasks. -/
def allResults (mergeResults : List MergeResult) : List MaterializeResult :=
  mergeResults.flatMap (·.materializeResults)

/-- Results that are counted by their files and can be merged. -/
structure Processable (numRounds : ℕ) (results : List MaterializeResult) : Prop where
  rounds : ∀ hbIndex, (resultsOf results hbIndex).length ≤ numRounds
  mergeable : Delta.Mergeable ((sortResults results).map (·.delta))

theorem ascending_sortResults (results : List MaterializeResult) :
    Ascending (sortResults results) :=
  letI byIndex : MaterializeResult → MaterializeResult → Prop := fun left right =>
    left.taskIndex ≤ right.taskIndex
  haveI : Std.Total byIndex := ⟨fun left right => le_total left.taskIndex right.taskIndex⟩
  haveI : IsTrans MaterializeResult byIndex := ⟨fun _ _ _ => le_trans⟩
  List.pairwise_insertionSort byIndex results

theorem mem_sortResults {results : List MaterializeResult} {result : MaterializeResult} :
    result ∈ sortResults results ↔ result ∈ results :=
  List.mem_insertionSort _

/-- Sorting keeps the order of the results of a bucket. -/
theorem resultsOf_sortResults {results : List MaterializeResult} {hbIndex : ℕ} :
    resultsOf (sortResults results) hbIndex = resultsOf results hbIndex :=
  filter_insertionSort hbIndex results

theorem processMergeResults_eq_ok_iff {numRounds lastStreamPositionToCompact : ℕ}
    {mergeResults : List MergeResult} {uuid : String} {mergedDelta : Delta}
    {matResults : List MaterializeResult} {ranges : EntryRanges} :
    processMergeResults numRounds lastStreamPositionToCompact mergeResults uuid =
        .ok (mergedDelta, matResults, ranges) ↔
      matResults = sortResults (allResults mergeResults) ∧ Countable numRounds matResults ∧
        ranges = (stateAfter matResults).hbIdToEntryIndicesRange ∧
        Delta.mergeDeltas (matResults.map (·.delta)) none
          (some (if lastStreamPositionToCompact ≠ maxDeltaStreamPosition then
            lastStreamPositionToCompact else 1)) none uuid = .ok mergedDelta := by
  unfold processMergeResults
  constructor
  · intro isProcessed
    rcases except_bind_eq_ok.mp isProcessed with ⟨state, isState, afterState⟩
    rcases except_bind_eq_ok.mp afterState with ⟨merged, isMerged, areResults⟩
    rcases (foldlM_extendRange_iff (ascending_sortResults _)).mp isState with ⟨countable, rfl⟩
    cases areResults
    exact ⟨rfl, countable, rfl, isMerged⟩
  · rintro ⟨rfl, countable, rfl, isMerged⟩
    have isState := (foldlM_extendRange_iff (ascending_sortResults _)).mpr ⟨countable, rfl⟩
    exact except_bind_eq_ok.mpr ⟨_, isState, except_bind_eq_ok.mpr ⟨_, isMerged, rfl⟩⟩

/-- The ranges are right whenever results are processed, and these are all that can be merged. -/
theorem processMergeResults_spec (numRounds lastStreamPositionToCompact : ℕ)
    (mergeResults : List MergeResult) (uuid : String)
    (hasFiles : ∀ result ∈ allResults mergeResults, 1 ≤ result.pyarrowWriteResult.files)
    (counted : ∀ result ∈ allResults mergeResults,
      result.pyarrowWriteResult.files = result.delta.entries.length) :
    ((∃ processed, processMergeResults numRounds lastStreamPositionToCompact mergeResults uuid =
        .ok processed) ↔ Processable numRounds (allResults mergeResults)) ∧
      ∀ mergedDelta matResults ranges,
        processMergeResults numRounds lastStreamPositionToCompact mergeResults uuid =
          .ok (mergedDelta, matResults, ranges) →
        ∃ manifest, mergedDelta.manifest = some manifest ∧
          Describes (allResults mergeResults) ranges manifest := by
  constructor
  · constructor
    · rintro ⟨⟨mergedDelta, matResults, ranges⟩, isProcessed⟩
      rcases processMergeResults_eq_ok_iff.mp isProcessed with ⟨rfl, countable, _, isMerged⟩
      refine ⟨?_, Delta.exists_mergeDeltas_iff.mp ⟨_, isMerged⟩⟩
      intro hbIndex
      rw [← resultsOf_sortResults]
      exact countable.rounds hbIndex
    · intro processable
      rcases Delta.exists_mergeDeltas_iff.mpr processable.mergeable with ⟨mergedDelta, isMerged⟩
      refine ⟨_, processMergeResults_eq_ok_iff.mpr ⟨rfl, ⟨?_, ?_⟩, rfl, isMerged⟩⟩
      · intro result resultMem
        exact hasFiles result (mem_sortResults.mp resultMem)
      · intro hbIndex
        rw [resultsOf_sortResults]
        exact processable.rounds hbIndex
  · intro mergedDelta matResults ranges isProcessed
    rcases processMergeResults_eq_ok_iff.mp isProcessed with ⟨rfl, _, rfl, isMerged⟩
    rcases Delta.mergeDeltas_eq_ok isMerged with ⟨areEntries, hasManifest, _⟩
    rcases Option.isSome_iff_exists.mp hasManifest with ⟨manifest, isManifest⟩
    have sameEntries : manifest.entries =
        (sortResults (allResults mergeResults)).flatMap (·.delta.entries) := by
      calc manifest.entries
          = mergedDelta.entries := by rw [Delta.entries, isManifest]; rfl
        _ = _ := by rw [areEntries, List.flatMap_map]
    have describes := describes_stateAfter (ascending_sortResults _)
      (fun result resultMem => counted result (mem_sortResults.mp resultMem)) sameEntries
    refine ⟨manifest, isManifest, describes.toIndexes, describes.cover, ?_, ?_⟩
    · intro hbIndex
      simp only [describes.buckets hbIndex, mem_sortResults]
    · intro hbIndex range isRange
      rw [describes.entries hbIndex range isRange, resultsOf_sortResults]

section Examples

/-- One file of a bucket that is written to a partition. -/
def oneFile (hbIndex : ℕ) (uri partitionId : String) : MaterializeResult where
  delta :=
    { locator := ⟨⟨[.streamName (some "s") (some "deltacat")],
        .partitionName none (some partitionId)⟩, none⟩
      type := some .append
      metadata := some (parquetEntry uri).metadata
      properties := none
      manifest := some ⟨uri, (parquetEntry uri).metadata, [parquetEntry uri], none⟩
      previousStreamPosition := none }
  taskIndex := hbIndex
  pyarrowWriteResult := ⟨1, 1, 1, 1⟩
  referencedPyarrowWriteResult := none

/-- The second bucket was materialized first. -/
def twoBuckets : List MergeResult := [⟨[oneFile 1 "1" "p", oneFile 0 "0" "p"]⟩]

theorem processable_twoBuckets : Processable 1 (allResults twoBuckets) := by
  have isSorted : (sortResults (allResults twoBuckets)).map (·.delta) =
      [(oneFile 0 "0" "p").delta, (oneFile 1 "1" "p").delta] := rfl
  constructor
  · intro hbIndex
    match hbIndex with
    | 0 | 1 => decide
    | _ + 2 => simp [resultsOf, allResults, twoBuckets, oneFile]
  · rw [isSorted]
    constructor
    · simp
    · simp [oneFile]
    · simp [oneFile, Delta.storageType, Locator.streamFormat]
    · simp [oneFile]
    · simp [oneFile]
    · intro first isFirst entry entryMem
      obtain rfl : parquetEntry "0" = first := by
        simpa [oneFile, Delta.entries] using isFirst
      exact ⟨fun isGiven => absurd rfl isGiven, fun isGiven => absurd rfl isGiven⟩

theorem processMergeResults_twoBuckets :
    ∃ mergedDelta matResults ranges manifest,
      processMergeResults 1 maxDeltaStreamPosition twoBuckets "m" =
        .ok (mergedDelta, matResults, ranges) ∧
      mergedDelta.manifest = some manifest ∧
      Describes (allResults twoBuckets) ranges manifest := by
  rcases processMergeResults_spec 1 maxDeltaStreamPosition twoBuckets "m" (by decide) (by decide)
    with ⟨succeeds, describes⟩
  rcases succeeds.mpr processable_twoBuckets with ⟨⟨mergedDelta, matResults, ranges⟩, isProcessed⟩
  rcases describes _ _ _ isProcessed with ⟨manifest, isManifest, describesManifest⟩
  exact ⟨_, _, _, manifest, isProcessed, isManifest, describesManifest⟩

/-- No results, more results of a bucket than rounds, and results of two partitions. -/
theorem not_processMergeResults :
    (∀ processed, processMergeResults 1 maxDeltaStreamPosition [] "m" ≠ .ok processed) ∧
      (∀ processed, processMergeResults 1 maxDeltaStreamPosition
        [⟨[oneFile 0 "0" "p"]⟩, ⟨[oneFile 0 "1" "p"]⟩] "m" ≠ .ok processed) ∧
      ∀ processed, processMergeResults 1 maxDeltaStreamPosition
        [⟨[oneFile 0 "0" "p", oneFile 1 "1" "q"]⟩] "m" ≠ .ok processed := by
  refine ⟨?_, ?_, ?_⟩ <;> intro processed isProcessed
  · have fails : (processMergeResults 1 maxDeltaStreamPosition [] "m").toOption.isNone := by
      decide +kernel
    simp [isProcessed, Except.toOption] at fails
  · have fails : (processMergeResults 1 maxDeltaStreamPosition
        [⟨[oneFile 0 "0" "p"]⟩, ⟨[oneFile 0 "1" "p"]⟩] "m").toOption.isNone := by decide +kernel
    simp [isProcessed, Except.toOption] at fails
  · have fails : (processMergeResults 1 maxDeltaStreamPosition
        [⟨[oneFile 0 "0" "p", oneFile 1 "1" "q"]⟩] "m").toOption.isNone := by decide +kernel
    simp [isProcessed, Except.toOption] at fails

end Examples

end Deltacat.Compute.CompactorV2
