import Deltacat.Compute.CompactorV2.CompactionSession

/-!
# Incremental compaction

Each session compacts the deltas from behind the high watermark of the last one up to its own
last stream position. However the deltas of a partition are spread over sessions, and also
if a session finds nothing new, the compacted partition has the rows of all deltas up to the
last position, replayed one after another (`compactPartitions_holds`).
-/

namespace Deltacat.Compute.CompactorV2

open Deltacat.Library Deltacat.Storage Deltacat.Utils

section Discovery

/-- `list_partition_deltas`, in ascending order. -/
def listPartitionDeltas (deltas : List InputDelta)
    (firstStreamPosition lastStreamPosition : Option ℕ) : Except Error (List InputDelta) :=
  if firstStreamPosition.any fun first => lastStreamPosition.any (· < first) then
    .error .valueError
  else
    .ok ((deltas.filter fun delta => firstStreamPosition.all (· ≤ delta.streamPosition) &&
      lastStreamPosition.all (delta.streamPosition ≤ ·)).insertionSort fun left right =>
        left.streamPosition ≤ right.streamPosition)

/-- The first delta is left out if it is at the start position. -/
def withoutStart (startPositionExclusive : Option ℕ) : List InputDelta → List InputDelta
  | [] => []
  | first :: rest =>
      if startPositionExclusive = some first.streamPosition then rest else first :: rest

/-- `_discover_deltas`. -/
def discoverDeltas (deltas : List InputDelta)
    (startPositionExclusive endPositionInclusive : Option ℕ) :
    Except Error (List InputDelta) :=
  withoutStart startPositionExclusive <$>
    listPartitionDeltas deltas startPositionExclusive endPositionInclusive

/-- The deltas of a list between two positions. -/
def between (deltas : List InputDelta) (startPositionExclusive : Option ℕ) (last : ℕ) :
    List InputDelta :=
  deltas.filter fun delta => startPositionExclusive.all (· < delta.streamPosition) &&
    delta.streamPosition ≤ last

/-- Of ascending deltas from a position on, only the first one can be at the position. -/
theorem withoutStart_of_ascending {found : List InputDelta} {start : ℕ}
    (ascending : (found.map InputDelta.streamPosition).Pairwise (· < ·))
    (atLeast : ∀ delta ∈ found, start ≤ delta.streamPosition) :
    withoutStart (some start) found = found.filter (start < ·.streamPosition) := by
  cases found with
  | nil => rfl
  | cons first rest =>
      rw [List.map_cons, List.pairwise_cons] at ascending
      have isFirst := atLeast first List.mem_cons_self
      have keepsRest : rest.filter (start < ·.streamPosition) = rest := by
        rw [List.filter_eq_self]
        intro delta deltaMem
        have isAfter := ascending.1 delta.streamPosition (List.mem_map_of_mem deltaMem)
        simpa using isFirst.trans_lt isAfter
      by_cases isStart : start = first.streamPosition
      · rw [List.filter_cons_of_neg (by simp [isStart]), keepsRest]
        simp [withoutStart, isStart]
      · have isAfter : start < first.streamPosition := lt_of_le_of_ne isFirst isStart
        rw [List.filter_cons_of_pos (by simpa using isAfter), keepsRest]
        simp [withoutStart, isStart]

theorem withoutStart_none (found : List InputDelta) : withoutStart none found = found := by
  cases found <;> simp [withoutStart]

/-- A session finds the deltas behind the high watermark, whatever the order they are listed in. -/
theorem discoverDeltas_eq {deltas listed : List InputDelta} {start : Option ℕ} {last : ℕ}
    (ascending : (deltas.map InputDelta.streamPosition).Pairwise (· < ·))
    (sameDeltas : (listed.filter (·.streamPosition ≤ last)).Perm
      (deltas.filter (·.streamPosition ≤ last)))
    (inOrder : ∀ first ∈ start, first ≤ last) :
    discoverDeltas listed start (some last) = .ok (between deltas start last) := by
  let inRange := fun delta : InputDelta =>
    start.all (· ≤ delta.streamPosition) && decide (delta.streamPosition ≤ last)
  have isOrdered : ¬(start.any fun first => (some last).any (· < first)) := by
    cases start with
    | none => simp
    | some first => simpa using inOrder first rfl
  have splitRange : ∀ others : List InputDelta, others.filter inRange =
      (others.filter (·.streamPosition ≤ last)).filter fun delta =>
        start.all (· ≤ delta.streamPosition) := by
    intro others
    rw [List.filter_filter]
  have foundAscending : ((deltas.filter inRange).map InputDelta.streamPosition).Pairwise (· < ·) :=
    ascending.sublist (List.filter_sublist.map _)
  have isFound : (listed.filter inRange).insertionSort
      (fun left right => left.streamPosition ≤ right.streamPosition) = deltas.filter inRange := by
    have samePerm : ((listed.filter inRange).insertionSort
        fun left right => left.streamPosition ≤ right.streamPosition).Perm
        (deltas.filter inRange) := by
      refine (List.perm_insertionSort _ _).trans ?_
      rw [splitRange, splitRange]
      exact sameDeltas.filter _
    refine samePerm.eq_of_pairwise ?_ (pairwise_insertionSort_key InputDelta.streamPosition _)
      ((List.pairwise_map.mp foundAscending).imp le_of_lt)
    intro left right leftMem rightMem isBefore isAfter
    have samePosition := le_antisymm isBefore isAfter
    exact List.inj_on_of_nodup_map (foundAscending.imp fun isLess => isLess.ne)
      (samePerm.mem_iff.mp leftMem) rightMem samePosition
  have isListed : listPartitionDeltas listed start (some last) = .ok (deltas.filter inRange) := by
    rw [listPartitionDeltas, if_neg isOrdered, ← isFound]
    rfl
  rw [discoverDeltas, isListed]
  change Except.ok (withoutStart start (deltas.filter inRange)) = _
  cases start with
  | none =>
      rw [withoutStart_none]
      simp [inRange, between]
  | some start =>
      rw [withoutStart_of_ascending foundAscending, List.filter_filter, between]
      · congr 1
        apply List.filter_congr
        intro delta _
        by_cases isAfter : start < delta.streamPosition
        · simp [inRange, isAfter, isAfter.le]
        · simp [isAfter]
      · intro delta deltaMem
        have isRange := (List.mem_filter.mp deltaMem).2
        simp only [inRange, Option.all_some, Bool.and_eq_true, decide_eq_true_eq] at isRange
        exact isRange.1

end Discovery

section Sessions

variable {Value Bytes Count : Type}

/-- The parameters that differ between the sessions of a partition, and the deltas listed then. -/
structure CompactionRequest where
  sourceDeltas : List InputDelta
  lastStreamPositionToCompact : ℕ
  compactedPartition : Metafile
  hashBucketUuids : ℕ → ℕ → ℕ → String
  mergeUuids : ℕ → ℕ → ℕ → String
  manifestUuid : String

/-- The parameters of a session. -/
def CompactPartitionParams.forRequest (params : CompactPartitionParams Value Bytes Count)
    (request : CompactionRequest) : CompactPartitionParams Value Bytes Count :=
  { params with
    lastStreamPositionToCompact := request.lastStreamPositionToCompact
    compactedPartition := request.compactedPartition
    hashBucketUuids := request.hashBucketUuids
    mergeUuids := request.mergeUuids
    manifestUuid := request.manifestUuid }

variable [LinearOrder Value] [Add Bytes] [Zero Bytes] [LE Bytes] [DecidableLE Bytes]
  [NatCast Count] [LE Count] [DecidableLE Count]
  (params : CompactPartitionParams Value Bytes Count) (numBuckets numGroups : ℕ)
  [NeZero numBuckets] [NeZero numGroups]

/-- `_execute_compaction`, without a rebase and for a source that is not compacted in place. -/
def executeCompaction (previous : Option CompactedRound) (sourceDeltas : List InputDelta) :
    Except Error (Option CompactedRound) :=
  -- `_fetch_compaction_metadata`
  if previous.any fun round => round.roundCompletionInfo.hashBucketCount ≠ numBuckets then
    .error .assertionError
  else do
    let inputDeltas ← discoverDeltas sourceDeltas
      (previous.bind fun round => round.roundCompletionInfo.highWatermark)
      (some params.lastStreamPositionToCompact)
    if inputDeltas.isEmpty then return none
    else
      let round ← compactInputDeltas params numBuckets numGroups previous inputDeltas
      return some round

/-- `compact_partition`, and what the destination has after it. -/
def compactPartition (previous : Option CompactedRound) (sourceDeltas : List InputDelta) :
    Except Error (Option CompactedRound) :=
  if 1 < params.numRounds ∧ params.dropDuplicates then .error .assertionError
  else do
    let round ← executeCompaction params numBuckets numGroups previous sourceDeltas
    return round <|> previous

/-- Sessions of a partition, one after another. -/
def compactPartitions (previous : Option CompactedRound) (requests : List CompactionRequest) :
    Except Error (Option CompactedRound) :=
  requests.foldlM (fun previous request => compactPartition (params.forRequest request) numBuckets
    numGroups previous request.sourceDeltas) previous

variable {params numBuckets numGroups} {previous : Option CompactedRound}
  {sourceDeltas inputDeltas : List InputDelta}

theorem executeCompaction_eq (sameCount : ∀ round ∈ previous,
      round.roundCompletionInfo.hashBucketCount = numBuckets)
    (isDiscovered : discoverDeltas sourceDeltas
      (previous.bind fun round => round.roundCompletionInfo.highWatermark)
      (some params.lastStreamPositionToCompact) = .ok inputDeltas) :
    executeCompaction params numBuckets numGroups previous sourceDeltas =
      if inputDeltas.isEmpty then .ok none
      else some <$> compactInputDeltas params numBuckets numGroups previous inputDeltas := by
  have notChanged : ¬(previous.any fun round =>
      round.roundCompletionInfo.hashBucketCount ≠ numBuckets) := by
    cases previous with
    | none => simp
    | some round => simpa using sameCount round rfl
  rw [executeCompaction, if_neg notChanged, isDiscovered]
  simp only [bind, Except.bind]
  split_ifs
  · rfl
  · cases compactInputDeltas params numBuckets numGroups previous inputDeltas <;> rfl

/-- A session that finds nothing leaves the destination as it is. -/
theorem compactPartition_of_nil (oneRound : params.numRounds = 1)
    (executes : executeCompaction params numBuckets numGroups previous sourceDeltas = .ok none) :
    compactPartition params numBuckets numGroups previous sourceDeltas = .ok previous := by
  rw [compactPartition, if_neg (by simp [oneRound]), executes]
  cases previous <;> rfl

theorem compactPartition_of_some {round : CompactedRound} (oneRound : params.numRounds = 1)
    (executes : executeCompaction params numBuckets numGroups previous sourceDeltas =
      .ok (some round)) :
    compactPartition params numBuckets numGroups previous sourceDeltas = .ok (some round) := by
  rw [compactPartition, if_neg (by simp [oneRound]), executes]
  rfl

end Sessions

section Between

variable {deltas : List InputDelta} {start : Option ℕ} {last next : ℕ}

theorem between_append
    (ascending : (deltas.map InputDelta.streamPosition).Pairwise (· < ·)) (isLess : last ≤ next) :
    between deltas none next = between deltas none last ++ between deltas (some last) next := by
  induction deltas with
  | nil => rfl
  | cons delta deltas ih =>
      rw [List.map_cons, List.pairwise_cons] at ascending
      have rest := ih ascending.2
      unfold between at rest ⊢
      by_cases isEarlier : delta.streamPosition ≤ last
      · rw [List.filter_cons_of_pos (by simpa using isEarlier.trans isLess),
          List.filter_cons_of_pos (by simpa using isEarlier),
          List.filter_cons_of_neg (by simp [isEarlier]), rest]
        rfl
      · have isAfter : ∀ other ∈ delta :: deltas, last < other.streamPosition := by
          intro other otherMem
          rcases List.mem_cons.mp otherMem with rfl | inRest
          · exact Nat.lt_of_not_le isEarlier
          · exact (Nat.lt_of_not_le isEarlier).trans
              (ascending.1 other.streamPosition (List.mem_map_of_mem inRest))
        have noneBefore : (delta :: deltas).filter (fun other =>
            (none : Option ℕ).all (· < other.streamPosition) &&
              other.streamPosition ≤ last) = [] := by
          rw [List.filter_eq_nil_iff]
          intro other otherMem
          simpa using isAfter other otherMem
        rw [noneBefore, List.nil_append]
        apply List.filter_congr
        intro other otherMem
        simp [isAfter other otherMem]

/-- If there are no deltas up to a position, one can as well start from it. -/
theorem between_of_nil (noDeltas : between deltas start last = [])
    (isLess : ∀ first ∈ start, first ≤ last) :
    between deltas start next = between deltas (some last) next := by
  unfold between at noDeltas ⊢
  rw [List.filter_eq_nil_iff] at noDeltas
  apply List.filter_congr
  intro delta deltaMem
  have isNone := noDeltas delta deltaMem
  cases start with
  | none =>
      have isAfter : last < delta.streamPosition := by simpa using isNone
      simp [isAfter]
  | some first =>
      have atMost := isLess first rfl
      simp only [Option.all_some, Bool.and_eq_true, decide_eq_true_eq, not_and, not_le] at isNone
      simp only [Option.all_some]
      congr 1
      rw [decide_eq_decide]
      constructor
      · exact isNone
      · exact fun isAfter => atMost.trans_lt isAfter

end Between

section Runs

variable {Value Bytes Count : Type} [LinearOrder Value] [Add Bytes] [Zero Bytes] [LE Bytes]
  [DecidableLE Bytes] [NatCast Count] [LE Count] [DecidableLE Count]
  (params : CompactPartitionParams Value Bytes Count) (numBuckets numGroups : ℕ)
  [NeZero numBuckets] [NeZero numGroups] (columnNames : List String) (all : Table String Value)
  (deltas : List InputDelta)

/-- The rows of all deltas up to a position, which are replayed one after another. -/
def rowsUpTo (last : ℕ) : List (Row String Value) :=
  replay (params.merging numBuckets) []
    ((between deltas none last).map (InputDelta.change params.read columnNames))

/-- A session that sees all deltas up to its last position, and can compact them. -/
structure Serves (request : CompactionRequest) : Prop where
  sameDeltas : (request.sourceDeltas.filter
      (·.streamPosition ≤ request.lastStreamPositionToCompact)).Perm
    (deltas.filter (·.streamPosition ≤ request.lastStreamPositionToCompact))
  isBounded : request.lastStreamPositionToCompact ≠ maxDeltaStreamPosition
  canCompact : ∀ previous start, CanCompact (params.forRequest request) numBuckets numGroups
    columnNames all previous (between deltas start request.lastStreamPositionToCompact)

/-- A compacted partition with the rows of all deltas up to a position, if there are some. -/
structure UpTo (previous : Option CompactedRound) (last : ℕ) : Prop where
  beginsWith : BeginsWith params.storage all (params.bucket numBuckets) numBuckets previous
    (rowsUpTo params numBuckets columnNames deltas last)
  noDeltas : between deltas
    (previous.bind fun round => round.roundCompletionInfo.highWatermark) last = []
  atMost : ∀ start ∈ previous.bind (fun round => round.roundCompletionInfo.highWatermark),
    start ≤ last

variable {params numBuckets numGroups columnNames all deltas} {previous : Option CompactedRound}
  {last : ℕ} {request : CompactionRequest} {requests : List CompactionRequest}

omit [Add Bytes] [Zero Bytes] [LE Bytes] [DecidableLE Bytes] [NatCast Count] [LE Count]
  [DecidableLE Count] in
theorem rowsUpTo_append
    (ascending : (deltas.map InputDelta.streamPosition).Pairwise (· < ·)) {start : Option ℕ}
    {next : ℕ} (isLess : last ≤ next) (noDeltas : between deltas start last = [])
    (atMost : ∀ first ∈ start, first ≤ last) :
    rowsUpTo params numBuckets columnNames deltas next =
      replay (params.merging numBuckets) (rowsUpTo params numBuckets columnNames deltas last)
        ((between deltas start next).map (InputDelta.change params.read columnNames)) := by
  rw [rowsUpTo, between_append ascending isLess, ← between_of_nil noDeltas atMost, List.map_append,
    replay_append]
  rfl

/-- One more session. -/
theorem compactPartition_upTo
    (ascending : (deltas.map InputDelta.streamPosition).Pairwise (· < ·))
    (isRemote : numBuckets ≠ 1) (oneRound : params.numRounds = 1)
    (upTo : UpTo params numBuckets columnNames all deltas previous last)
    (serves : Serves params numBuckets numGroups columnNames all deltas request)
    (isLess : last ≤ request.lastStreamPositionToCompact)
    (hasRows : previous.isSome ∨
      (between deltas none request.lastStreamPositionToCompact ≠ [] →
        rowsUpTo params numBuckets columnNames deltas request.lastStreamPositionToCompact ≠ [])) :
    ∃ next, compactPartition (params.forRequest request) numBuckets numGroups previous
        request.sourceDeltas = .ok next ∧
      UpTo params numBuckets columnNames all deltas next request.lastStreamPositionToCompact ∧
      (previous.isSome → next.isSome) := by
  let start := previous.bind fun round => round.roundCompletionInfo.highWatermark
  let next := request.lastStreamPositionToCompact
  have appended := @rowsUpTo_append _ _ _ _ params numBuckets _ columnNames deltas last ascending
    start next isLess upTo.noDeltas upTo.atMost
  have isDiscovered : discoverDeltas request.sourceDeltas start (some next) =
      .ok (between deltas start next) :=
    discoverDeltas_eq ascending serves.sameDeltas fun first isFirst =>
      (upTo.atMost first isFirst).trans isLess
  have sameCount : ∀ round ∈ previous,
      round.roundCompletionInfo.hashBucketCount = numBuckets := by
    rintro round ⟨⟩
    exact CompactedRound.Holds.hashBucketCount upTo.beginsWith
  have executes := @executeCompaction_eq _ _ _ _ _ _ _ _ _ _ _ (params.forRequest request)
    numBuckets numGroups _ _ previous _ _ sameCount isDiscovered
  by_cases isEmpty : between deltas start next = []
  · rw [isEmpty] at executes appended
    refine ⟨previous, compactPartition_of_nil oneRound executes, ⟨?_, isEmpty, ?_⟩, id⟩
    · have sameRows : rowsUpTo params numBuckets columnNames deltas next =
          rowsUpTo params numBuckets columnNames deltas last := appended
      exact sameRows ▸ upTo.beginsWith
    · exact fun first isFirst => (upTo.atMost first isFirst).trans isLess
  · have isSession : sessionBag (params.forRequest request) numBuckets columnNames
        (between deltas start next) (rowsUpTo params numBuckets columnNames deltas last) =
        rowsUpTo params numBuckets columnNames deltas next := by
      rw [appended, sessionBag, startBag, if_neg isRemote]
      simp only [CompactPartitionParams.forRequest, oneRound, List.replicate_one,
        List.flatten_singleton]
      rfl
    have someRow : rowsUpTo params numBuckets columnNames deltas next ≠ [] ∨
        numBuckets ≠ 1 ∧ previous.isSome := by
      rcases hasRows with hasPrevious | hasRows
      · exact Or.inr ⟨isRemote, hasPrevious⟩
      · refine Or.inl (hasRows ?_)
        rw [between_append ascending isLess, ← between_of_nil upTo.noDeltas upTo.atMost]
        exact List.append_ne_nil_of_right_ne_nil _ isEmpty
    rw [← isSession] at someRow
    rcases compactInputDeltas_eq (serves.canCompact previous start) upTo.beginsWith someRow with
      ⟨round, isRound, holds, isWatermark⟩
    rw [isSession] at holds
    have isNext : round.roundCompletionInfo.highWatermark = some next := by
      rw [isWatermark]
      exact congrArg some (if_pos serves.isBounded)
    rw [if_neg (by simpa using isEmpty), isRound] at executes
    refine ⟨some round, compactPartition_of_some oneRound executes, ⟨holds, ?_, ?_⟩, fun _ => rfl⟩
    · rw [Option.bind_some, isNext, between, List.filter_eq_nil_iff]
      intro delta _
      simp [next]
    · simp [isNext, next]

/-- Sessions up to ascending positions. -/
theorem compactPartitions_upTo
    (ascending : (deltas.map InputDelta.streamPosition).Pairwise (· < ·))
    (isRemote : numBuckets ≠ 1) (oneRound : params.numRounds = 1)
    (upTo : UpTo params numBuckets columnNames all deltas previous last)
    (serves : ∀ request ∈ requests,
      Serves params numBuckets numGroups columnNames all deltas request)
    (inOrder : (last :: requests.map CompactionRequest.lastStreamPositionToCompact).IsChain (· ≤ ·))
    (hasRows : previous.isSome ∨ ∀ request ∈ requests,
      between deltas none request.lastStreamPositionToCompact ≠ [] →
        rowsUpTo params numBuckets columnNames deltas request.lastStreamPositionToCompact ≠ []) :
    ∃ next, compactPartitions params numBuckets numGroups previous requests = .ok next ∧
      UpTo params numBuckets columnNames all deltas next
        ((requests.map CompactionRequest.lastStreamPositionToCompact).getLastD last) := by
  induction requests generalizing previous last with
  | nil => exact ⟨previous, rfl, upTo⟩
  | cons request requests ih =>
      rw [List.map_cons, List.isChain_cons_cons] at inOrder
      rcases compactPartition_upTo ascending isRemote oneRound upTo
        (serves request List.mem_cons_self) inOrder.1
        (hasRows.imp_right fun ofRequests => ofRequests request List.mem_cons_self) with
        ⟨middle, isMiddle, middleUpTo, keepsSome⟩
      rcases ih middleUpTo
        (fun other otherMem => serves other (List.mem_cons_of_mem request otherMem))
        inOrder.2 (hasRows.imp keepsSome fun ofRequests other otherMem =>
          ofRequests other (List.mem_cons_of_mem request otherMem)) with ⟨next, isNext, nextUpTo⟩
      refine ⟨next, ?_, ?_⟩
      · rw [compactPartitions, List.foldlM_cons, isMiddle]
        exact isNext
      · rw [List.map_cons, List.getLastD_cons]
        exact nextUpTo

theorem isChain_zero {positions : List ℕ} (inOrder : positions.Pairwise (· ≤ ·)) :
    (0 :: positions).IsChain (· ≤ ·) :=
  (List.pairwise_cons.mpr ⟨fun _ _ => Nat.zero_le _, inOrder⟩).isChain

omit [Add Bytes] [Zero Bytes] [LE Bytes] [DecidableLE Bytes] [NatCast Count] [LE Count]
  [DecidableLE Count] in
/-- Nothing is compacted at first. -/
theorem upTo_none (positive : ∀ delta ∈ deltas, 0 < delta.streamPosition) :
    UpTo params numBuckets columnNames all deltas none 0 := by
  have noDeltas : between deltas none 0 = [] := by
    rw [between, List.filter_eq_nil_iff]
    intro delta deltaMem
    have isPositive := positive delta deltaMem
    simp only [Option.all_none, Bool.true_and, decide_eq_true_eq]
    omega
  refine ⟨?_, noDeltas, by simp⟩
  rw [rowsUpTo, noDeltas]
  rfl

omit [Add Bytes] [Zero Bytes] [LE Bytes] [DecidableLE Bytes] [NatCast Count] [LE Count]
  [DecidableLE Count] in
theorem nodup_map_rowsUpTo (dropDuplicates : params.dropDuplicates = true) (last : ℕ) :
    ((rowsUpTo params numBuckets columnNames deltas last).map
      (joinedKey params.hashing params.primaryKeys)).Nodup := by
  have isUpserting : params.merging numBuckets =
      Merging.upserting (joinedKey params.hashing params.primaryKeys) _
        (bucketIndex_of_joinedKey params.hashing params.primaryKeys numBuckets) := by
    simp only [CompactPartitionParams.merging, rowMerging, dropDuplicates, if_true]
    rfl
  rw [rowsUpTo, isUpserting]
  exact nodup_map_replay _ List.nodup_nil

end Runs

section Examples

/-- A session up to a position, which finds one delta. -/
def storeRequest (lastStreamPositionToCompact : ℕ) : CompactionRequest where
  sourceDeltas := [storeDelta .upsert none 1]
  lastStreamPositionToCompact := lastStreamPositionToCompact
  compactedPartition := compactedPartition
  hashBucketUuids _ _ _ := "0"
  mergeUuids _ _ _ := "0"
  manifestUuid := "m"

theorem serves_storeRequest (dropDuplicates : Bool) {last : ℕ} (isPositive : 0 < last)
    (isBounded : last ≠ maxDeltaStreamPosition) :
    Serves (storeParams dropDuplicates) 2 2 ["region", "store"] oneStore [storeDelta .upsert none 1]
      (storeRequest last) where
  sameDeltas := List.Perm.refl _
  isBounded := isBounded
  canCompact := by
    intro previous start
    have found : between [storeDelta .upsert none 1] start last = [] ∨
        between [storeDelta .upsert none 1] start last = [storeDelta .upsert none 1] := by
      unfold between
      rw [List.filter_cons]
      split_ifs
      · exact Or.inr rfl
      · exact Or.inl rfl
    have canCompact := canCompact_storeParams dropDuplicates 2 2 previous found le_rfl
    exact ⟨canCompact.compactable, canCompact.uniform, canCompact.comparable,
      canCompact.hexadecimal, canCompact.canStage, canCompact.commits, isPositive,
      canCompact.copiesSingly, canCompact.rounds⟩

/-- The second session finds nothing new. -/
theorem serves_storeRequests (dropDuplicates : Bool) :
    ∀ request ∈ [storeRequest 1, storeRequest 3],
      Serves (storeParams dropDuplicates) 2 2 ["region", "store"] oneStore
        [storeDelta .upsert none 1] request := by
  intro request requestMem
  simp only [List.mem_cons, List.not_mem_nil, or_false] at requestMem
  rcases requestMem with rfl | rfl <;> exact serves_storeRequest _ (by decide) (by decide)

end Examples

end Deltacat.Compute.CompactorV2
