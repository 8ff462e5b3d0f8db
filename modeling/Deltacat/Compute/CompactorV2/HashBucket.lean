import Deltacat.Compute.CompactorV2.HashBucketGrouping
import Deltacat.Compute.CompactorV2.MergeOrder
import Deltacat.Compute.CompactorV2.PrepareDeletes
import Deltacat.Library.Replay

/-!
# From hash bucketing to merging

A hash bucket task reads one annotated delta and spreads its rows over the buckets. The
buckets go to the merge tasks in groups. Each bucket is handed to one merge task, with its
rows of all deltas in the order of the deltas (`mergeFileGroups_spec`).
-/

namespace Deltacat.Compute.CompactorV2

open Deltacat.Library Deltacat.Storage Deltacat.Utils

/-- The files of each bucket. -/
abbrev DeltaFileEnvelopeGroups (Value : Type) (numBuckets : ℕ) :=
  Fin numBuckets → List (DeltaFileEnvelope Value)

/-- The files of a bucket; without any, its table may be copied by reference. -/
structure MergeFileGroup (Value : Type) where
  hbIndex : ℕ
  dfeGroups : Option (List (List (DeltaFileEnvelope Value)))

/-- What hash bucket and merge tasks are given besides the deltas. -/
structure BucketingParams (Value : Type) where
  read : FileReader Value
  hashing : KeyHashing Value
  batches : TableBatches Value
  primaryKeys : List String
  /-- The hexadecimal UUIDs that a task draws. -/
  uuids : ℕ → ℕ → String

section HashBucketTask

variable {Value : Type} (params : BucketingParams Value) {numBuckets numGroups : ℕ}

/-- `DeltaFileEnvelope.of`; the envelopes of this step have no file index. -/
def deltaFileEnvelopeOf (streamPosition : Option ℕ) (deltaType : Option DeltaType)
    (table : Table String Value) : Except Error (DeltaFileEnvelope Value) :=
  match streamPosition, deltaType with
  | some streamPosition, some deltaType => .ok ⟨streamPosition, 0, deltaType, table⟩
  | _, _ => .error .valueError

/-- `read_delta_file_envelopes`. -/
def readDeltaFileEnvelopes (read : FileReader Value)
    (annotatedDelta : Compactor.DeltaAnnotated) :
    Except Error (Option (List (DeltaFileEnvelope Value))) := do
  let tables := annotatedDelta.entries.map read.table
  if tables.length ≠ annotatedDelta.annotations.length then throw .assertionError
  match annotatedDelta.annotations with
  | [] => return none
  | first :: rest =>
      if ¬∀ annotation ∈ first :: rest, annotation.streamPosition = first.streamPosition ∧
          annotation.deltaType = first.deltaType then throw .assertionError
      let table ← read.concat.concatTables tables
      let deltaFile ← deltaFileEnvelopeOf first.streamPosition first.deltaType table
      return some [deltaFile]

/-- The loop of `_group_file_records_by_pk_hash_bucket` over the tables of a file. -/
def addToBuckets (groups : DeltaFileEnvelopeGroups Value numBuckets)
    (dfe : DeltaFileEnvelope Value)
    (hashBucketToTable : Fin numBuckets → Option (Table String Value)) :
    DeltaFileEnvelopeGroups Value numBuckets := fun hb =>
  match (hashBucketToTable hb).filter fun table => !table.rows.isEmpty with
  | none => groups hb
  | some table => groups hb ++ [⟨dfe.streamPosition, dfe.fileIndex, dfe.deltaType, table⟩]

/-- `_group_file_records_by_pk_hash_bucket`. -/
def groupFileRecordsByPkHashBucket [NeZero numBuckets] (hbTaskIndex : ℕ)
    (annotatedDelta : Compactor.DeltaAnnotated) :
    Except Error (Option (DeltaFileEnvelopeGroups Value numBuckets)) := do
  match ← readDeltaFileEnvelopes params.read annotatedDelta with
  | none => return none
  | some deltaFileEnvelopes =>
      let groups ← deltaFileEnvelopes.foldlM
        (fun groups dfe => do
          let hashBucketToTable ← groupByPkHashBucket params.hashing (params.uuids hbTaskIndex)
            params.batches params.primaryKeys dfe.table
          return addToBuckets groups dfe hashBucketToTable) fun _ => []
      return some groups

def hashBucketIndexToHashGroupIndex [NeZero numGroups] (hbIndex : Fin numBuckets) :
    Fin numGroups :=
  Fin.ofNat numGroups hbIndex

/-- What the group of a bucket is after the files of the bucket are put into it. -/
def addToGroup [NeZero numGroups]
    (hbGroupToObject : Fin numGroups → Option (DeltaFileEnvelopeGroups Value numBuckets))
    (hbIndex : Fin numBuckets) (object : List (DeltaFileEnvelope Value)) :
    Fin numGroups → Option (DeltaFileEnvelopeGroups Value numBuckets) :=
  let hbGroup := hashBucketIndexToHashGroupIndex hbIndex
  Function.update hbGroupToObject hbGroup
    (some (Function.update ((hbGroupToObject hbGroup).getD fun _ => []) hbIndex object))

/-- `group_hash_bucket_indices`, with the objects that are put into the object store. -/
def groupHashBucketIndices [NeZero numGroups]
    (hashBucketObjectGroups : Option (DeltaFileEnvelopeGroups Value numBuckets)) :
    Fin numGroups → Option (DeltaFileEnvelopeGroups Value numBuckets) :=
  match hashBucketObjectGroups with
  | none => fun _ => none
  | some objects => (List.finRange numBuckets).foldl
      (fun hbGroupToObject hbIndex =>
        if objects hbIndex = [] then hbGroupToObject
        else addToGroup hbGroupToObject hbIndex (objects hbIndex)) fun _ => none

/-- `_timed_hash_bucket`. -/
def hashBucket (numBuckets numGroups : ℕ) [NeZero numBuckets] [NeZero numGroups] (hbTaskIndex : ℕ)
    (annotatedDelta : Compactor.DeltaAnnotated) :
    Except Error (Fin numGroups → Option (DeltaFileEnvelopeGroups Value numBuckets)) := do
  let groups ← groupFileRecordsByPkHashBucket params hbTaskIndex annotatedDelta
  return groupHashBucketIndices groups

end HashBucketTask

section MergeFileGroups

variable {Value : Type} {numBuckets numGroups : ℕ}

/-- `hash_group_index_to_hash_bucket_indices`. -/
def hashGroupIndexToHashBucketIndices (hbGroup numBuckets numGroups : ℕ) : List ℕ :=
  if numBuckets < hbGroup then []
  else List.range' hbGroup ((numBuckets - hbGroup + numGroups - 1) / numGroups) numGroups

/-- The lists of files that a bucket has in some objects. -/
def filesOfBucket (objects : List (DeltaFileEnvelopeGroups Value numBuckets)) (hbIdx : ℕ) :
    List (List (DeltaFileEnvelope Value)) :=
  if isBucket : hbIdx < numBuckets then
    (objects.map fun groups => groups ⟨hbIdx, isBucket⟩).filter fun dfes => !dfes.isEmpty
  else []

/-- The group of a bucket, which has no files if the bucket is in none of the objects. -/
def mergeFileGroup (objects : List (DeltaFileEnvelopeGroups Value numBuckets)) (hbIdx : ℕ) :
    MergeFileGroup Value where
  hbIndex := hbIdx
  dfeGroups :=
    if filesOfBucket objects hbIdx ≠ [] then some (filesOfBucket objects hbIdx) else none

/-- `RemoteMergeFileGroupsProvider.create`. -/
def createRemote (hashGroupIndex : Fin numGroups)
    (objects : List (DeltaFileEnvelopeGroups Value numBuckets)) :
    Except Error (List (MergeFileGroup Value)) :=
  let validHbIndices :=
    hashGroupIndexToHashBucketIndices hashGroupIndex numBuckets numGroups
  let totalDfesFound := validHbIndices.countP fun hbIdx => filesOfBucket objects hbIdx ≠ []
  let hbIndices := (List.range numBuckets).filter fun hbIdx => filesOfBucket objects hbIdx ≠ []
  if totalDfesFound ≠ hbIndices.length then .error .assertionError
  else .ok (validHbIndices.map (mergeFileGroup objects))

/-- The hash bucket step and the file groups that each merge task creates after it. -/
def mergeFileGroups (params : BucketingParams Value) (numBuckets numGroups : ℕ)
    [NeZero numBuckets] [NeZero numGroups] (uniformDeltas : List Compactor.DeltaAnnotated) :
    Except Error (List (List (MergeFileGroup Value))) := do
  let hbResults ← uniformDeltas.zipIdx.mapM fun delta =>
    hashBucket params numBuckets numGroups delta.2 delta.1
  (List.finRange numGroups).mapM fun hashGroupIndex =>
    createRemote hashGroupIndex (hbResults.filterMap fun result => result hashGroupIndex)

/-- `LocalMergeFileGroupsProvider.create`, which has one bucket for all files. -/
def createLocal (read : FileReader Value) (uniformDeltas : List Compactor.DeltaAnnotated) :
    Except Error (List (MergeFileGroup Value)) := do
  let envelopes ← uniformDeltas.mapM (readDeltaFileEnvelopes read)
  let localDfeList := envelopes.flatMap fun files => files.getD []
  return [⟨0, if 0 < localDfeList.length then some [localDfeList] else none⟩]

end MergeFileGroups

section Spec

variable {Value : Type} (params : BucketingParams Value) {numBuckets numGroups : ℕ}

/-- The bucket of a row with a UUID. -/
def uuidBucket [NeZero numBuckets] (hbTaskIndex index : ℕ) : Fin numBuckets :=
  (pkDigestToHashBucketIndex (some (params.uuids hbTaskIndex index)) numBuckets).toOption.getD 0

/-- The buckets that a task assigns to the rows of a table. -/
def bucketsOf (numBuckets : ℕ) [NeZero numBuckets] (hbTaskIndex : ℕ) (table : Table String Value) :
    List (Fin numBuckets) :=
  if params.primaryKeys = [] then
    (List.range table.rows.length).map (uuidBucket params hbTaskIndex)
  else table.rows.map (hashBucketOf params.hashing params.primaryKeys numBuckets)

/-- The part of a file that is in a bucket, if there are rows in it. -/
def fileIn [NeZero numBuckets] (hbIdx : Fin numBuckets) (hbTaskIndex : ℕ)
    (dfe : DeltaFileEnvelope Value) : Option (DeltaFileEnvelope Value) :=
  (partIn dfe.table (bucketsOf params numBuckets hbTaskIndex dfe.table) hbIdx).map fun table =>
    ⟨dfe.streamPosition, dfe.fileIndex, dfe.deltaType, table⟩

/-- The parts of all files that are in a bucket, given the files that each task reads. -/
def filesIn [NeZero numBuckets] (hbIdx : Fin numBuckets)
    (taskFiles : List (List (DeltaFileEnvelope Value))) : List (DeltaFileEnvelope Value) :=
  taskFiles.zipIdx.flatMap fun task => task.1.filterMap (fileIn params hbIdx task.2)

/-- Tasks draw UUIDs and compute digests that are numbers. -/
structure BucketingParams.Hexadecimal : Prop where
  digests : HexDigests params.hashing
  uuids : ∀ hbTaskIndex index, ∃ number,
    digestNumber (params.uuids hbTaskIndex index) = .ok number

/-- Each bucket is handed to one merge task, with the parts of all files in order. -/
structure HandsOut (numBuckets : ℕ) [NeZero numBuckets]
    (taskFiles : List (List (DeltaFileEnvelope Value)))
    (mergeTasks : List (List (MergeFileGroup Value))) : Prop where
  buckets : (mergeTasks.flatten.map MergeFileGroup.hbIndex).Perm (List.range numBuckets)
  files : ∀ group ∈ mergeTasks.flatten, ∃ hbIdx : Fin numBuckets, group.hbIndex = hbIdx ∧
    (group.dfeGroups.getD []).flatten = filesIn params hbIdx taskFiles ∧
    (group.dfeGroups = none ↔ filesIn params hbIdx taskFiles = [])

variable {params}

theorem groupByPkHashBucket_eq_bucketsOf (numBuckets : ℕ) [NeZero numBuckets]
    (hexadecimal : params.Hexadecimal) (hbTaskIndex : ℕ) {table : Table String Value}
    (haveColumns : ∀ pkName ∈ params.primaryKeys, pkName ∈ table.columnNames) :
    groupByPkHashBucket params.hashing (params.uuids hbTaskIndex) params.batches
        params.primaryKeys table =
      .ok (partIn table (bucketsOf params numBuckets hbTaskIndex table)) := by
  by_cases noKeys : params.primaryKeys = []
  · unfold groupByPkHashBucket hashColumn bucketsOf
    rw [if_pos noKeys, if_pos noKeys]
    apply groupRecordIndicesByHashBucket_eq
    rw [List.mapM_map]
    apply except_mapM_eq_ok
    intro index _
    rcases hexadecimal.uuids hbTaskIndex index with ⟨number, isNumber⟩
    simp [uuidBucket, pkDigestToHashBucketIndex, isNumber, Functor.map, Except.map,
      Except.toOption]
  · rw [groupByPkHashBucket_eq _ _ hexadecimal.digests noKeys haveColumns, bucketsOf,
      if_neg noKeys]

theorem addToBuckets_partIn [NeZero numBuckets] (hbTaskIndex : ℕ)
    (groups : DeltaFileEnvelopeGroups Value numBuckets) (dfe : DeltaFileEnvelope Value) :
    addToBuckets groups dfe (partIn dfe.table (bucketsOf params numBuckets hbTaskIndex dfe.table)) =
      fun hbIdx => groups hbIdx ++ (fileIn params hbIdx hbTaskIndex dfe).toList := by
  funext hbIdx
  unfold addToBuckets fileIn partIn
  split_ifs with isEmpty
  · simp
  · generalize itemsIn _ hbIdx = items at isEmpty ⊢
    have isNonempty : (!(tableOf dfe.table items).rows.isEmpty) = true := by
      cases items with
      | nil => exact absurd rfl isEmpty
      | cons => rfl
    rw [Option.filter_some, if_pos isNonempty]
    rfl

theorem groupFileRecordsByPkHashBucket_eq (numBuckets : ℕ) [NeZero numBuckets]
    (hexadecimal : params.Hexadecimal) (hbTaskIndex : ℕ) {annotatedDelta : Compactor.DeltaAnnotated}
    {envelopes : Option (List (DeltaFileEnvelope Value))}
    (areRead : readDeltaFileEnvelopes params.read annotatedDelta = .ok envelopes)
    (haveColumns : ∀ dfe ∈ envelopes.getD [], ∀ pkName ∈ params.primaryKeys,
      pkName ∈ dfe.table.columnNames) :
    groupFileRecordsByPkHashBucket params hbTaskIndex annotatedDelta =
      .ok (envelopes.map fun files (hbIdx : Fin numBuckets) =>
        files.filterMap (fileIn params hbIdx hbTaskIndex)) := by
  unfold groupFileRecordsByPkHashBucket
  rw [areRead]
  cases envelopes with
  | none => rfl
  | some files =>
      have visits : ∀ groups : DeltaFileEnvelopeGroups Value numBuckets,
          files.foldlM (fun groups dfe => do
            let hashBucketToTable ← groupByPkHashBucket params.hashing
              (params.uuids hbTaskIndex) params.batches params.primaryKeys dfe.table
            return addToBuckets groups dfe hashBucketToTable) groups =
          (.ok fun hbIdx => groups hbIdx ++ files.filterMap (fileIn params hbIdx hbTaskIndex) :
            Except Error (DeltaFileEnvelopeGroups Value numBuckets)) := by
        clear areRead
        induction files with
        | nil =>
            intro groups
            simp [pure, Except.pure]
        | cons dfe files ih =>
            intro groups
            have isGrouped := groupByPkHashBucket_eq_bucketsOf numBuckets
              hexadecimal hbTaskIndex (haveColumns dfe List.mem_cons_self)
            have restColumns := fun other otherMem =>
              haveColumns other (List.mem_cons_of_mem _ otherMem)
            rw [List.foldlM_cons, isGrouped]
            simp only [bind, Except.bind, pure, Except.pure, addToBuckets_partIn] at ih ⊢
            rw [ih restColumns]
            congr 1
            funext hbIdx
            cases isPart : fileIn params hbIdx hbTaskIndex dfe <;> simp [isPart]
      have visitsAll := visits fun _ => []
      simp only [List.nil_append] at visitsAll
      simp only [bind, Except.bind, pure, Except.pure] at visitsAll ⊢
      rw [visitsAll]
      rfl

/-- The files of the buckets of a group. -/
def ofGroup [NeZero numGroups] (hbGroup : Fin numGroups)
    (objects : DeltaFileEnvelopeGroups Value numBuckets) :
    DeltaFileEnvelopeGroups Value numBuckets := fun hbIdx =>
  if hashBucketIndexToHashGroupIndex hbIdx = hbGroup then objects hbIdx else []

/-- The object of a group has the files of its buckets, and there is none without files. -/
theorem groupHashBucketIndices_eq [NeZero numGroups]
    (objects : DeltaFileEnvelopeGroups Value numBuckets) (hbGroup : Fin numGroups) :
    groupHashBucketIndices (some objects) hbGroup =
      if ∀ hbIdx, ofGroup hbGroup objects hbIdx = [] then none
      else some (ofGroup hbGroup objects) := by
  -- The induction is on the buckets that the loop has visited.
  let within := fun (visited : List (Fin numBuckets)) hbIdx =>
    if hbIdx ∈ visited then ofGroup hbGroup objects hbIdx else []
  have visits : ∀ visited : List (Fin numBuckets),
      visited.foldl (fun hbGroupToObject hbIndex =>
        if objects hbIndex = [] then hbGroupToObject
        else addToGroup hbGroupToObject hbIndex (objects hbIndex)) (fun _ => none) hbGroup =
      if ∀ hbIdx, within visited hbIdx = [] then none else some (within visited) := by
    intro visited
    induction visited using List.reverseRecOn with
    | nil => simp [within]
    | append_singleton visited last ih =>
        rw [List.foldl_concat]
        by_cases isEmpty : objects last = []
        · have sameWithin : within (visited ++ [last]) = within visited := by
            funext hbIdx
            by_cases isLast : hbIdx = last
            · subst isLast
              simp [within, ofGroup, isEmpty]
            · simp [within, isLast]
          rw [if_pos isEmpty, ih, sameWithin]
        · rw [if_neg isEmpty, addToGroup]
          by_cases isGroup : hashBucketIndexToHashGroupIndex last = hbGroup
          · have isUpdate : within (visited ++ [last]) =
                Function.update (within visited) last (objects last) := by
              funext hbIdx
              by_cases isLast : hbIdx = last
              · subst isLast
                simp [within, ofGroup, isGroup]
              · simp [within, isLast]
            have isSome : ¬∀ hbIdx, within (visited ++ [last]) hbIdx = [] := by
              intro allEmpty
              apply isEmpty
              simpa [isUpdate] using allEmpty last
            rw [if_neg isSome, isUpdate, isGroup, Function.update_self, ih]
            congr 2
            split_ifs with allEmpty
            · funext hbIdx
              exact (allEmpty hbIdx).symm
            · rfl
          · have sameWithin : within (visited ++ [last]) = within visited := by
              funext hbIdx
              by_cases isLast : hbIdx = last
              · subst isLast
                simp [within, ofGroup, isGroup]
              · simp [within, isLast]
            rw [Function.update_of_ne (Ne.symm isGroup), ih, sameWithin]
  have isWhole : within (List.finRange numBuckets) = ofGroup hbGroup objects := by
    funext hbIdx
    simp [within]
  have visitsAll := visits (List.finRange numBuckets)
  rw [isWhole] at visitsAll
  exact visitsAll

theorem mem_hashGroupIndexToHashBucketIndices [NeZero numGroups] {hbGroup : Fin numGroups}
    {hbIdx : ℕ} :
    hbIdx ∈ hashGroupIndexToHashBucketIndices hbGroup numBuckets numGroups ↔
      hbIdx < numBuckets ∧ hbIdx % numGroups = hbGroup := by
  have positive := Nat.pos_of_neZero numGroups
  have isLess := hbGroup.isLt
  unfold hashGroupIndexToHashBucketIndices
  split_ifs with isBeyond
  · simp only [List.not_mem_nil, false_iff, not_and]
    intro isBucket isGroup
    have atMost := Nat.mod_le hbIdx numGroups
    omega
  · rw [List.mem_range']
    constructor
    · rintro ⟨step, isStep, rfl⟩
      rw [Nat.lt_div_iff_mul_lt positive] at isStep
      rw [Nat.add_mul_mod_self_left, Nat.mod_eq_of_lt isLess, Nat.mul_comm]
      constructor
      · omega
      · rfl
    · rintro ⟨isBucket, isGroup⟩
      refine ⟨hbIdx / numGroups, ?_, ?_⟩
      · rw [Nat.lt_div_iff_mul_lt positive]
        have division := Nat.div_add_mod hbIdx numGroups
        rw [Nat.mul_comm] at division
        omega
      · rw [← isGroup]
        exact (Nat.mod_add_div hbIdx numGroups).symm

/-- The buckets of a group, in ascending order. -/
theorem hashGroupIndexToHashBucketIndices_eq [NeZero numGroups] (hbGroup : Fin numGroups) :
    hashGroupIndexToHashBucketIndices hbGroup numBuckets numGroups =
      (List.range numBuckets).filter (· % numGroups = hbGroup) := by
  have ascending : (hashGroupIndexToHashBucketIndices hbGroup numBuckets numGroups).Pairwise
      fun left right => left < right := by
    unfold hashGroupIndexToHashBucketIndices
    split_ifs
    · exact List.Pairwise.nil
    · exact List.pairwise_lt_range' numGroups (Nat.pos_of_neZero numGroups)
  have rangeAscending : ((List.range numBuckets).filter (· % numGroups = hbGroup)).Pairwise
      fun left right => left < right :=
    List.pairwise_lt_range.filter _
  refine List.Perm.eq_of_pairwise ?_ ascending rangeAscending ?_
  · intro left right _ _ isBefore isAfter
    omega
  · apply (List.perm_ext_iff_of_nodup (ascending.imp fun isLess => isLess.ne)
      (rangeAscending.imp fun isLess => isLess.ne)).mpr
    intro hbIdx
    rw [mem_hashGroupIndexToHashBucketIndices, List.mem_filter, List.mem_range, decide_eq_true_iff]

theorem hashBucketIndexToHashGroupIndex_eq_iff [NeZero numGroups] {hbIdx : Fin numBuckets}
    {hbGroup : Fin numGroups} :
    hashBucketIndexToHashGroupIndex hbIdx = hbGroup ↔ hbIdx.val % numGroups = hbGroup :=
  Fin.ext_iff

/-- What the object of a group has for a bucket is what its task has for it. -/
theorem elim_groupHashBucketIndices [NeZero numGroups] (hbIdx : Fin numBuckets)
    (hbGroup : Fin numGroups) (groups : Option (DeltaFileEnvelopeGroups Value numBuckets)) :
    (groupHashBucketIndices groups hbGroup).elim [] (· hbIdx) =
      if hbIdx.val % numGroups = hbGroup then groups.elim [] (· hbIdx) else [] := by
  cases groups with
  | none =>
      split_ifs <;> rfl
  | some objects =>
      have isPart : ofGroup hbGroup objects hbIdx =
          if hbIdx.val % numGroups = hbGroup then objects hbIdx else [] := by
        rw [ofGroup]
        simp only [hashBucketIndexToHashGroupIndex_eq_iff]
      rw [groupHashBucketIndices_eq, Option.elim_some, ← isPart]
      by_cases allEmpty : ∀ hbIdx, ofGroup hbGroup objects hbIdx = []
      · rw [if_pos allEmpty]
        exact (allEmpty hbIdx).symm
      · rw [if_neg allEmpty]
        rfl

theorem filter_map_filterMap {Item Object File : Type} {object : Item → Option Object}
    {files : Object → List File} (items : List Item) :
    ((items.filterMap object).map files).filter (fun list => !list.isEmpty) =
      (items.map fun item => (object item).elim [] files).filter fun list => !list.isEmpty := by
  induction items with
  | nil => rfl
  | cons item items ih => cases isObject : object item <;> simp [isObject, ih, List.filter_cons]

theorem filesOfBucket_eq [NeZero numGroups] (hbIdx : Fin numBuckets) (hbGroup : Fin numGroups)
    (taskGroups : List (Option (DeltaFileEnvelopeGroups Value numBuckets))) :
    filesOfBucket (taskGroups.filterMap fun groups => groupHashBucketIndices groups hbGroup)
        hbIdx =
      if hbIdx.val % numGroups = hbGroup then
        (taskGroups.map fun groups => groups.elim [] (· hbIdx)).filter fun dfes => !dfes.isEmpty
      else [] := by
  rw [filesOfBucket, dif_pos hbIdx.isLt, filter_map_filterMap]
  simp only [Fin.eta, elim_groupHashBucketIndices]
  split_ifs
  · rfl
  · simp

/-- Only buckets of a group are in its objects, so that all of them are found. -/
theorem createRemote_eq (numGroups : ℕ) [NeZero numGroups] (hbGroup : Fin numGroups)
    (taskGroups : List (Option (DeltaFileEnvelopeGroups Value numBuckets))) :
    let objects := taskGroups.filterMap fun groups => groupHashBucketIndices groups hbGroup
    createRemote hbGroup objects =
      .ok (((List.range numBuckets).filter (· % numGroups = hbGroup)).map
        (mergeFileGroup objects)) := by
  intro objects
  have allFound : ((List.range numBuckets).filter (· % numGroups = hbGroup)).countP
      (fun hbIdx => filesOfBucket objects hbIdx ≠ []) =
      ((List.range numBuckets).filter fun hbIdx => filesOfBucket objects hbIdx ≠ []).length := by
    rw [List.countP_eq_length_filter, List.filter_filter]
    congr 1
    apply List.filter_congr
    intro hbIdx hbIdxMem
    rw [List.mem_range] at hbIdxMem
    have isFound := filesOfBucket_eq ⟨hbIdx, hbIdxMem⟩ hbGroup taskGroups
    simp only at isFound
    by_cases isGroup : hbIdx % numGroups = hbGroup
    · simp [isGroup]
    · rw [if_neg isGroup] at isFound
      simp [isGroup, objects, isFound]
  unfold createRemote
  rw [hashGroupIndexToHashBucketIndices_eq]
  simp only [allFound, ne_eq, not_true_eq_false, if_false]

theorem flatten_filter_nonempty {File : Type} (lists : List (List File)) :
    (lists.filter fun list => !list.isEmpty).flatten = lists.flatten := by
  induction lists with
  | nil => rfl
  | cons list lists ih => cases list <;> simp [ih]

/-- What the tasks have for each bucket, given the files that they read. -/
def taskGroups (params : BucketingParams Value) (numBuckets : ℕ) [NeZero numBuckets]
    (taskFiles : List (Option (List (DeltaFileEnvelope Value)) × ℕ)) :
    List (Option (DeltaFileEnvelopeGroups Value numBuckets)) :=
  taskFiles.map fun task => task.1.map fun files hbIdx =>
    files.filterMap (fileIn params hbIdx task.2)

/-- What a bucket gets from all tasks. -/
theorem flatten_filesOfBucket [NeZero numBuckets] [NeZero numGroups]
    (taskFiles : List (Option (List (DeltaFileEnvelope Value)))) (hbIdx : Fin numBuckets)
    {hbGroup : Fin numGroups} (isGroup : hbIdx.val % numGroups = hbGroup) :
    (filesOfBucket ((taskGroups params numBuckets taskFiles.zipIdx).filterMap
        fun groups => groupHashBucketIndices groups hbGroup) hbIdx).flatten =
      filesIn params hbIdx (taskFiles.map fun files => files.getD []) := by
  rw [filesOfBucket_eq, if_pos isGroup, flatten_filter_nonempty, taskGroups, List.map_map, filesIn,
    List.zipIdx_map, List.flatMap_map, List.flatMap_def]
  congr 1
  apply List.map_congr_left
  intro task _
  rcases task with ⟨files, hbTaskIndex⟩
  cases files <;> rfl

theorem handsOut_tasks (numGroups : ℕ) [NeZero numBuckets] [NeZero numGroups]
    (taskFiles : List (Option (List (DeltaFileEnvelope Value)))) :
    HandsOut params numBuckets (taskFiles.map fun files => files.getD [])
      ((List.finRange numGroups).map fun hbGroup : Fin numGroups =>
        ((List.range numBuckets).filter (· % numGroups = hbGroup.val)).map (mergeFileGroup
          ((taskGroups params numBuckets taskFiles.zipIdx).filterMap
            fun groups => groupHashBucketIndices groups hbGroup))) := by
  constructor
  · have areBuckets : ((List.range numGroups).flatMap fun hbGroup =>
        (List.range numBuckets).filter (· % numGroups = hbGroup)).Perm (List.range numBuckets) :=
      flatMap_filter_perm fun hbIdx _ => Nat.mod_lt _ (Nat.pos_of_neZero numGroups)
    have isRange : (List.finRange numGroups).map Fin.val = List.range numGroups :=
      List.map_coe_finRange_eq_range
    rw [← List.flatMap_def, List.map_flatMap]
    rw [← isRange, List.flatMap_map] at areBuckets
    simpa [mergeFileGroup, Function.comp_def] using areBuckets
  · intro group groupMem
    rw [← List.flatMap_def] at groupMem
    rcases List.mem_flatMap.mp groupMem with ⟨hbGroup, _, groupMem⟩
    rcases List.mem_map.mp groupMem with ⟨hbIdx, hbIdxMem, rfl⟩
    simp only [List.mem_filter, List.mem_range, decide_eq_true_eq] at hbIdxMem
    rcases hbIdxMem with ⟨isBucket, isGroup⟩
    refine ⟨⟨hbIdx, isBucket⟩, rfl, ?_⟩
    rw [← flatten_filesOfBucket taskFiles ⟨hbIdx, isBucket⟩ isGroup]
    have noneEmpty : ∀ files ∈ filesOfBucket ((taskGroups params numBuckets
        taskFiles.zipIdx).filterMap fun groups => groupHashBucketIndices groups hbGroup) hbIdx,
        files ≠ [] := by
      intro files filesMem
      rw [filesOfBucket, dif_pos isBucket] at filesMem
      simpa using (List.mem_filter.mp filesMem).2
    unfold mergeFileGroup
    simp only
    generalize filesOfBucket _ hbIdx = lists at noneEmpty ⊢
    cases lists with
    | nil => simp
    | cons files lists => simp [noneEmpty files List.mem_cons_self]

/-- Each hash bucket task succeeds if its files can be read and have the primary keys. -/
theorem hashBucket_mapM (numBuckets numGroups : ℕ) [NeZero numBuckets] [NeZero numGroups]
    (hexadecimal : params.Hexadecimal) (start : ℕ)
    {uniformDeltas : List Compactor.DeltaAnnotated}
    {taskFiles : List (Option (List (DeltaFileEnvelope Value)))}
    (areRead : List.Forall₂ (fun delta files =>
      readDeltaFileEnvelopes params.read delta = .ok files) uniformDeltas taskFiles)
    (haveColumns : ∀ files ∈ taskFiles, ∀ dfe ∈ files.getD [], ∀ pkName ∈ params.primaryKeys,
      pkName ∈ dfe.table.columnNames) :
    ((uniformDeltas.zipIdx start).mapM fun delta =>
        hashBucket params numBuckets numGroups delta.2 delta.1) =
      .ok ((taskGroups params numBuckets (taskFiles.zipIdx start)).map groupHashBucketIndices) := by
  induction areRead generalizing start with
  | nil => rfl
  | @cons delta files uniformDeltas taskFiles isRead _ ih =>
      have isGrouped := groupFileRecordsByPkHashBucket_eq numBuckets hexadecimal
        start isRead (haveColumns files List.mem_cons_self)
      have rest := ih (start + 1) fun other otherMem =>
        haveColumns other (List.mem_cons_of_mem _ otherMem)
      rw [List.zipIdx_cons, List.zipIdx_cons, List.mapM_cons, rest, hashBucket, isGrouped]
      rfl

/-- The file groups of each merge task after the files of all deltas were read. -/
theorem mergeFileGroups_eq (numBuckets numGroups : ℕ) [NeZero numBuckets] [NeZero numGroups]
    (hexadecimal : params.Hexadecimal) {uniformDeltas : List Compactor.DeltaAnnotated}
    {taskFiles : List (Option (List (DeltaFileEnvelope Value)))}
    (areRead : uniformDeltas.mapM (readDeltaFileEnvelopes params.read) = .ok taskFiles)
    (haveColumns : ∀ files ∈ taskFiles, ∀ dfe ∈ files.getD [], ∀ pkName ∈ params.primaryKeys,
      pkName ∈ dfe.table.columnNames) :
    mergeFileGroups params numBuckets numGroups uniformDeltas =
      .ok ((List.finRange numGroups).map fun hbGroup : Fin numGroups =>
        ((List.range numBuckets).filter (· % numGroups = hbGroup.val)).map (mergeFileGroup
          ((taskGroups params numBuckets taskFiles.zipIdx).filterMap
            fun groups => groupHashBucketIndices groups hbGroup))) := by
  unfold mergeFileGroups
  rw [hashBucket_mapM numBuckets numGroups hexadecimal 0 (except_mapM_eq_ok_iff.mp areRead)
    haveColumns]
  simp only [bind, Except.bind]
  apply except_mapM_eq_ok
  intro hbGroup _
  rw [List.filterMap_map]
  exact createRemote_eq numGroups hbGroup (taskGroups params numBuckets taskFiles.zipIdx)

/-- Hash bucketing and regrouping neither loses nor duplicates a row. -/
theorem mergeFileGroups_spec (params : BucketingParams Value) (numBuckets numGroups : ℕ)
    [NeZero numBuckets] [NeZero numGroups] (hexadecimal : params.Hexadecimal)
    {uniformDeltas : List Compactor.DeltaAnnotated}
    {taskFiles : List (Option (List (DeltaFileEnvelope Value)))}
    (areRead : uniformDeltas.mapM (readDeltaFileEnvelopes params.read) = .ok taskFiles)
    (haveColumns : ∀ files ∈ taskFiles, ∀ dfe ∈ files.getD [], ∀ pkName ∈ params.primaryKeys,
      pkName ∈ dfe.table.columnNames) :
    ∃ mergeTasks, mergeFileGroups params numBuckets numGroups uniformDeltas = .ok mergeTasks ∧
      mergeTasks.length = numGroups ∧
      HandsOut params numBuckets (taskFiles.map fun files => files.getD []) mergeTasks :=
  ⟨_, mergeFileGroups_eq numBuckets numGroups hexadecimal areRead haveColumns, by simp,
    handsOut_tasks numGroups taskFiles⟩

end Spec

section Examples

/-- The digests of `eu` and `us`; no other strings are hashed here. -/
def regionHashing : KeyHashing String where
  stringCast := id
  sha1 text :=
    if text = "eu" then "608e01334f5575f10813efa40ce0102f2dc0a75e"
    else "da2b128800d4e129def769b7ec5decc00517fa8b"
  nbytes texts := (texts.map String.length).sum
  sha1Disabled := false

/-- All files have a store in each region, and tables are not cut. -/
def regionParams : BucketingParams String where
  read := readsAll (storeTable [(some "eu", some "1"), (some "us", some "2")])
  hashing := regionHashing
  batches := ⟨fun table => [(table.rows.length, 0)], fun _ => by simp⟩
  primaryKeys := ["region"]
  uuids _ _ := "0"

/-- A delta of one file at a stream position. -/
def regionDelta (streamPosition : ℕ) : Compactor.DeltaAnnotated :=
  .of ⟨⟨[], .partitionName none (some "p")⟩, some streamPosition⟩ (some .upsert) none none
    [parquetEntry "file"]

theorem regionParams_hexadecimal : regionParams.Hexadecimal where
  digests text := by
    by_cases isEu : text = "eu"
    · exact ⟨0x608e01334f5575f10813efa40ce0102f2dc0a75e, by
        simp only [regionParams, regionHashing, if_pos isEu]
        decide +kernel⟩
    · exact ⟨0xda2b128800d4e129def769b7ec5decc00517fa8b, by
        simp only [regionParams, regionHashing, if_neg isEu]
        decide +kernel⟩
  uuids _ _ := by
    have isNumber : digestNumber "0" = .ok 0 := by decide +kernel
    exact ⟨0, isNumber⟩

theorem mergeFileGroups_spec_regions :
    ∃ mergeTasks, mergeFileGroups regionParams 2 3 [regionDelta 1, regionDelta 2] =
        .ok mergeTasks ∧
      mergeTasks.length = 3 ∧
      (mergeTasks.flatten.map MergeFileGroup.hbIndex).Perm [0, 1] := by
  let table := storeTable [(some "eu", some "1"), (some "us", some "2")]
  have areRead : [regionDelta 1, regionDelta 2].mapM (readDeltaFileEnvelopes regionParams.read) =
      .ok [some [⟨1, 0, .upsert, table⟩], some [⟨2, 0, .upsert, table⟩]] := rfl
  rcases mergeFileGroups_spec regionParams 2 3 regionParams_hexadecimal areRead (by decide) with
    ⟨mergeTasks, areTasks, threeTasks, handsOut⟩
  exact ⟨mergeTasks, areTasks, threeTasks, handsOut.buckets⟩

end Examples

end Deltacat.Compute.CompactorV2
