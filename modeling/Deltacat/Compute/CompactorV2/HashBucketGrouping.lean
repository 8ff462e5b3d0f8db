import Deltacat.Compute.CompactorV2.KeyStrings
import Deltacat.Library.Procedure
import Deltacat.Library.StableSorting

/-!
# Grouping rows by hash buckets

The rows of a table are distributed over hash buckets by the digests of their keys. The
table is cut into parts of limited size. Each part is sorted by the bucket index and cut
again where the counts of the buckets say so; the pieces of a bucket are concatenated.
However the table is cut, a bucket gets its rows in order (`groupByPkHashBucket_eq`).
-/

namespace Deltacat.Compute.CompactorV2

open Deltacat.Library Deltacat.Utils

section Digests

/-- The value of a hexadecimal digit. -/
def hexDigit (char : Char) : Option ℕ :=
  if '0' ≤ char ∧ char ≤ '9' then some (char.toNat - '0'.toNat)
  else if 'a' ≤ char ∧ char ≤ 'f' then some (char.toNat - 'a'.toNat + 10)
  else if 'A' ≤ char ∧ char ≤ 'F' then some (char.toNat - 'A'.toNat + 10)
  else none

/-- `int(digest, 16)` of a digest, which has neither a sign nor separators. -/
def digestNumber (digest : String) : Except Error ℕ :=
  if digest = "" then .error .valueError
  else
    match digest.toList.mapM hexDigit with
    | none => .error .valueError
    | some digits => .ok (digits.foldl (fun number digit => 16 * number + digit) 0)

def pkDigestToHashBucketIndex (digest : Option String) (numBuckets : ℕ) [NeZero numBuckets] :
    Except Error (Fin numBuckets) :=
  match digest with
  | none => .ok 0
  | some digest => Fin.ofNat numBuckets <$> digestNumber digest

end Digests

section Slices

variable {Item : Type} {numBuckets : ℕ}

/-- Items with the indexes of their buckets. -/
abbrev Indexed (Item : Type) (numBuckets : ℕ) := List (Item × Fin numBuckets)

/-- The tables of each bucket, as lists of their rows. -/
abbrev BucketTables (Item : Type) (numBuckets : ℕ) := Fin numBuckets → List (List Item)

/-- The buckets that occur, in ascending order, with the numbers of their items. -/
def groupCounts (items : Indexed Item numBuckets) : List (Fin numBuckets × ℕ) :=
  ((items.map Prod.snd).dedup.insertionSort (· ≤ ·)).map fun hbIdx =>
    (hbIdx, (items.map Prod.snd).count hbIdx)

/-- The loop of `_append_table_by_hash_bucket` over the groups. -/
def appendSlices (sorted : Indexed Item numBuckets) (tables : BucketTables Item numBuckets)
    (resultLen : ℕ) : List (Fin numBuckets × ℕ) →
      Except Error (BucketTables Item numBuckets × ℕ)
  | [] => .ok (tables, resultLen)
  | (hbIdx, groupCount) :: groups =>
      let slice := (sorted.drop resultLen).take groupCount
      let allBuckets := (slice.map Prod.snd).dedup
      if groupCount ≠ slice.length then .error .assertionError
      else if allBuckets ≠ [hbIdx] then .error .assertionError
      else
        let next := Function.update tables hbIdx (tables hbIdx ++ [slice.map Prod.fst])
        appendSlices sorted next (resultLen + slice.length) groups

/-- `_append_table_by_hash_bucket`. -/
def appendTableByHashBucket (items : Indexed Item numBuckets)
    (tables : BucketTables Item numBuckets) : Except Error (BucketTables Item numBuckets × ℕ) :=
  appendSlices (items.insertionSort fun left right => left.2 ≤ right.2) tables 0
    (groupCounts items)

/-- A record batch with the bytes that it takes. -/
structure RecordBatch (Item : Type) where
  items : List Item
  nbytes : ℕ

/-- `MAX_SIZE_OF_RECORD_BATCH_IN_GIB`, unless the environment sets it. -/
def maxSizeOfRecordBatchInGib : ℕ := 2 * 1024 * 1024 * 1024

/-- What `_optimized_group_record_batches_by_hash_bucket` knows between two batches. -/
structure GroupingState (Item : Type) (numBuckets : ℕ) where
  hashBucketToTables : BucketTables Item numBuckets := fun _ => []
  currentBytes : ℕ := 0
  recordBatches : List (RecordBatch (Item × Fin numBuckets)) := []
  resultLen : ℕ := 0

/-- The record batches that are held back become one table. -/
def GroupingState.flush (state : GroupingState Item numBuckets) :
    Except Error (GroupingState Item numBuckets) := do
  let appended ← appendTableByHashBucket (state.recordBatches.flatMap RecordBatch.items)
    state.hashBucketToTables
  return {
    hashBucketToTables := appended.1
    currentBytes := 0
    recordBatches := []
    resultLen := state.resultLen + appended.2 }

def GroupingState.visit (state : GroupingState Item numBuckets)
    (recordBatch : RecordBatch (Item × Fin numBuckets)) :
    Except Error (GroupingState Item numBuckets) := do
  let state ←
    if state.recordBatches ≠ [] ∧
        maxSizeOfRecordBatchInGib ≤ state.currentBytes + recordBatch.nbytes then state.flush
    else pure state
  return { state with
    currentBytes := state.currentBytes + recordBatch.nbytes
    recordBatches := state.recordBatches ++ [recordBatch] }

/-- `_optimized_group_record_batches_by_hash_bucket`, with the rows of each bucket. -/
def optimizedGroupRecordBatchesByHashBucket
    (tableBatches : List (RecordBatch (Item × Fin numBuckets))) :
    Except Error (Fin numBuckets → Option (List Item)) := do
  let state ← tableBatches.foldlM GroupingState.visit ({} : GroupingState Item numBuckets)
  let state ← if state.recordBatches ≠ [] then state.flush else pure state
  if (tableBatches.flatMap RecordBatch.items).length ≠ state.resultLen then
    throw .assertionError
  else return fun hb =>
    if state.hashBucketToTables hb = [] then none
    else some (state.hashBucketToTables hb).flatten

end Slices

section Tables

variable {Value : Type} {numBuckets : ℕ}

/-- How tables are cut by `to_batches`: the lengths of the batches with their bytes. -/
structure TableBatches (Value : Type) where
  chunks : Table String Value → List (ℕ × ℕ)
  complete : ∀ table, ((chunks table).map Prod.fst).sum = table.rows.length

def cutBatches {Item : Type} : List (ℕ × ℕ) → List Item → List (RecordBatch Item)
  | [], _ => []
  | (length, nbytes) :: chunks, items =>
      ⟨items.take length, nbytes⟩ :: cutBatches chunks (items.drop length)

/-- Some of the rows of a table, as a table. -/
def tableOf (table : Table String Value) (rows : List { row // row ∈ table.rows }) :
    Table String Value where
  columnNames := table.columnNames
  rows := rows.map Subtype.val
  absent row rowMem := by
    rcases List.mem_map.mp rowMem with ⟨member, -, rfl⟩
    exact table.absent member.val member.property

/-- `group_record_indices_by_hash_bucket` of a table with the digests of its rows. -/
def groupRecordIndicesByHashBucket [NeZero numBuckets] (batches : TableBatches Value)
    (table : Table String Value) (digests : List (Option String)) :
    Except Error (Fin numBuckets → Option (Table String Value)) := do
  let hashBuckets ← digests.mapM (pkDigestToHashBucketIndex · numBuckets)
  let rows ← optimizedGroupRecordBatchesByHashBucket
    (cutBatches (batches.chunks table) (table.rows.attach.zip hashBuckets))
  return fun hb => (rows hb).map (tableOf table)

/-- The digests of a table; without primary keys, each row gets a UUID of its own. -/
def hashColumn (hashing : KeyHashing Value) (uuids : ℕ → String) (primaryKeys : List String)
    (table : Table String Value) : Except Error (List (Option String)) :=
  if primaryKeys = [] then .ok ((List.range table.rows.length).map fun index => some (uuids index))
  else do
    let hashOfKey ← generatePkHashColumn hashing [table] primaryKeys true
    return table.rows.map fun row => some (hashOfKey (keyOf primaryKeys row))

def groupByPkHashBucket [NeZero numBuckets] (hashing : KeyHashing Value) (uuids : ℕ → String)
    (batches : TableBatches Value) (primaryKeys : List String) (table : Table String Value) :
    Except Error (Fin numBuckets → Option (Table String Value)) := do
  let digests ← hashColumn hashing uuids primaryKeys table
  groupRecordIndicesByHashBucket batches table digests

end Tables

section SliceSpec

variable {Item : Type} {numBuckets : ℕ}

/-- The items of a bucket. -/
def itemsIn (items : Indexed Item numBuckets) (hbIdx : Fin numBuckets) : List Item :=
  (items.filter (·.2 = hbIdx)).map Prod.fst

@[simp] theorem itemsIn_nil {hbIdx : Fin numBuckets} :
    itemsIn ([] : Indexed Item numBuckets) hbIdx = [] := rfl

@[simp] theorem itemsIn_append {left right : Indexed Item numBuckets} {hbIdx : Fin numBuckets} :
    itemsIn (left ++ right) hbIdx = itemsIn left hbIdx ++ itemsIn right hbIdx := by
  simp [itemsIn]

theorem itemsIn_eq_nil_iff {items : Indexed Item numBuckets} {hbIdx : Fin numBuckets} :
    itemsIn items hbIdx = [] ↔ hbIdx ∉ items.map Prod.snd := by
  rw [itemsIn, List.map_eq_nil_iff, List.filter_eq_nil_iff]
  constructor
  · intro noneIn occurs
    rcases List.mem_map.mp occurs with ⟨item, itemMem, isBucket⟩
    exact noneIn item itemMem (by simpa using isBucket)
  · intro notIn item itemMem isBucket
    exact notIn (List.mem_map.mpr ⟨item, itemMem, by simpa using isBucket⟩)

/-- The slices that are left give the buckets that are left their items. -/
theorem appendSlices_spec {items sorted : Indexed Item numBuckets} {hbIdxs : List (Fin numBuckets)}
    (front : Indexed Item numBuckets) (tables : BucketTables Item numBuckets)
    (isRest : sorted = front ++ hbIdxs.flatMap fun hbIdx => items.filter (·.2 = hbIdx))
    (occurs : ∀ hbIdx ∈ hbIdxs, hbIdx ∈ items.map Prod.snd) (distinct : hbIdxs.Nodup) :
    appendSlices sorted tables front.length
        (hbIdxs.map fun hbIdx => (hbIdx, (items.map Prod.snd).count hbIdx)) =
      .ok (fun hbIdx => tables hbIdx ++ if hbIdx ∈ hbIdxs then [itemsIn items hbIdx] else [],
        sorted.length) := by
  induction hbIdxs generalizing front tables with
  | nil => simp [appendSlices, isRest]
  | cons hbIdx hbIdxs ih =>
      rw [List.nodup_cons] at distinct
      let group := items.filter (·.2 = hbIdx)
      have groupLength : group.length = (items.map Prod.snd).count hbIdx := by
        rw [List.count, List.countP_map, List.countP_eq_length_filter]
        congr 1
      have isSlice : (sorted.drop front.length).take ((items.map Prod.snd).count hbIdx) =
          group := by
        rw [isRest, List.drop_left, List.flatMap_cons, ← groupLength, List.take_left]
      have ofGroup : ∀ item ∈ group, item.2 = hbIdx := by
        intro item itemMem
        simpa using (List.mem_filter.mp itemMem).2
      have allBuckets : (group.map Prod.snd).dedup = [hbIdx] := by
        have isMember : hbIdx ∈ group.map Prod.snd := by
          rcases List.mem_map.mp (occurs hbIdx List.mem_cons_self) with ⟨item, itemMem, isBucket⟩
          exact List.mem_map.mpr
            ⟨item, List.mem_filter.mpr ⟨itemMem, by simpa using isBucket⟩, isBucket⟩
        have isReplicate : group.map Prod.snd =
            List.replicate (group.map Prod.snd).length hbIdx := by
          apply List.eq_replicate_of_mem
          intro other otherMem
          rcases List.mem_map.mp otherMem with ⟨item, itemMem, rfl⟩
          exact ofGroup item itemMem
        rw [isReplicate]
        apply List.replicate_dedup
        rw [ne_eq, List.length_eq_zero_iff]
        exact List.ne_nil_of_mem isMember
      have isNext := ih (front ++ group)
        (Function.update tables hbIdx (tables hbIdx ++ [group.map Prod.fst]))
        (by rw [isRest, List.flatMap_cons, List.append_assoc])
        (fun other otherMem => occurs other (List.mem_cons_of_mem _ otherMem)) distinct.2
      rw [List.map_cons, appendSlices]
      simp only [isSlice, allBuckets, groupLength, ne_eq, not_true_eq_false, if_false]
      rw [List.length_append, groupLength] at isNext
      rw [isNext]
      congr 2
      funext other
      by_cases isBucket : other = hbIdx
      · subst isBucket
        simp [distinct.1, itemsIn, group]
      · simp [isBucket]

/-- Each bucket that occurs gets one table with its items. -/
theorem appendTableByHashBucket_eq (items : Indexed Item numBuckets)
    (tables : BucketTables Item numBuckets) :
    appendTableByHashBucket items tables =
      .ok (fun hbIdx => tables hbIdx ++
        if hbIdx ∈ items.map Prod.snd then [itemsIn items hbIdx] else [], items.length) := by
  let hbIdxs := (items.map Prod.snd).dedup.insertionSort (· ≤ ·)
  have isPerm : hbIdxs.Perm (items.map Prod.snd).dedup := List.perm_insertionSort _ _
  have mem_iff : ∀ hbIdx, hbIdx ∈ hbIdxs ↔ hbIdx ∈ items.map Prod.snd := fun hbIdx => by
    rw [isPerm.mem_iff, List.mem_dedup]
  have distinct : hbIdxs.Nodup := isPerm.nodup_iff.mpr (List.nodup_dedup _)
  have ascending : hbIdxs.Pairwise fun left right => left < right := by
    have isSorted := List.pairwise_insertionSort (· ≤ ·) (items.map Prod.snd).dedup
    exact (isSorted.and distinct).imp fun both => lt_of_le_of_ne both.1 both.2
  have sorted : (items.insertionSort fun left right => left.2 ≤ right.2) =
      hbIdxs.flatMap fun hbIdx => items.filter (·.2 = hbIdx) :=
    insertionSort_eq_flatMap ascending
      fun item itemMem => (mem_iff item.2).mpr (List.mem_map_of_mem itemMem)
  have isAppended := appendSlices_spec [] tables sorted
    (fun hbIdx hbIdxMem => (mem_iff hbIdx).mp hbIdxMem) distinct
  unfold appendTableByHashBucket groupCounts
  simp only [List.length_nil, List.length_insertionSort, mem_iff] at isAppended
  exact isAppended

/-- The items of the record batches that are held back. -/
def GroupingState.pending (state : GroupingState Item numBuckets) : Indexed Item numBuckets :=
  state.recordBatches.flatMap RecordBatch.items

/-- What is visited is held back or in the tables of the buckets, of which none is empty. -/
structure Grouped (visited : Indexed Item numBuckets) (state : GroupingState Item numBuckets) :
    Prop where
  items : ∀ hbIdx, (state.hashBucketToTables hbIdx).flatten ++ itemsIn state.pending hbIdx =
    itemsIn visited hbIdx
  nonempty : ∀ hbIdx, [] ∉ state.hashBucketToTables hbIdx
  length : state.resultLen + state.pending.length = visited.length

variable {visited : Indexed Item numBuckets} {state : GroupingState Item numBuckets}

theorem Grouped.flush (grouped : Grouped visited state) :
    ∃ next, state.flush = .ok next ∧ Grouped visited next ∧ next.recordBatches = [] := by
  refine ⟨_, by rw [GroupingState.flush, appendTableByHashBucket_eq]; rfl, ⟨?_, ?_, ?_⟩, rfl⟩
  · intro hbIdx
    rw [← grouped.items hbIdx]
    change (state.hashBucketToTables hbIdx ++ if hbIdx ∈ state.pending.map Prod.snd then
      [itemsIn state.pending hbIdx] else []).flatten ++ itemsIn [] hbIdx = _
    rw [List.flatten_append, itemsIn_nil, List.append_nil]
    split_ifs with occurs
    · rw [List.flatten_singleton]
    · rw [itemsIn_eq_nil_iff.mpr occurs, List.flatten_nil]
  · intro hbIdx isMem
    rcases List.mem_append.mp isMem with isOld | isNew
    · exact grouped.nonempty hbIdx isOld
    · split_ifs at isNew with isIn
      · rw [List.mem_singleton] at isNew
        exact itemsIn_eq_nil_iff.mp isNew.symm isIn
      · exact List.not_mem_nil isNew
  · simpa [GroupingState.pending] using grouped.length

theorem Grouped.visit (grouped : Grouped visited state)
    (recordBatch : RecordBatch (Item × Fin numBuckets)) :
    ∃ next, state.visit recordBatch = .ok next ∧
      Grouped (visited ++ recordBatch.items) next := by
  have hold : ∀ current, Grouped visited current → Grouped (visited ++ recordBatch.items)
      { current with
        currentBytes := current.currentBytes + recordBatch.nbytes
        recordBatches := current.recordBatches ++ [recordBatch] } := by
    intro current isGrouped
    refine ⟨fun hbIdx => ?_, isGrouped.nonempty, ?_⟩
    · rw [itemsIn_append, ← isGrouped.items hbIdx]
      simp [GroupingState.pending]
    · rw [List.length_append, ← isGrouped.length]
      simp [GroupingState.pending, Nat.add_assoc]
  unfold GroupingState.visit
  split_ifs with isFull
  · rcases grouped.flush with ⟨next, isNext, isGrouped, _⟩
    exact ⟨_, by rw [isNext]; rfl, hold next isGrouped⟩
  · exact ⟨_, rfl, hold state grouped⟩

theorem Grouped.visitAll (grouped : Grouped visited state)
    (tableBatches : List (RecordBatch (Item × Fin numBuckets))) :
    ∃ next, tableBatches.foldlM GroupingState.visit state = .ok next ∧
      Grouped (visited ++ tableBatches.flatMap RecordBatch.items) next := by
  induction tableBatches generalizing visited state with
  | nil => exact ⟨state, rfl, by simpa using grouped⟩
  | cons recordBatch tableBatches ih =>
      rcases grouped.visit recordBatch with ⟨middle, isMiddle, isGrouped⟩
      rcases ih isGrouped with ⟨next, isNext, nextGrouped⟩
      refine ⟨next, ?_, by simpa using nextGrouped⟩
      rw [List.foldlM_cons, isMiddle]
      exact isNext

/-- However large the record batches are, each bucket gets its items in order. -/
theorem optimizedGroupRecordBatchesByHashBucket_eq
    (tableBatches : List (RecordBatch (Item × Fin numBuckets))) :
    optimizedGroupRecordBatchesByHashBucket tableBatches =
      .ok fun hbIdx =>
        if itemsIn (tableBatches.flatMap RecordBatch.items) hbIdx = [] then none
        else some (itemsIn (tableBatches.flatMap RecordBatch.items) hbIdx) := by
  have initial : Grouped [] ({} : GroupingState Item numBuckets) :=
    ⟨fun _ => rfl, fun _ => List.not_mem_nil, rfl⟩
  rcases initial.visitAll tableBatches with ⟨state, isState, grouped⟩
  rw [List.nil_append] at grouped
  have finish : ∀ final, Grouped (tableBatches.flatMap RecordBatch.items) final →
      final.recordBatches = [] →
      (if (tableBatches.flatMap RecordBatch.items).length ≠ final.resultLen then
          throw .assertionError
        else return fun hb =>
          if final.hashBucketToTables hb = [] then none
          else some (final.hashBucketToTables hb).flatten :
        Except Error (Fin numBuckets → Option (List Item))) =
      .ok fun hbIdx =>
        if itemsIn (tableBatches.flatMap RecordBatch.items) hbIdx = [] then none
        else some (itemsIn (tableBatches.flatMap RecordBatch.items) hbIdx) := by
    intro final isGrouped isEmpty
    have nonePending : final.pending = [] := by rw [GroupingState.pending, isEmpty]; rfl
    have isLength := isGrouped.length
    rw [nonePending, List.length_nil, Nat.add_zero] at isLength
    rw [if_neg (not_not.mpr isLength.symm)]
    congr 1
    funext hbIdx
    have areItems := isGrouped.items hbIdx
    rw [nonePending] at areItems
    have areFlat : (final.hashBucketToTables hbIdx).flatten =
        itemsIn (tableBatches.flatMap RecordBatch.items) hbIdx := by
      simpa [itemsIn] using areItems
    have sameEmpty : final.hashBucketToTables hbIdx = [] ↔
        itemsIn (tableBatches.flatMap RecordBatch.items) hbIdx = [] := by
      rw [← areFlat, List.flatten_eq_nil_iff]
      constructor
      · intro noTables
        simp [noTables]
      · intro allEmpty
        apply List.eq_nil_iff_forall_not_mem.mpr
        intro table tableMem
        exact isGrouped.nonempty hbIdx (allEmpty table tableMem ▸ tableMem)
    simp only [sameEmpty, areFlat]
  unfold optimizedGroupRecordBatchesByHashBucket
  rw [isState]
  by_cases isPending : state.recordBatches ≠ []
  · rcases grouped.flush with ⟨final, isFinal, isGrouped, isEmpty⟩
    have finished := finish final isGrouped isEmpty
    simp only [bind, Except.bind, if_pos isPending, isFinal]
    exact finished
  · have finished := finish state grouped (not_not.mp isPending)
    simp only [bind, Except.bind, if_neg isPending]
    exact finished

end SliceSpec

section TableSpec

variable {Value : Type} {numBuckets : ℕ} {table : Table String Value}

theorem cutBatches_flatten {Item : Type} {chunks : List (ℕ × ℕ)} {items : List Item}
    (complete : items.length ≤ (chunks.map Prod.fst).sum) :
    (cutBatches chunks items).flatMap RecordBatch.items = items := by
  induction chunks generalizing items with
  | nil =>
      have isEmpty : items = [] := List.eq_nil_of_length_eq_zero (by simpa using complete)
      simp [isEmpty, cutBatches]
  | cons chunk chunks ih =>
      rcases chunk with ⟨length, nbytes⟩
      rw [cutBatches, List.flatMap_cons, ih, List.take_append_drop]
      simp only [List.map_cons, List.sum_cons] at complete
      rw [List.length_drop]
      omega

/-- The rows of a bucket, given the buckets of all rows. -/
def rowsIn (rows : List (Row String Value)) (hashBuckets : List (Fin numBuckets))
    (hbIdx : Fin numBuckets) : List (Row String Value) :=
  itemsIn (rows.zip hashBuckets) hbIdx

theorem map_val_itemsIn (hashBuckets : List (Fin numBuckets)) (hbIdx : Fin numBuckets) :
    (itemsIn (table.rows.attach.zip hashBuckets) hbIdx).map Subtype.val =
      rowsIn table.rows hashBuckets hbIdx := by
  have isZip : (table.rows.attach.zip hashBuckets).map (Prod.map Subtype.val id) =
      table.rows.zip hashBuckets := by
    rw [← List.zip_map, List.attach_map_subtype_val, List.map_id]
  rw [rowsIn, ← isZip, itemsIn, itemsIn, List.filter_map, List.map_map, List.map_map]
  rfl

theorem rowsIn_map (bucket : Row String Value → Fin numBuckets) (rows : List (Row String Value))
    (hbIdx : Fin numBuckets) :
    rowsIn rows (rows.map bucket) hbIdx = rows.filter (bucket · = hbIdx) := by
  induction rows with
  | nil => rfl
  | cons row rows ih =>
      unfold rowsIn itemsIn at ih ⊢
      rw [List.map_cons, List.zip_cons_cons]
      by_cases isBucket : bucket row = hbIdx <;> simp [isBucket, ih]

/-- The part of a table that is in a bucket, if there are rows in it. -/
def partIn (table : Table String Value) (hashBuckets : List (Fin numBuckets))
    (hbIdx : Fin numBuckets) : Option (Table String Value) :=
  if itemsIn (table.rows.attach.zip hashBuckets) hbIdx = [] then none
  else some (tableOf table (itemsIn (table.rows.attach.zip hashBuckets) hbIdx))

variable [NeZero numBuckets]

theorem groupRecordIndicesByHashBucket_eq (batches : TableBatches Value)
    {digests : List (Option String)} {hashBuckets : List (Fin numBuckets)}
    (areBuckets : digests.mapM (pkDigestToHashBucketIndex · numBuckets) = .ok hashBuckets) :
    groupRecordIndicesByHashBucket batches table digests =
      .ok (partIn table hashBuckets) := by
  have isComplete : (table.rows.attach.zip hashBuckets).length ≤
      ((batches.chunks table).map Prod.fst).sum := by
    rw [batches.complete, List.length_zip, List.length_attach]
    exact min_le_left _ _
  have isFlat := cutBatches_flatten isComplete
  unfold groupRecordIndicesByHashBucket
  rw [areBuckets]
  simp only [bind, Except.bind, optimizedGroupRecordBatchesByHashBucket_eq, isFlat]
  congr 1
  funext hbIdx
  rw [partIn]
  split_ifs <;> rfl

/-- What `pk_digest_to_hash_bucket_index` gives for the key of a row. -/
def hashBucketOf (hashing : KeyHashing Value) (primaryKeys : List String) (numBuckets : ℕ)
    [NeZero numBuckets] (row : Row String Value) : Fin numBuckets :=
  (pkDigestToHashBucketIndex (some (hashing.sha1 (pkHash hashing (keyOf primaryKeys row))))
    numBuckets).toOption.getD 0

/-- Digests are numbers. -/
def HexDigests (hashing : KeyHashing Value) : Prop :=
  ∀ text, ∃ number, digestNumber (hashing.sha1 text) = .ok number

theorem pkDigestToHashBucketIndex_eq {hashing : KeyHashing Value} (hexDigests : HexDigests hashing)
    (primaryKeys : List String) (row : Row String Value) :
    pkDigestToHashBucketIndex (some (hashing.sha1 (pkHash hashing (keyOf primaryKeys row))))
      numBuckets = .ok (hashBucketOf hashing primaryKeys numBuckets row) := by
  rcases hexDigests (pkHash hashing (keyOf primaryKeys row)) with ⟨number, isNumber⟩
  simp [hashBucketOf, pkDigestToHashBucketIndex, isNumber, Functor.map, Except.map,
    Except.toOption]

/-- With primary keys, a bucket gets the rows whose keys belong to it. -/
theorem groupByPkHashBucket_eq {hashing : KeyHashing Value} (uuids : ℕ → String)
    (batches : TableBatches Value) {primaryKeys : List String}
    (hexDigests : HexDigests hashing) (hasKeys : primaryKeys ≠ [])
    (haveColumns : ∀ pkName ∈ primaryKeys, pkName ∈ table.columnNames) :
    groupByPkHashBucket hashing uuids batches primaryKeys table =
      .ok (partIn table (table.rows.map (hashBucketOf hashing primaryKeys numBuckets))) := by
  unfold groupByPkHashBucket hashColumn
  rw [if_neg hasKeys, generatePkHashColumn, if_pos (by simpa using haveColumns)]
  simp only [bind, Except.bind, pure, Except.pure]
  apply groupRecordIndicesByHashBucket_eq
  rw [List.mapM_map]
  apply except_mapM_eq_ok
  intro row _
  exact pkDigestToHashBucketIndex_eq hexDigests primaryKeys row

end TableSpec

end Deltacat.Compute.CompactorV2
