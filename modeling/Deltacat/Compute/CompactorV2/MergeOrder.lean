import Deltacat.Compute.CompactorV2.Merge
import Deltacat.Library.LastGreatest
import Deltacat.Storage.Metafile
import Deltacat.Storage.Schema
import Mathlib.Data.List.SplitBy
import Mathlib.Data.Prod.Lex

/-!
# Merge orders

Of the rows of a key, the one is meant to be kept that is first in the merge order
of the schema, and of tied rows the one written last. A merge task sorts the rows the
other way round and keeps the last row of each key. The null order of a sort key does
not reach Arrow, which places nulls last, so that a null wins over every value, also
where the merge order has nulls last (`mergeOrderDecides_iff`).
-/

namespace Deltacat.Compute.CompactorV2

open Deltacat.Library Deltacat.Storage Deltacat.Utils

section SortKeys

variable {types : ArrowTypes} (readMergeOrder : types.MergeOrder → SortOrder × NullOrder)

/-- `_get_fields_with_merge_order`, with the orders. -/
def fieldsWithMergeOrder (schema : Schema types) : List (String × SortOrder × NullOrder) :=
  schema.fields.filterMap fun field =>
    field.mergeOrder.map fun order => (field.name, readMergeOrder order)

def inverted : SortOrder → SortOrder
  | .ascending => .descending
  | .descending => .ascending

/-- `_create_sort_keys_from_merge_order_fields`. -/
def createSortKeysFromMergeOrderFields (fields : List (String × SortOrder × NullOrder)) :
    List (SortKey String) :=
  fields.map fun (name, desiredSortOrder, nullOrder) => {
    key := some [name]
    sortOrder := inverted desiredSortOrder
    nullOrder := nullOrder
    transform := none }

/-- `_get_event_time_fields`. -/
def eventTimeFields (schema : Schema types) : List String :=
  (schema.fields.filter Field.isEventTime).map Field.name

/-- `_create_sort_keys_from_event_time_fields`. -/
def createSortKeysFromEventTimeFields (names : List String) : List (SortKey String) :=
  names.map fun name => {
    key := some [name]
    sortOrder := .ascending
    nullOrder := .atEnd
    transform := none }

/-- `Schema.merge_order_sort_keys`. -/
def mergeOrderSortKeys (schema : Schema types) : Option (List (SortKey String)) :=
  if fieldsWithMergeOrder readMergeOrder schema ≠ [] then
    some (createSortKeysFromMergeOrderFields (fieldsWithMergeOrder readMergeOrder schema))
  else if eventTimeFields schema ≠ [] then
    some (createSortKeysFromEventTimeFields (eventTimeFields schema))
  else none

/-- `SortKey.arrow`. -/
def sortKeyArrow (sortKey : SortKey String) : List (String × SortOrder) :=
  (sortKey.key.getD []).map fun fieldLocator => (fieldLocator, sortKey.sortOrder)

end SortKeys

section Sorting

variable {Value : Type} [LinearOrder Value]

/-- The first cell is before the second one, or tied with it. -/
def CellPrecedes (sortOrder : SortOrder) (nullOrder : NullOrder) :
    Option Value → Option Value → Prop
  | none, none => True
  | none, some _ => nullOrder = .atStart
  | some _, none => nullOrder = .atEnd
  | some left, some right =>
      match sortOrder with
      | .ascending => left ≤ right
      | .descending => right ≤ left

/-- The first row is before the second one in the order of a field, or tied with it. -/
def FieldPrecedes (field : String × SortOrder × NullOrder) (left right : Row String Value) : Prop :=
  CellPrecedes field.2.1 field.2.2 (left field.1) (right field.1)

/-- The first row is before the second one in the order of the fields, or tied with it. -/
def RowPrecedes (fields : List (String × SortOrder × NullOrder)) :
    Row String Value → Row String Value → Prop :=
  lexicographic (fields.map FieldPrecedes)

instance (sortOrder : SortOrder) (nullOrder : NullOrder) (left right : Option Value) :
    Decidable (CellPrecedes sortOrder nullOrder left right) :=
  match left, right with
  | none, none => isTrue trivial
  | none, some _ => inferInstanceAs (Decidable (nullOrder = .atStart))
  | some _, none => inferInstanceAs (Decidable (nullOrder = .atEnd))
  | some left, some right =>
      match sortOrder with
      | .ascending => inferInstanceAs (Decidable (left ≤ right))
      | .descending => inferInstanceAs (Decidable (right ≤ left))

instance (field : String × SortOrder × NullOrder) :
    DecidableRel (@FieldPrecedes Value _ field) := fun left right =>
  inferInstanceAs (Decidable (CellPrecedes field.2.1 field.2.2 (left field.1) (right field.1)))

instance decidableRowPrecedes : (fields : List (String × SortOrder × NullOrder)) →
    DecidableRel (@RowPrecedes Value _ fields)
  | [] => fun _ _ => isTrue trivial
  | field :: fields => fun left right =>
      have := decidableRowPrecedes fields left right
      inferInstanceAs (Decidable (FieldPrecedes field left right ∧
        (FieldPrecedes field right left → RowPrecedes fields left right)))

/-- The orders of sort keys for Arrow, which places nulls last whatever the direction. -/
def nullsLast (keys : List (String × SortOrder)) : List (String × SortOrder × NullOrder) :=
  keys.map fun (name, sortOrder) => (name, sortOrder, .atEnd)

/-- What is used of `Table.sort_by`: it sorts tables by their columns, and is stable. -/
def SortsTables
    (sortBy : Table String Value → List (String × SortOrder) → Except Error (Table String Value)) :
    Prop :=
  ∀ (table : Table String Value) (keys : List (String × SortOrder)),
    (∀ key ∈ keys, key.1 ∈ table.columnNames) →
      ∃ sorted, sortBy table keys = .ok sorted ∧ sorted.columnNames = table.columnNames ∧
        IsStableSort (RowPrecedes (nullsLast keys)) table.rows sorted.rows

end Sorting

section Merging

variable {Value : Type}

/-- A file of a delta, with the rows of it that are in the hash bucket. -/
structure DeltaFileEnvelope (Value : Type) where
  streamPosition : ℕ
  fileIndex : ℕ
  deltaType : DeltaType
  table : Table String Value

/-- What a merge task is given besides the files of its hash bucket. -/
structure MergeInput (Value : Type) where
  hashing : KeyHashing Value
  /-- `Table.sort_by`. -/
  sortBy : Table String Value → List (String × SortOrder) → Except Error (Table String Value)
  primaryKeys : List String
  sortKeys : Option (List (SortKey String))
  dropDuplicates : Bool
  originalFields : List String
  deleteFileEnvelopes : List (DeltaFileEnvelope Value)
  /-- `delete_strategy.apply_many_deletes`. -/
  applyManyDeletes : Option (Table String Value) → List (DeltaFileEnvelope Value) →
    Except Error (Option (Table String Value))

/-- `_sort_df_envelopes`. -/
def sortDfEnvelopes (envelopes : List (DeltaFileEnvelope Value)) : List (DeltaFileEnvelope Value) :=
  envelopes.insertionSort fun left right =>
    toLex (left.streamPosition, left.fileIndex) ≤ toLex (right.streamPosition, right.fileIndex)

/-- `_build_incremental_table` of files that are no deletes. -/
def buildIncrementalTable (envelopes : List (DeltaFileEnvelope Value)) : Table String Value :=
  Table.concatOrCoerceTables (envelopes.map DeltaFileEnvelope.table)

/-- `_apply_upserts`. -/
def applyUpserts (input : MergeInput Value) (envelopes : List (DeltaFileEnvelope Value))
    (prevTable : Option (Table String Value)) : Except Error (Table String Value) := do
  let table := buildIncrementalTable envelopes
  let sorted ← match input.sortKeys.getD [] with
    | [] => pure table
    | sortKeys => input.sortBy table (sortKeys.flatMap sortKeyArrow)
  mergeTables input.hashing sorted input.primaryKeys input.dropDuplicates input.originalFields
    prevTable

/-- The loop of `_compact_tables` over groups of files of one delta type. -/
def applyGroup (input : MergeInput Value) (table : Option (Table String Value))
    (group : List (DeltaFileEnvelope Value)) : Except Error (Option (Table String Value)) :=
  match group.head?.map DeltaFileEnvelope.deltaType with
  | some .delete => input.applyManyDeletes table group
  | _ => some <$> applyUpserts input group table

/-- `_compact_tables`. -/
def compactTables (input : MergeInput Value) (dfeList : List (List (DeltaFileEnvelope Value)))
    (compactedTable : Option (Table String Value)) : Except Error (Option (Table String Value)) :=
  let reordered := sortDfEnvelopes (input.deleteFileEnvelopes ++ dfeList.flatten)
  (reordered.splitBy fun left right => left.deltaType = right.deltaType).foldlM (applyGroup input)
    compactedTable

end Merging

section Rounds

variable {Value : Type} [LinearOrder Value] {types : ArrowTypes}

/--
The upserts of one hash bucket in a round without previously compacted data. All
deltas are written under a schema with merge keys, so their tables have its columns.
-/
structure UpsertRound (types : ArrowTypes) (Value : Type) [LinearOrder Value] where
  schema : Schema types
  hashing : KeyHashing Value
  sortBy : Table String Value → List (String × SortOrder) → Except Error (Table String Value)
  originalFields : List String
  applyManyDeletes : Option (Table String Value) → List (DeltaFileEnvelope Value) →
    Except Error (Option (Table String Value))
  dfeList : List (List (DeltaFileEnvelope Value))
  sorts : SortsTables sortBy
  hasMergeKeys : ∃ field ∈ schema.fields, field.isMergeKey
  areUpserts : ∀ file ∈ dfeList.flatten, file.deltaType = .upsert
  haveColumns : ∀ file ∈ dfeList.flatten, ∀ field ∈ schema.fields,
    field.name ∈ file.table.columnNames

namespace UpsertRound

variable (round : UpsertRound types Value)
  (readMergeOrder : types.MergeOrder → SortOrder × NullOrder)

def mergeKeys : List String := (round.schema.fields.filter Field.isMergeKey).map Field.name

/-- What the merge task of the hash bucket is given. -/
def input : MergeInput Value where
  hashing := round.hashing
  sortBy := round.sortBy
  primaryKeys := round.mergeKeys
  sortKeys := mergeOrderSortKeys readMergeOrder round.schema
  dropDuplicates := true
  originalFields := round.originalFields
  deleteFileEnvelopes := []
  applyManyDeletes := round.applyManyDeletes

/-- All rows, as they are written. -/
def writtenRows : List (Row String Value) :=
  (sortDfEnvelopes round.dfeList.flatten).flatMap fun file => file.table.rows

def key (row : Row String Value) : List (Option Value) := keyOf round.mergeKeys row

def rowsOf (key : List (Option Value)) : List (Row String Value) :=
  round.writtenRows.filter (round.key · = key)

/-- The fields that rows are compared by, event times in descending order with nulls last. -/
def mergeOrder : List (String × SortOrder × NullOrder) :=
  if fieldsWithMergeOrder readMergeOrder round.schema ≠ [] then
    fieldsWithMergeOrder readMergeOrder round.schema
  else (eventTimeFields round.schema).map fun name => (name, .descending, .atEnd)

end UpsertRound

/-- The row is first in the order of the fields, and tied rows are written before it. -/
def IsFirst (fields : List (String × SortOrder × NullOrder)) (rows : List (Row String Value))
    (row : Row String Value) : Prop :=
  ∃ before after, rows = before ++ row :: after ∧
    (∀ other ∈ before, RowPrecedes fields row other) ∧
    ∀ other ∈ after, ¬RowPrecedes fields other row

/-- For each key that is written, the first row in the merge order is kept, and no other one. -/
def MergeOrderDecides (round : UpsertRound types Value)
    (readMergeOrder : types.MergeOrder → SortOrder × NullOrder) : Prop :=
  ∃ table, compactTables (round.input readMergeOrder) round.dfeList none = .ok table ∧
    ∀ row ∈ round.writtenRows, ∃ kept,
      IsFirst (round.mergeOrder readMergeOrder) (round.rowsOf (round.key row)) kept ∧
        ((table.map Table.rows).getD []).filter (round.key · = round.key row) = [kept]

/--
In no field with nulls last, some but not all of the rows have a null that are
first in the fields before it.
-/
def NullsAgree : List (String × SortOrder × NullOrder) → List (Row String Value) → Prop
  | [], _ => True
  | field :: fields, rows =>
      (field.2.2 = .atEnd →
        (∀ row ∈ rows, row field.1 = none) ∨ ∀ row ∈ rows, row field.1 ≠ none) ∧
      NullsAgree fields (rows.filter fun row => ∀ other ∈ rows, FieldPrecedes field row other)

end Rounds

section Orders

variable {Value : Type} [LinearOrder Value] {fields : List (String × SortOrder × NullOrder)}
  {rows : List (Row String Value)}

theorem isTotalPreorder_cellPrecedes (sortOrder : SortOrder) (nullOrder : NullOrder) :
    IsTotalPreorder (@CellPrecedes Value _ sortOrder nullOrder) := by
  refine ⟨fun left right => ?_, fun {left middle right} leftLe middleLe => ?_⟩
  · cases left with
    | none =>
        cases right with
        | none => exact Or.inl trivial
        | some right =>
            cases nullOrder with
            | atStart => exact Or.inl rfl
            | atEnd => exact Or.inr rfl
    | some left =>
        cases right with
        | none =>
            cases nullOrder with
            | atStart => exact Or.inr rfl
            | atEnd => exact Or.inl rfl
        | some right =>
            cases sortOrder with
            | ascending => exact le_total left right
            | descending => exact le_total right left
  · match left, middle, right, leftLe, middleLe with
    | none, _, none, _, _ => exact trivial
    | none, none, some _, _, isStart => exact isStart
    | none, some _, some _, isStart, _ => exact isStart
    | some _, none, none, isEnd, _ => exact isEnd
    | some _, some _, none, _, isEnd => exact isEnd
    | some _, none, some _, isEnd, isStart => exact absurd (isEnd.symm.trans isStart) nofun
    | some _, some _, some _, leftLe, middleLe =>
        cases sortOrder with
        | ascending => exact le_trans leftLe middleLe
        | descending => exact le_trans middleLe leftLe

theorem isTotalPreorder_fieldPrecedes (field : String × SortOrder × NullOrder) :
    IsTotalPreorder (@FieldPrecedes Value _ field) :=
  ⟨fun _ _ => (isTotalPreorder_cellPrecedes _ _).total _ _,
    fun leftLe middleLe => (isTotalPreorder_cellPrecedes _ _).trans leftLe middleLe⟩

theorem isTotalPreorder_rowPrecedes (fields : List (String × SortOrder × NullOrder)) :
    IsTotalPreorder (@RowPrecedes Value _ fields) := by
  apply isTotalPreorder_lexicographic
  intro related relatedMem
  rcases List.mem_map.mp relatedMem with ⟨field, -, rfl⟩
  exact isTotalPreorder_fieldPrecedes field

/-- The row that is first in the order of the fields, and of tied rows the last one. -/
def firstOf (fields : List (String × SortOrder × NullOrder)) (rows : List (Row String Value)) :
    Option (Row String Value) :=
  lastGreatest (fun left right => RowPrecedes fields right left) rows

theorem isFirst_iff {row : Row String Value} :
    IsFirst fields rows row ↔ firstOf fields rows = some row :=
  (lastGreatest_eq_some_iff (isTotalPreorder_rowPrecedes fields).swap).symm

/-- The rows that are first in the order of a field. -/
def leaders (field : String × SortOrder × NullOrder) (rows : List (Row String Value)) :
    List (Row String Value) :=
  rows.filter fun row => ∀ other ∈ rows, FieldPrecedes field row other

theorem firstOf_eq_lastGreatest (fields : List (String × SortOrder × NullOrder))
    [DecidableRel (lexicographic ((fields.map (@FieldPrecedes Value _)).map Function.swap))]
    (rows : List (Row String Value)) :
    firstOf fields rows =
      lastGreatest (lexicographic ((fields.map FieldPrecedes).map Function.swap)) rows := by
  unfold firstOf
  apply lastGreatest_congr
  intro left right
  exact lexicographic_map_swap.symm

theorem isTotalPreorder_of_mem_swapped (fields : List (String × SortOrder × NullOrder)) :
    ∀ related ∈ (fields.map (@FieldPrecedes Value _)).map Function.swap,
      IsTotalPreorder related := by
  rw [List.map_map]
  intro related relatedMem
  rcases List.mem_map.mp relatedMem with ⟨field, -, rfl⟩
  exact (isTotalPreorder_fieldPrecedes field).swap

theorem firstOf_cons (field : String × SortOrder × NullOrder)
    (fields : List (String × SortOrder × NullOrder)) (rows : List (Row String Value)) :
    firstOf (field :: fields) rows = firstOf fields (leaders field rows) := by
  classical
  rw [firstOf_eq_lastGreatest, firstOf_eq_lastGreatest, List.map_cons, List.map_cons,
    lastGreatest_lexicographic_cons]
  · rfl
  · apply isTotalPreorder_lexicographic
    exact isTotalPreorder_of_mem_swapped (field :: fields)

theorem firstOf_mem {row : Row String Value} (isFirst : firstOf fields rows = some row) :
    row ∈ rows :=
  lastGreatest_mem isFirst

theorem exists_firstOf (fields : List (String × SortOrder × NullOrder)) (nonempty : rows ≠ []) :
    ∃ row, firstOf fields rows = some row := by
  apply Option.ne_none_iff_exists'.mp
  exact fun isNone => nonempty (lastGreatest_eq_none.mp isNone)

theorem leaders_ne_nil (field : String × SortOrder × NullOrder) (nonempty : rows ≠ []) :
    leaders field rows ≠ [] := by
  rcases exists_firstOf [field] nonempty with ⟨row, isFirst⟩
  rw [firstOf_cons] at isFirst
  exact List.ne_nil_of_mem (firstOf_mem isFirst)

/-- The orders with nulls first everywhere, as the sorting has them. -/
def withNullsFirst (fields : List (String × SortOrder × NullOrder)) :
    List (String × SortOrder × NullOrder) :=
  fields.map fun (name, sortOrder, _) => (name, sortOrder, .atStart)

/-- Where no field tells nulls from values, their place makes no difference. -/
theorem leaders_withNullsFirst {name : String} {sortOrder : SortOrder} {nullOrder : NullOrder}
    (agree : nullOrder = .atEnd → (∀ row ∈ rows, row name = none) ∨ ∀ row ∈ rows, row name ≠ none) :
    leaders (name, sortOrder, .atStart) rows = leaders (name, sortOrder, nullOrder) rows := by
  cases nullOrder with
  | atStart => rfl
  | atEnd =>
      apply List.filter_congr
      intro row rowMem
      apply decide_eq_decide.mpr
      apply forall₂_congr
      intro other otherMem
      unfold FieldPrecedes
      rcases agree rfl with areNull | areValues
      · rw [areNull row rowMem, areNull other otherMem]
        exact Iff.rfl
      · rcases Option.ne_none_iff_exists'.mp (areValues row rowMem) with ⟨value, isValue⟩
        rcases Option.ne_none_iff_exists'.mp (areValues other otherMem) with ⟨otherValue, isOther⟩
        simp only [isValue, isOther]
        exact Iff.rfl

/-- With nulls first the leaders have nulls if there are any, and with nulls last values. -/
theorem null_of_mem_leaders {name : String} {sortOrder : SortOrder} {row nullRow : Row String Value}
    (nullMem : nullRow ∈ rows) (isNull : nullRow name = none)
    (rowMem : row ∈ leaders (name, sortOrder, .atStart) rows) : row name = none := by
  have precedes := of_decide_eq_true (List.mem_filter.mp rowMem).2 nullRow nullMem
  unfold FieldPrecedes at precedes
  simp only [isNull] at precedes
  cases isRow : row name with
  | none => rfl
  | some value =>
      rw [isRow] at precedes
      cases precedes

theorem value_of_mem_leaders {name : String} {sortOrder : SortOrder}
    {row valueRow : Row String Value} (valueMem : valueRow ∈ rows) (isValue : valueRow name ≠ none)
    (rowMem : row ∈ leaders (name, sortOrder, .atEnd) rows) : row name ≠ none := by
  have precedes := of_decide_eq_true (List.mem_filter.mp rowMem).2 valueRow valueMem
  unfold FieldPrecedes at precedes
  rcases Option.ne_none_iff_exists'.mp isValue with ⟨value, isValue⟩
  simp only [isValue] at precedes
  intro isNull
  rw [isNull] at precedes
  cases precedes

theorem firstOf_withNullsFirst_iff :
    firstOf (withNullsFirst fields) rows = firstOf fields rows ↔ NullsAgree fields rows := by
  induction fields generalizing rows with
  | nil => exact iff_of_true rfl trivial
  | cons field fields ih =>
      rcases field with ⟨name, sortOrder, nullOrder⟩
      change firstOf ((name, sortOrder, .atStart) :: withNullsFirst fields) rows = _ ↔
        _ ∧ NullsAgree fields (leaders (name, sortOrder, nullOrder) rows)
      rw [firstOf_cons, firstOf_cons, ← ih]
      by_cases agree : nullOrder = .atEnd →
          (∀ row ∈ rows, row name = none) ∨ ∀ row ∈ rows, row name ≠ none
      · rw [leaders_withNullsFirst agree]
        exact (and_iff_right agree).symm
      · refine iff_of_false (fun isSame => ?_) fun both => agree both.1
        push Not at agree
        rcases agree with ⟨rfl, ⟨valueRow, valueMem, isValue⟩, nullRow, nullMem, isNull⟩
        have nonempty := leaders_ne_nil (name, sortOrder, .atStart) (List.ne_nil_of_mem nullMem)
        rcases exists_firstOf (withNullsFirst fields) nonempty with ⟨row, isFirst⟩
        apply value_of_mem_leaders valueMem isValue (firstOf_mem (isSame.symm.trans isFirst))
        exact null_of_mem_leaders nullMem isNull (firstOf_mem isFirst)

theorem cellPrecedes_inverted {sortOrder : SortOrder} {left right : Option Value} :
    CellPrecedes (inverted sortOrder) .atEnd left right ↔
      CellPrecedes sortOrder .atStart right left := by
  cases left with
  | none =>
      cases right with
      | none => exact Iff.rfl
      | some right => exact iff_of_false nofun nofun
  | some left =>
      cases right with
      | none => exact iff_of_true rfl rfl
      | some right =>
          cases sortOrder with
          | ascending => exact Iff.rfl
          | descending => exact Iff.rfl

/-- The orders that rows are sorted by. -/
def sortFields (fields : List (String × SortOrder × NullOrder)) :
    List (String × SortOrder × NullOrder) :=
  nullsLast (fields.map fun (name, sortOrder, _) => (name, inverted sortOrder))

theorem rowPrecedes_sortFields {left right : Row String Value} :
    RowPrecedes (sortFields fields) left right ↔
      RowPrecedes (withNullsFirst fields) right left := by
  induction fields with
  | nil => exact Iff.rfl
  | cons field fields ih =>
      exact and_congr cellPrecedes_inverted (imp_congr cellPrecedes_inverted ih)

/-- The last one of the sorted rows of a key. -/
theorem getLast?_sorted (select : Row String Value → Bool) (rows : List (Row String Value)) :
    ((rows.insertionSort (RowPrecedes (sortFields fields))).filter select).getLast? =
      firstOf (withNullsFirst fields) (rows.filter select) := by
  rw [getLast?_filter_insertionSort (isTotalPreorder_rowPrecedes _)]
  exact lastGreatest_congr (fun _ _ => rowPrecedes_sortFields) _

end Orders

namespace UpsertRound

variable {Value : Type} [LinearOrder Value] {types : ArrowTypes} {round : UpsertRound types Value}
  {readMergeOrder : types.MergeOrder → SortOrder × NullOrder}

theorem arrow_sortKeys (round : UpsertRound types Value) :
    ((mergeOrderSortKeys readMergeOrder round.schema).getD []).flatMap sortKeyArrow =
      (round.mergeOrder readMergeOrder).map fun (name, sortOrder, _) =>
        (name, inverted sortOrder) := by
  unfold mergeOrderSortKeys mergeOrder
  split_ifs with hasOrder hasTime
  · rw [Option.getD_some, createSortKeysFromMergeOrderFields, List.flatMap_map, List.map_eq_flatMap]
    rfl
  · rw [Option.getD_some, createSortKeysFromEventTimeFields, List.flatMap_map, List.map_map,
      List.map_eq_flatMap]
    rfl
  · rw [not_not.mp hasTime]
    rfl

theorem name_of_mem_mergeOrder {field : String × SortOrder × NullOrder}
    (fieldMem : field ∈ round.mergeOrder readMergeOrder) :
    ∃ schemaField ∈ round.schema.fields, schemaField.name = field.1 := by
  unfold mergeOrder at fieldMem
  split_ifs at fieldMem
  · rcases List.mem_filterMap.mp fieldMem with ⟨schemaField, schemaMem, isField⟩
    rcases Option.map_eq_some_iff.mp isField with ⟨_, -, rfl⟩
    exact ⟨schemaField, schemaMem, rfl⟩
  · rcases List.mem_map.mp fieldMem with ⟨_, nameMem, rfl⟩
    rcases List.mem_map.mp nameMem with ⟨schemaField, schemaMem, rfl⟩
    exact ⟨schemaField, List.mem_of_mem_filter schemaMem, rfl⟩

/-- All rows of the round, as a table. -/
def incremental (round : UpsertRound types Value) : Table String Value :=
  buildIncrementalTable (sortDfEnvelopes round.dfeList.flatten)

theorem rows_incremental (round : UpsertRound types Value) :
    round.incremental.rows = round.writtenRows := by
  exact List.flatMap_map _ _ _

theorem mem_columnNames_incremental (hasFiles : round.dfeList.flatten ≠ [])
    {field : Field types} (fieldMem : field ∈ round.schema.fields) :
    field.name ∈ round.incremental.columnNames := by
  rcases List.exists_mem_of_ne_nil _ hasFiles with ⟨file, fileMem⟩
  apply List.mem_dedup.mpr
  apply List.mem_flatMap.mpr
  refine ⟨file.table, List.mem_map_of_mem ?_, round.haveColumns file fileMem field fieldMem⟩
  exact (List.perm_insertionSort _ _).mem_iff.mpr fileMem

/-- The table that is sorted for the merge. -/
def sortedTable (round : UpsertRound types Value)
    (readMergeOrder : types.MergeOrder → SortOrder × NullOrder) : Table String Value where
  columnNames := round.incremental.columnNames
  rows := round.incremental.rows.insertionSort
    (RowPrecedes (sortFields (round.mergeOrder readMergeOrder)))
  absent row rowMem := round.incremental.absent row
    ((List.perm_insertionSort _ round.incremental.rows).mem_iff.mp rowMem)

/-- The string by which the merge compares rows. -/
def keyString (round : UpsertRound types Value)
    (readMergeOrder : types.MergeOrder → SortOrder × NullOrder) (row : Row String Value) : String :=
  hashString round.hashing [round.sortedTable readMergeOrder] round.mergeKeys false (round.key row)

/-- Written rows with one string have one key. -/
def KeysApart (round : UpsertRound types Value)
    (readMergeOrder : types.MergeOrder → SortOrder × NullOrder) : Prop :=
  ∀ left ∈ round.writtenRows, ∀ right ∈ round.writtenRows,
    round.keyString readMergeOrder left = round.keyString readMergeOrder right →
      round.key left = round.key right

omit [LinearOrder Value] in
theorem table_ext {left right : Table String Value}
    (sameColumns : left.columnNames = right.columnNames)
    (sameRows : left.rows = right.rows) : left = right := by
  cases left
  cases right
  cases sameColumns
  cases sameRows
  rfl

theorem sortBy_incremental (hasFiles : round.dfeList.flatten ≠ []) :
    round.sortBy round.incremental ((round.mergeOrder readMergeOrder).map
        fun (name, sortOrder, _) => (name, inverted sortOrder)) =
      .ok (round.sortedTable readMergeOrder) := by
  have haveColumns : ∀ key ∈ (round.mergeOrder readMergeOrder).map
      (fun (name, sortOrder, _) => (name, inverted sortOrder)),
        key.1 ∈ round.incremental.columnNames := by
    intro key keyMem
    rcases List.mem_map.mp keyMem with ⟨field, fieldMem, rfl⟩
    rcases name_of_mem_mergeOrder fieldMem with ⟨schemaField, schemaMem, isName⟩
    exact isName ▸ mem_columnNames_incremental hasFiles schemaMem
  rcases round.sorts round.incremental _ haveColumns with ⟨sorted, isSorted, sameColumns, isSort⟩
  rw [isSorted]
  apply congrArg
  exact table_ext sameColumns (isSort.eq_insertionSort (isTotalPreorder_rowPrecedes _))

/-- Without an order the rows stay as they are. -/
theorem sortedTable_of_nil (noOrder : round.mergeOrder readMergeOrder = []) :
    round.sortedTable readMergeOrder = round.incremental := by
  refine table_ext rfl ?_
  change round.incremental.rows.insertionSort
    (RowPrecedes (sortFields (round.mergeOrder readMergeOrder))) = round.incremental.rows
  rw [noOrder]
  apply List.Pairwise.insertionSort_eq
  exact List.pairwise_of_forall fun _ _ => trivial

theorem mergeTables_sortedTable (hasFiles : round.dfeList.flatten ≠ []) :
    mergeTables round.hashing (round.sortedTable readMergeOrder) round.mergeKeys true
        round.originalFields none =
      .ok (Table.concatOrCoerceTables [CompactorV2.dropDuplicates (round.keyString readMergeOrder)
        (round.sortedTable readMergeOrder)]) := by
  have hasKeys : round.mergeKeys ≠ [] := by
    rcases round.hasMergeKeys with ⟨field, fieldMem, isKey⟩
    exact List.ne_nil_of_mem (List.mem_map_of_mem (List.mem_filter.mpr ⟨fieldMem, isKey⟩))
  have generated : generatePkHashColumn round.hashing [round.sortedTable readMergeOrder]
      round.mergeKeys false = .ok (hashString round.hashing [round.sortedTable readMergeOrder]
        round.mergeKeys false) := by
    apply if_pos
    intro table tableMem name nameMem
    rcases List.mem_map.mp nameMem with ⟨field, fieldMem, rfl⟩
    rw [List.mem_singleton.mp tableMem]
    exact mem_columnNames_incremental hasFiles (List.mem_of_mem_filter fieldMem)
  simp only [mergeTables, Option.filter_none, hasKeys, Option.toList_none, List.nil_append,
    generated, not_true_eq_false, or_self, if_false]
  rfl

theorem applyUpserts_eq (hasFiles : round.dfeList.flatten ≠ []) :
    applyUpserts (round.input readMergeOrder) (sortDfEnvelopes round.dfeList.flatten) none =
      .ok (Table.concatOrCoerceTables [CompactorV2.dropDuplicates (round.keyString readMergeOrder)
        (round.sortedTable readMergeOrder)]) := by
  rw [← mergeTables_sortedTable hasFiles]
  have isArrow := @arrow_sortKeys _ _ _ readMergeOrder round
  unfold applyUpserts
  cases isKeys : (mergeOrderSortKeys readMergeOrder round.schema).getD [] with
  | nil =>
      rw [isKeys] at isArrow
      rw [sortedTable_of_nil (List.map_eq_nil_iff.mp isArrow.symm)]
      simp only [input, isKeys]
      rfl
  | cons sortKey sortKeys =>
      rw [isKeys] at isArrow
      simp only [input, isKeys, isArrow]
      change (round.sortBy round.incremental _ >>= _) = _
      rw [sortBy_incremental hasFiles]
      rfl

theorem compactTables_eq (hasFiles : round.dfeList.flatten ≠ []) :
    compactTables (round.input readMergeOrder) round.dfeList none =
      .ok (some (Table.concatOrCoerceTables [CompactorV2.dropDuplicates
        (round.keyString readMergeOrder) (round.sortedTable readMergeOrder)])) := by
  have areUpserts : ∀ file ∈ sortDfEnvelopes round.dfeList.flatten, file.deltaType = .upsert :=
    fun file fileMem => round.areUpserts file ((List.perm_insertionSort _ _).mem_iff.mp fileMem)
  have nonempty : sortDfEnvelopes round.dfeList.flatten ≠ [] := by
    intro isNil
    have lengths := (List.perm_insertionSort (fun left right : DeltaFileEnvelope Value =>
      toLex (left.streamPosition, left.fileIndex) ≤ toLex (right.streamPosition, right.fileIndex))
      round.dfeList.flatten).length_eq
    unfold sortDfEnvelopes at isNil
    rw [isNil] at lengths
    exact hasFiles (List.length_eq_zero_iff.mp lengths.symm)
  have isChain : (sortDfEnvelopes round.dfeList.flatten).IsChain fun left right =>
      decide (left.deltaType = right.deltaType) = true := by
    apply List.Pairwise.isChain
    apply List.pairwise_of_forall_mem_list
    intro left leftMem right rightMem
    rw [areUpserts left leftMem, areUpserts right rightMem]
    rfl
  have isUpsert : applyGroup (round.input readMergeOrder) none
      (sortDfEnvelopes round.dfeList.flatten) = some <$> applyUpserts (round.input readMergeOrder)
        (sortDfEnvelopes round.dfeList.flatten) none := by
    rcases List.exists_cons_of_ne_nil nonempty with ⟨file, files, isCons⟩
    have isFirst := areUpserts file (isCons ▸ List.mem_cons_self)
    rw [isCons, applyGroup, List.head?_cons, Option.map_some, isFirst]
  change (((sortDfEnvelopes round.dfeList.flatten).splitBy fun left right =>
    decide (left.deltaType = right.deltaType)).foldlM (applyGroup (round.input readMergeOrder))
      none) = _
  rw [List.splitBy_of_isChain nonempty isChain, List.foldlM_cons, isUpsert,
    applyUpserts_eq hasFiles]
  rfl

theorem rows_compacted :
    (Table.concatOrCoerceTables [CompactorV2.dropDuplicates (round.keyString readMergeOrder)
      (round.sortedTable readMergeOrder)]).rows =
        keepLast (round.keyString readMergeOrder) (round.sortedTable readMergeOrder).rows :=
  List.append_nil _

theorem perm_sortedTable :
    (round.sortedTable readMergeOrder).rows.Perm round.writtenRows := by
  rw [← rows_incremental]
  exact List.perm_insertionSort _ _

/-- If the strings tell keys apart, the row that is kept has the orders with nulls first. -/
theorem filter_keepLast_sortedTable (areApart : round.KeysApart readMergeOrder)
    (key : List (Option Value)) :
    (keepLast (round.keyString readMergeOrder)
        (round.sortedTable readMergeOrder).rows).filter (round.key · = key) =
      (firstOf (withNullsFirst (round.mergeOrder readMergeOrder)) (round.rowsOf key)).toList := by
  have sameRows : keepLast (round.keyString readMergeOrder)
      (round.sortedTable readMergeOrder).rows =
        keepLast round.key (round.sortedTable readMergeOrder).rows := by
    apply keepLast_congr
    intro left leftMem right rightMem
    refine ⟨areApart left (perm_sortedTable.mem_iff.mp leftMem) right
      (perm_sortedTable.mem_iff.mp rightMem), fun sameKey => ?_⟩
    rw [keyString, keyString, sameKey]
  rw [sameRows, filter_keepLast, rowsOf, ← rows_incremental, ← getLast?_sorted]
  rfl

/-- If each key that is written has a row, the strings tell keys apart. -/
theorem keysApart_of_kept
    (isKept : ∀ row ∈ round.writtenRows, ∃ kept, round.key kept = round.key row ∧
      kept ∈ keepLast (round.keyString readMergeOrder) (round.sortedTable readMergeOrder).rows) :
    round.KeysApart readMergeOrder := by
  intro left leftMem right rightMem sameString
  rcases isKept left leftMem with ⟨leftKept, isLeft, leftKeptMem⟩
  rcases isKept right rightMem with ⟨rightKept, isRight, rightKeptMem⟩
  have sameKept : round.keyString readMergeOrder leftKept =
      round.keyString readMergeOrder rightKept := by
    rw [keyString, isLeft, keyString, isRight]
    exact sameString
  have isSame := List.inj_on_of_nodup_map nodup_map_keepLast leftKeptMem rightKeptMem sameKept
  rw [← isLeft, isSame, isRight]

theorem rowsOf_ne_nil {row : Row String Value} (rowMem : row ∈ round.writtenRows) :
    round.rowsOf (round.key row) ≠ [] :=
  List.ne_nil_of_mem (List.mem_filter.mpr ⟨rowMem, by simp⟩)

theorem mergeOrderDecides_of_noFiles (noFiles : round.dfeList.flatten = []) :
    MergeOrderDecides round readMergeOrder ∧ round.writtenRows = [] := by
  have noRows : round.writtenRows = [] := by
    unfold writtenRows
    rw [noFiles]
    rfl
  refine ⟨⟨none, ?_, fun row rowMem => ?_⟩, noRows⟩
  · change (((sortDfEnvelopes round.dfeList.flatten).splitBy fun left right =>
      decide (left.deltaType = right.deltaType)).foldlM (applyGroup (round.input readMergeOrder))
        none) = _
    rw [noFiles]
    rfl
  · rw [noRows] at rowMem
    cases rowMem

theorem mergeOrderDecides_iff_kept (hasFiles : round.dfeList.flatten ≠ []) :
    MergeOrderDecides round readMergeOrder ↔
      ∀ row ∈ round.writtenRows, ∃ kept,
        firstOf (round.mergeOrder readMergeOrder) (round.rowsOf (round.key row)) = some kept ∧
          (keepLast (round.keyString readMergeOrder)
            (round.sortedTable readMergeOrder).rows).filter (round.key · = round.key row) =
              [kept] := by
  unfold MergeOrderDecides
  simp only [compactTables_eq hasFiles, Except.ok.injEq, exists_eq_left', Option.map_some,
    Option.getD_some, rows_compacted, isFirst_iff]

theorem nullsAgree_of_kept (decides : ∀ row ∈ round.writtenRows, ∃ kept,
    firstOf (round.mergeOrder readMergeOrder) (round.rowsOf (round.key row)) = some kept ∧
      (keepLast (round.keyString readMergeOrder)
        (round.sortedTable readMergeOrder).rows).filter (round.key · = round.key row) = [kept]) :
    round.KeysApart readMergeOrder ∧ ∀ row ∈ round.writtenRows,
      NullsAgree (round.mergeOrder readMergeOrder) (round.rowsOf (round.key row)) := by
  have areApart : round.KeysApart readMergeOrder := by
    apply keysApart_of_kept
    intro row rowMem
    rcases decides row rowMem with ⟨kept, -, isKept⟩
    have keptMem : kept ∈ [kept] := List.mem_singleton_self kept
    rw [← isKept, List.mem_filter, decide_eq_true_eq] at keptMem
    exact ⟨kept, keptMem.2, keptMem.1⟩
  refine ⟨areApart, fun row rowMem => ?_⟩
  rcases decides row rowMem with ⟨kept, isFirst, isKept⟩
  rw [filter_keepLast_sortedTable areApart, Option.toList_eq_singleton_iff] at isKept
  exact firstOf_withNullsFirst_iff.mp (isKept.trans isFirst.symm)

end UpsertRound

/--
The merge order decides exactly if the key strings tell the keys apart and no key has
rows that a null in a field with nulls last decides between.
-/
theorem mergeOrderDecides_iff {Value : Type} [LinearOrder Value] {types : ArrowTypes}
    (round : UpsertRound types Value)
    (readMergeOrder : types.MergeOrder → SortOrder × NullOrder) :
    MergeOrderDecides round readMergeOrder ↔
      round.KeysApart readMergeOrder ∧ ∀ row ∈ round.writtenRows,
        NullsAgree (round.mergeOrder readMergeOrder) (round.rowsOf (round.key row)) := by
  by_cases hasFiles : round.dfeList.flatten = []
  · rcases UpsertRound.mergeOrderDecides_of_noFiles hasFiles with ⟨decides, noRows⟩
    refine iff_of_true decides ⟨fun left leftMem => ?_, fun row rowMem => ?_⟩
    · rw [noRows] at leftMem
      cases leftMem
    · rw [noRows] at rowMem
      cases rowMem
  · rw [UpsertRound.mergeOrderDecides_iff_kept hasFiles]
    refine ⟨UpsertRound.nullsAgree_of_kept, ?_⟩
    rintro ⟨areApart, agree⟩ row rowMem
    rcases exists_firstOf (round.mergeOrder readMergeOrder)
      (UpsertRound.rowsOf_ne_nil rowMem) with ⟨kept, isFirst⟩
    refine ⟨kept, isFirst, ?_⟩
    rw [UpsertRound.filter_keepLast_sortedTable areApart,
      firstOf_withNullsFirst_iff.mpr (agree row rowMem), isFirst, Option.toList_some]

/-- Types of which only the orders of fields matter. -/
def orderTypes : ArrowTypes where
  DataType := Unit
  Default := Unit
  MergeOrder := SortOrder × NullOrder
  isPrimitive _ := true
  isString _ := false
  isFloating _ := false
  isInteger _ := true
  isDate _ := false
  hasScalar _ _ := true
  isCompatible _ _ := true
  lower text := text

/-- Tables are sorted by insertion. -/
def insertionSortBy {Value : Type} [LinearOrder Value] (table : Table String Value)
    (keys : List (String × SortOrder)) : Except Error (Table String Value) :=
  if ∀ key ∈ keys, key.1 ∈ table.columnNames then
    .ok {
      columnNames := table.columnNames
      rows := table.rows.insertionSort (RowPrecedes (nullsLast keys))
      absent := fun row rowMem =>
        table.absent row ((List.perm_insertionSort _ table.rows).mem_iff.mp rowMem) }
  else .error .arrowInvalid

theorem sortsTables_insertionSortBy {Value : Type} [LinearOrder Value] :
    SortsTables (@insertionSortBy Value _) :=
  fun _ _ haveColumns => ⟨_, if_pos haveColumns, rfl,
    isStableSort_insertionSort (isTotalPreorder_rowPrecedes _) _⟩

def orderField (name : String) (isMergeKey : Bool) (mergeOrder : Option (SortOrder × NullOrder)) :
    Field orderTypes where
  name := name
  type := ()
  nullable := true
  id := none
  isMergeKey := isMergeKey
  mergeOrder := mergeOrder
  isEventTime := false
  doc := none
  pastDefault := none
  futureDefault := none
  consistencyType := some .validate

def versionedRow (version : Option ℕ) : Row String ℕ := fun column =>
  if column = "id" then some 1 else if column = "version" then version else none

/-- A file with one row for the key 1. -/
def versionFile (streamPosition : ℕ) (version : Option ℕ) : DeltaFileEnvelope ℕ where
  streamPosition := streamPosition
  fileIndex := 0
  deltaType := .upsert
  table := {
    columnNames := ["id", "version"]
    rows := [versionedRow version]
    absent := by
      simp only [List.mem_cons, List.not_mem_nil, or_false, not_or]
      rintro _ rfl column ⟨notId, notVersion⟩
      simp [versionedRow, notId, notVersion] }

/-- Versions in descending order with nulls last: version 7 is written, then a null. -/
def versionRound : UpsertRound orderTypes ℕ where
  schema := {
    fields := [orderField "id" true none, orderField "version" false (some (.descending, .atEnd))]
    maxFieldId := 1
    id := 0 }
  hashing := {
    stringCast := toString
    sha1 := id
    nbytes := fun _ => 0
    sha1Disabled := true }
  sortBy := insertionSortBy
  originalFields := ["id", "version"]
  applyManyDeletes table _ := .ok table
  dfeList := [[versionFile 1 (some 7)], [versionFile 2 none]]
  sorts := sortsTables_insertionSortBy
  hasMergeKeys := ⟨_, List.mem_cons_self, rfl⟩
  areUpserts := by
    intro file fileMem
    simp only [List.flatten_cons, List.flatten_nil, List.append_nil, List.cons_append,
      List.nil_append, List.mem_cons, List.not_mem_nil, or_false] at fileMem
    rcases fileMem with rfl | rfl
    · rfl
    · rfl
  haveColumns := by
    intro file fileMem field fieldMem
    simp only [List.flatten_cons, List.flatten_nil, List.append_nil, List.cons_append,
      List.nil_append, List.mem_cons, List.not_mem_nil, or_false] at fileMem fieldMem
    rcases fileMem with rfl | rfl
    all_goals
      rcases fieldMem with rfl | rfl
      all_goals decide

/-- The null is kept, although it is last in the merge order. -/
theorem not_mergeOrderDecides_null : ¬MergeOrderDecides versionRound id := by
  intro decides
  have hasFiles : versionRound.dfeList.flatten ≠ [] := List.cons_ne_nil _ _
  have kept := (UpsertRound.mergeOrderDecides_iff_kept hasFiles).mp decides
  have areWritten : versionRound.writtenRows = [versionedRow (some 7), versionedRow none] := rfl
  have areRows : versionRound.rowsOf (versionRound.key (versionedRow none)) =
      [versionedRow (some 7), versionedRow none] := rfl
  have agree := (UpsertRound.nullsAgree_of_kept kept).2 (versionedRow none)
    (by rw [areWritten]; simp)
  rw [areRows] at agree
  rcases agree.1 rfl with areNull | areValues
  · exact absurd (areNull _ List.mem_cons_self) (by decide)
  · exact areValues (versionedRow none) (by simp) rfl

end Deltacat.Compute.CompactorV2
