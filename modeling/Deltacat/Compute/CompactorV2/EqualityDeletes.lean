import Deltacat.Library.Procedure
import Deltacat.Utils.Pyarrow

/-!
# Equality deletes

A delete file lists rows, and deletes the rows of a table that agree with one of them
in its delete columns. `EqualityDeleteStrategy` leaves out the delete columns that the
table does not have. It compares the remaining ones by a join, or, where there are
nulls, by their texts with a sentinel in the place of a null. Both ways leave the rows
that no delete file matches (`applyManyDeletes_spec`).
-/

namespace Deltacat.Compute.CompactorV2

open Deltacat.Library Deltacat.Utils

/-- `_NULL_SENTINEL_VALUE`. -/
def nullSentinelValue : String := "4000f124-dfbd-48c6-885b-7b22621a6d41_null_sentinel"

/-- `_ORDERED_RECORD_IDX_COLUMN_NAME`. -/
def orderedRecordIdxColumnName : String := "4000f124-dfbd-48c6-885b-7b22621a6d41_record_index"

/--
What is used of PyArrow to match rows. Whether a column can be cast and whether tables
can be joined depends on their types, which they keep when rows are taken away. The
order of the rows of a join is not specified.
-/
structure ArrowJoins (Value : Type) where
  castsToString : Table String Value → String → Bool
  stringCast : Value → String
  joins : Table String Value → Table String Value → List String → Bool
  arrange : {Item : Type} → List Item → List Item
  arrange_perm : ∀ {Item : Type} (items : List Item), (arrange items).Perm items
  casts_subset : ∀ {table other : Table String Value} {column : String},
    other.columnNames = table.columnNames → other.rows ⊆ table.rows →
      castsToString table column → castsToString other column
  joins_subset : ∀ {table other deleteTable : Table String Value} {columns : List String},
    other.columnNames = table.columnNames → other.rows ⊆ table.rows →
      joins table deleteTable columns → joins other deleteTable columns

/-- `DeleteFileEnvelope`; its table may not be a reference to an object store. -/
structure DeleteFileEnvelope (Value : Type) where
  streamPosition : ℕ
  table : Table String Value
  deleteColumns : List String
  isReference : Bool
  hasColumns : deleteColumns ≠ []

section Strategy

variable {Value : Type} [DecidableEq Value] (arrow : ArrowJoins Value)

/-- `table.take`. -/
def takeRows (table : Table String Value) (indices : List ℕ) : Table String Value where
  columnNames := table.columnNames
  rows := indices.filterMap (table.rows[·]?)
  absent row rowMem := by
    rcases List.mem_filterMap.mp rowMem with ⟨index, _, isRow⟩
    exact table.absent row (List.mem_of_getElem? isRow)

/-- The cells of a row as strings, with the sentinel for a null. -/
def columnTexts (columns : List String) (row : Row String Value) : List String :=
  columns.map fun column => ((row column).map arrow.stringCast).getD nullSentinelValue

/-- The columns that `_coerce_keys_for_null_safe_join` makes, row by row. -/
def coerceKeysForNullSafeJoin (table : Table String Value) (columns : List String) :
    Except Error (Row String Value → List String) :=
  if ∀ column ∈ columns, arrow.castsToString table column then .ok (columnTexts arrow columns)
  else .error .notImplementedError

/-- `has_nulls`; a column of the null type has nulls, for the tables are not empty. -/
def hasNulls (table deleteTable : Table String Value) : List String → Except Error Bool
  | [] => .ok false
  | column :: columns =>
      if column ∉ deleteTable.columnNames then .error .keyError
      else if none ∈ table.column column ∨ none ∈ deleteTable.column column then .ok true
      else hasNulls table deleteTable columns

/-- The null-safe path of `_drop_rows`. -/
def nullSafeAntiJoin (table deleteTable : Table String Value) (columns : List String) :
    Except Error (Table String Value) := do
  if ¬(columns ++ [orderedRecordIdxColumnName]).Nodup ∨
      orderedRecordIdxColumnName ∈ table.columnNames then
    throw .keyError
  else
    let tableKeys ← coerceKeysForNullSafeJoin arrow table columns
    if ∃ column ∈ columns, column ∉ deleteTable.columnNames then throw .keyError
    else
      let keysToDelete ← coerceKeysForNullSafeJoin arrow deleteTable columns
      let deleteKeys := (deleteTable.rows.map keysToDelete).dedup
      let surviving := arrow.arrange (table.rows.zipIdx.filter fun row =>
        !deleteKeys.contains (tableKeys row.1))
      return takeRows table (surviving.map Prod.snd)

/-- The other path, where no key is null. -/
def plainAntiJoin (table deleteTable : Table String Value) (columns : List String) :
    Except Error (Table String Value) :=
  let deleteKeys := (deleteTable.rows.map fun row => columns.map row).dedup
  if columns.Nodup ∧ arrow.joins table deleteTable columns then
    .ok {
      columnNames := table.columnNames
      rows := arrow.arrange (table.rows.filter fun row => columns.map row ∉ deleteKeys)
      absent := fun row rowMem => table.absent row
        (List.mem_of_mem_filter ((arrow.arrange_perm _).subset rowMem)) }
  else .error .arrowInvalid

/-- The part of `_drop_rows` that chooses between the paths. -/
def antiJoin (table deleteTable : Table String Value) (columns : List String) :
    Except Error (Table String Value) := do
  if ← hasNulls table deleteTable columns then nullSafeAntiJoin arrow table deleteTable columns
  else plainAntiJoin arrow table deleteTable columns

/-- The delete columns that the table has. -/
def validColumns (columnNames deleteColumnNames : List String) : List String :=
  deleteColumnNames.filter (· ∈ columnNames)

/-- `_drop_rows`. -/
def dropRows (table deleteTable : Table String Value) (deleteColumnNames : List String) :
    Except Error (Table String Value × ℕ) :=
  if validColumns table.columnNames deleteColumnNames = [] then .ok (table, 0)
  else do
    let remaining ←
      antiJoin arrow table deleteTable (validColumns table.columnNames deleteColumnNames)
    return (remaining, table.rows.length - remaining.rows.length)

/-- `apply_deletes` for a table; a table without rows counts as none. -/
def applyDeletes (table : Table String Value) (envelope : DeleteFileEnvelope Value) :
    Except Error (Table String Value × ℕ) :=
  if table.rows = [] ∨ envelope.table.rows = [] then .ok (table, 0)
  else dropRows arrow table envelope.table envelope.deleteColumns

/-- The loop of `apply_many_deletes`. -/
def applyEach : Table String Value → ℕ → List (DeleteFileEnvelope Value) →
    Except Error (Table String Value × ℕ)
  | table, totalDroppedRows, [] => .ok (table, totalDroppedRows)
  | table, totalDroppedRows, envelope :: envelopes =>
      if ¬envelope.isReference then applyEach table totalDroppedRows envelopes
      else do
        let (remaining, numberOfRowsDropped) ← applyDeletes arrow table envelope
        applyEach remaining (totalDroppedRows + numberOfRowsDropped) envelopes

/-- `apply_many_deletes`. -/
def applyManyDeletes (table : Option (Table String Value))
    (envelopes : List (DeleteFileEnvelope Value)) :
    Except Error (Option (Table String Value) × ℕ) :=
  match table with
  | none => .ok (none, 0)
  | some table =>
      if table.rows = [] then .ok (some table, 0)
      else do
        let (remaining, totalDroppedRows) ← applyEach arrow table 0 envelopes
        return (some remaining, totalDroppedRows)

end Strategy

section Matching

variable {Value : Type} [DecidableEq Value]

/-- The row agrees with one of the others in the given columns. -/
def AgreesWith (others : List (Row String Value)) (columns : List String)
    (row : Row String Value) : Prop :=
  ∃ other ∈ others, ∀ column ∈ columns, row column = other column

instance (others : List (Row String Value)) (columns : List String) :
    DecidablePred (AgreesWith others columns) := fun row =>
  inferInstanceAs (Decidable (∃ other ∈ others, ∀ column ∈ columns, row column = other column))

/-- The row agrees with a row of the delete file in the delete columns that its table has. -/
def DeleteFileEnvelope.Deletes (envelope : DeleteFileEnvelope Value) (columnNames : List String)
    (row : Row String Value) : Prop :=
  envelope.isReference ∧ validColumns columnNames envelope.deleteColumns ≠ [] ∧
    AgreesWith envelope.table.rows (validColumns columnNames envelope.deleteColumns) row

instance (envelope : DeleteFileEnvelope Value) (columnNames : List String) :
    DecidablePred (envelope.Deletes columnNames) := fun row =>
  inferInstanceAs (Decidable (envelope.isReference ∧
    validColumns columnNames envelope.deleteColumns ≠ [] ∧
    AgreesWith envelope.table.rows (validColumns columnNames envelope.deleteColumns) row))

/-- The cells of a column can be told apart by their texts, and from a null. -/
structure TextsApart (arrow : ArrowJoins Value) (rows : List (Row String Value))
    (column : String) : Prop where
  injective : ∀ left ∈ rows, ∀ right ∈ rows, ∀ leftValue ∈ left column,
    ∀ rightValue ∈ right column,
      arrow.stringCast leftValue = arrow.stringCast rightValue → leftValue = rightValue
  noSentinel : ∀ row ∈ rows, ∀ value ∈ row column, arrow.stringCast value ≠ nullSentinelValue

/-- PyArrow can match the rows of the table with those of the delete file. -/
structure CanDrop (arrow : ArrowJoins Value) (table : Table String Value)
    (envelope : DeleteFileEnvelope Value) : Prop where
  haveColumns : validColumns table.columnNames envelope.deleteColumns ⊆ envelope.table.columnNames
  distinct : (validColumns table.columnNames envelope.deleteColumns).Nodup
  noIndex : orderedRecordIdxColumnName ∉ table.columnNames
  casts : ∀ column ∈ validColumns table.columnNames envelope.deleteColumns,
    arrow.castsToString table column ∧ arrow.castsToString envelope.table column
  joins : arrow.joins table envelope.table (validColumns table.columnNames envelope.deleteColumns)

end Matching

section Spec

variable {Value : Type} {arrow : ArrowJoins Value}
  {table remaining deleteTable : Table String Value} {columns : List String}

theorem takeRows_perm (select : Row String Value → Bool) :
    (takeRows table ((arrow.arrange (table.rows.zipIdx.filter fun row =>
      select row.1)).map Prod.snd)).rows.Perm (table.rows.filter select) := by
  let selected := table.rows.zipIdx.filter fun row => select row.1
  have isRow : ∀ row ∈ selected, table.rows[row.2]? = some row.1 := by
    intro row rowMem
    exact List.mem_zipIdx_iff_getElem?.mp (List.mem_of_mem_filter rowMem)
  have taken : (selected.map Prod.snd).filterMap (table.rows[·]?) = table.rows.filter select := by
    calc (selected.map Prod.snd).filterMap (table.rows[·]?)
        = selected.filterMap fun row => table.rows[row.2]? := List.filterMap_map
      _ = selected.filterMap fun row => some row.1 := List.filterMap_congr isRow
      _ = selected.map Prod.fst := congrFun List.filterMap_eq_map selected
      _ = table.rows.filter select := by
        rw [show selected = table.rows.zipIdx.filter (select ∘ Prod.fst) from rfl,
          ← List.filter_map, List.zipIdx_map_fst]
  rw [← taken]
  exact ((arrow.arrange_perm selected).map Prod.snd).filterMap _

/-- Texts are equal where cells are. -/
theorem keyText_eq_iff {rows : List (Row String Value)} {column : String}
    (apart : TextsApart arrow rows column) {left right : Row String Value}
    (leftMem : left ∈ rows) (rightMem : right ∈ rows) :
    ((left column).map arrow.stringCast).getD nullSentinelValue =
        ((right column).map arrow.stringCast).getD nullSentinelValue ↔
      left column = right column := by
  constructor
  · intro same
    cases leftCell : left column with
    | none =>
        cases rightCell : right column with
        | none => rfl
        | some rightValue =>
            simp only [leftCell, rightCell, Option.map_none, Option.map_some, Option.getD_none,
              Option.getD_some] at same
            exact absurd same.symm (apart.noSentinel right rightMem rightValue rightCell)
    | some leftValue =>
        cases rightCell : right column with
        | none =>
            simp only [leftCell, rightCell, Option.map_none, Option.map_some, Option.getD_none,
              Option.getD_some] at same
            exact absurd same (apart.noSentinel left leftMem leftValue leftCell)
        | some rightValue =>
            simp only [leftCell, rightCell, Option.map_some, Option.getD_some] at same
            exact congrArg some
              (apart.injective left leftMem right rightMem leftValue leftCell rightValue
                rightCell same)
  · intro same
    rw [same]

theorem mem_keys_iff [DecidableEq Value] {others : List (Row String Value)}
    {row : Row String Value} :
    columns.map row ∈ (others.map fun other => columns.map other).dedup ↔
      AgreesWith others columns row := by
  rw [List.mem_dedup, List.mem_map]
  apply exists_congr
  intro other
  rw [List.map_inj_left]
  apply and_congr_right
  intro _
  exact ⟨fun same column columnMem => (same column columnMem).symm,
    fun same column columnMem => (same column columnMem).symm⟩

/-- Comparing texts finds the rows that agree. -/
theorem mem_columnTexts_iff [DecidableEq Value]
    (apart : ∀ column ∈ columns, TextsApart arrow (table.rows ++ deleteTable.rows) column)
    {row : Row String Value} (rowMem : row ∈ table.rows) :
    columnTexts arrow columns row ∈ (deleteTable.rows.map (columnTexts arrow columns)).dedup ↔
      AgreesWith deleteTable.rows columns row := by
  rw [List.mem_dedup, List.mem_map]
  apply exists_congr
  intro other
  apply and_congr_right
  intro otherMem
  rw [columnTexts, columnTexts, List.map_inj_left]
  apply forall_congr'
  intro column
  apply forall_congr'
  intro columnMem
  rw [keyText_eq_iff (apart column columnMem) (List.mem_append_right _ otherMem)
    (List.mem_append_left _ rowMem)]
  exact eq_comm

/-- What a path of `_drop_rows` leaves. -/
structure LeavesOthers (table deleteTable : Table String Value) (columns : List String)
    (remaining : Table String Value) [DecidableEq Value] : Prop where
  columnNames : remaining.columnNames = table.columnNames
  rows : remaining.rows.Perm
    (table.rows.filter fun row => ¬AgreesWith deleteTable.rows columns row)

variable [DecidableEq Value]

omit [DecidableEq Value] in
/-- The null-safe path leaves the rows whose texts no row of the delete file has. -/
theorem nullSafeAntiJoin_eq_ok
    (returns : nullSafeAntiJoin arrow table deleteTable columns = .ok remaining) :
    remaining.columnNames = table.columnNames ∧
      remaining.rows.Perm (table.rows.filter fun row =>
        columnTexts arrow columns row ∉ deleteTable.rows.map (columnTexts arrow columns)) := by
  simp only [nullSafeAntiJoin, coerceKeysForNullSafeJoin, bind, Except.bind, pure, Except.pure,
    throw, throwThe, MonadExceptOf.throw] at returns
  split_ifs at returns with noIndex casts haveColumns deleteCasts
  simp only [Except.ok.injEq] at returns
  subst returns
  refine ⟨rfl, (takeRows_perm fun row => !(deleteTable.rows.map
    (columnTexts arrow columns)).dedup.contains (columnTexts arrow columns row)).trans ?_⟩
  apply List.Perm.of_eq
  apply List.filter_congr
  intro row _
  simp only [List.contains_eq_mem, List.mem_dedup, decide_not]

theorem nullSafeAntiJoin_leaves
    (apart : ∀ column ∈ columns, TextsApart arrow (table.rows ++ deleteTable.rows) column)
    (returns : nullSafeAntiJoin arrow table deleteTable columns = .ok remaining) :
    LeavesOthers table deleteTable columns remaining := by
  rcases nullSafeAntiJoin_eq_ok returns with ⟨sameColumns, isLeft⟩
  refine ⟨sameColumns, isLeft.trans (List.Perm.of_eq ?_)⟩
  apply List.filter_congr
  intro row rowMem
  rw [Bool.eq_iff_iff]
  simpa using (mem_columnTexts_iff apart rowMem).not

theorem plainAntiJoin_leaves
    (returns : plainAntiJoin arrow table deleteTable columns = .ok remaining) :
    LeavesOthers table deleteTable columns remaining := by
  simp only [plainAntiJoin] at returns
  split_ifs at returns with joins
  simp only [Except.ok.injEq] at returns
  subst returns
  refine ⟨rfl, (arrow.arrange_perm _).trans (List.Perm.of_eq ?_)⟩
  apply List.filter_congr
  intro row _
  rw [Bool.eq_iff_iff]
  have isKey : columns.map row ∈
      (deleteTable.rows.map fun other => columns.map other).dedup ↔
        AgreesWith deleteTable.rows columns row := mem_keys_iff
  simpa using isKey.not

theorem antiJoin_leaves
    (apart : ∀ column ∈ columns, TextsApart arrow (table.rows ++ deleteTable.rows) column)
    (returns : antiJoin arrow table deleteTable columns = .ok remaining) :
    LeavesOthers table deleteTable columns remaining := by
  simp only [antiJoin, bind, Except.bind] at returns
  split at returns
  · cases returns
  · split_ifs at returns
    · exact nullSafeAntiJoin_leaves apart returns
    · exact plainAntiJoin_leaves returns

/-- What is left of a table, with the number of rows that are dropped. -/
structure Leaves (table : Table String Value) (select : Row String Value → Bool)
    (result : Table String Value × ℕ) : Prop where
  columnNames : result.1.columnNames = table.columnNames
  rows : result.1.rows.Perm (table.rows.filter select)
  dropped : result.2 + result.1.rows.length = table.rows.length

omit [DecidableEq Value] in
theorem Leaves.all {select : Row String Value → Bool}
    (selected : ∀ row ∈ table.rows, select row) : Leaves table select (table, 0) := by
  refine ⟨rfl, ?_, Nat.zero_add _⟩
  rw [List.filter_eq_self.mpr selected]

theorem dropRows_leaves {envelope : DeleteFileEnvelope Value} {result : Table String Value × ℕ}
    (apart : ∀ column ∈ validColumns table.columnNames envelope.deleteColumns,
      TextsApart arrow (table.rows ++ envelope.table.rows) column)
    (isReference : envelope.isReference)
    (returns : dropRows arrow table envelope.table envelope.deleteColumns = .ok result) :
    Leaves table (¬envelope.Deletes table.columnNames ·) result := by
  by_cases noColumns : validColumns table.columnNames envelope.deleteColumns = []
  · rw [dropRows, if_pos noColumns] at returns
    cases returns
    apply Leaves.all
    intro row _
    simp [DeleteFileEnvelope.Deletes, noColumns]
  · rw [dropRows, if_neg noColumns] at returns
    cases joined : antiJoin arrow table envelope.table
        (validColumns table.columnNames envelope.deleteColumns) with
    | error error => simp [joined, bind, Except.bind] at returns
    | ok remaining =>
        simp only [joined, bind, Except.bind, pure, Except.pure, Except.ok.injEq] at returns
        subst returns
        have leaves := antiJoin_leaves apart joined
        have isSelected : (table.rows.filter fun row => ¬AgreesWith envelope.table.rows
            (validColumns table.columnNames envelope.deleteColumns) row) =
            table.rows.filter (¬envelope.Deletes table.columnNames ·) := by
          apply List.filter_congr
          intro row _
          simp [DeleteFileEnvelope.Deletes, noColumns, isReference]
        have isFewer : remaining.rows.length ≤ table.rows.length := by
          rw [leaves.rows.length_eq]
          exact List.length_filter_le _ _
        exact ⟨leaves.columnNames, isSelected ▸ leaves.rows, Nat.sub_add_cancel isFewer⟩

theorem applyDeletes_leaves {envelope : DeleteFileEnvelope Value}
    {result : Table String Value × ℕ}
    (apart : ∀ column ∈ validColumns table.columnNames envelope.deleteColumns,
      TextsApart arrow (table.rows ++ envelope.table.rows) column)
    (isReference : envelope.isReference)
    (returns : applyDeletes arrow table envelope = .ok result) :
    Leaves table (¬envelope.Deletes table.columnNames ·) result := by
  rw [applyDeletes] at returns
  split_ifs at returns with isEmpty
  · cases returns
    apply Leaves.all
    intro row rowMem
    rcases isEmpty with noRows | noRows
    · rw [noRows] at rowMem
      cases rowMem
    · simp [DeleteFileEnvelope.Deletes, AgreesWith, noRows]
  · exact dropRows_leaves apart isReference returns

omit [DecidableEq Value] in
theorem Leaves.trans {first second : Row String Value → Bool} {left right : ℕ}
    {middle : Table String Value} (leftLeaves : Leaves table first (middle, left))
    (rightLeaves : Leaves middle second (remaining, right)) :
    Leaves table (fun row => first row && second row) (remaining, left + right) where
  columnNames := rightLeaves.columnNames.trans leftLeaves.columnNames
  rows := by
    have kept := rightLeaves.rows.trans (leftLeaves.rows.filter second)
    simp only [List.filter_filter, Bool.and_comm] at kept ⊢
    exact kept
  dropped := by
    have leftDropped := leftLeaves.dropped
    have rightDropped := rightLeaves.dropped
    simp only at leftDropped rightDropped ⊢
    omega

omit [DecidableEq Value] in
theorem Leaves.subset {select : Row String Value → Bool} {result : Table String Value × ℕ}
    (leaves : Leaves table select result) : result.1.rows ⊆ table.rows :=
  fun _ rowMem => List.mem_of_mem_filter (leaves.rows.subset rowMem)

omit [DecidableEq Value] in
theorem TextsApart.subset {rows others : List (Row String Value)} {column : String}
    (apart : TextsApart arrow rows column) (isSubset : others ⊆ rows) :
    TextsApart arrow others column where
  injective := fun left leftMem right rightMem =>
    apart.injective left (isSubset leftMem) right (isSubset rightMem)
  noSentinel := fun row rowMem => apart.noSentinel row (isSubset rowMem)

/-- The texts of the delete columns tell the cells of the table and the delete file apart. -/
def Comparable (arrow : ArrowJoins Value) (table : Table String Value)
    (envelope : DeleteFileEnvelope Value) : Prop :=
  ∀ column ∈ validColumns table.columnNames envelope.deleteColumns,
    TextsApart arrow (table.rows ++ envelope.table.rows) column

omit [DecidableEq Value] in
theorem Comparable.of_subset {envelope : DeleteFileEnvelope Value}
    (comparable : Comparable arrow table envelope)
    (sameColumns : remaining.columnNames = table.columnNames)
    (isSubset : remaining.rows ⊆ table.rows) : Comparable arrow remaining envelope := by
  intro column columnMem
  rw [sameColumns] at columnMem
  apply (comparable column columnMem).subset
  exact List.append_subset.mpr ⟨fun _ rowMem => List.mem_append_left _ (isSubset rowMem),
    List.subset_append_right _ _⟩

/-- The rows that no delete file matches. -/
def survives (columnNames : List String) (envelopes : List (DeleteFileEnvelope Value))
    (row : Row String Value) : Bool :=
  envelopes.all fun envelope => ¬envelope.Deletes columnNames row

theorem applyEach_leaves {envelopes : List (DeleteFileEnvelope Value)} {dropped total : ℕ}
    (comparable : ∀ envelope ∈ envelopes, Comparable arrow table envelope)
    (returns : applyEach arrow table dropped envelopes = .ok (remaining, total)) :
    ∃ more, total = dropped + more ∧
      Leaves table (survives table.columnNames envelopes) (remaining, more) := by
  induction envelopes generalizing table dropped with
  | nil =>
      cases returns
      exact ⟨0, rfl, Leaves.all fun _ _ => rfl⟩
  | cons envelope envelopes ih =>
      rw [applyEach] at returns
      split_ifs at returns with isReference
      · cases applied : applyDeletes arrow table envelope with
        | error error => simp [applied, bind, Except.bind] at returns
        | ok result =>
            rcases result with ⟨middle, first⟩
            simp only [applied, bind, Except.bind] at returns
            have leaves := applyDeletes_leaves (comparable envelope List.mem_cons_self)
              isReference applied
            rcases ih (fun other otherMem =>
              (comparable other (List.mem_cons_of_mem _ otherMem)).of_subset leaves.columnNames
                leaves.subset) returns with ⟨more, isTotal, rest⟩
            have sameColumns : middle.columnNames = table.columnNames := leaves.columnNames
            rw [sameColumns] at rest
            refine ⟨first + more, by omega, ?_⟩
            exact leaves.trans rest
      · have skips : survives table.columnNames (envelope :: envelopes) =
            survives table.columnNames envelopes := by
          funext row
          simp [survives, DeleteFileEnvelope.Deletes, isReference]
        rw [skips]
        exact ih (fun other otherMem => comparable other (List.mem_cons_of_mem _ otherMem)) returns

omit [DecidableEq Value] in
theorem CanDrop.of_subset {envelope : DeleteFileEnvelope Value}
    (canDrop : CanDrop arrow table envelope)
    (sameColumns : remaining.columnNames = table.columnNames)
    (isSubset : remaining.rows ⊆ table.rows) : CanDrop arrow remaining envelope where
  haveColumns := sameColumns ▸ canDrop.haveColumns
  distinct := sameColumns ▸ canDrop.distinct
  noIndex := sameColumns ▸ canDrop.noIndex
  casts := by
    rw [sameColumns]
    intro column columnMem
    rcases canDrop.casts column columnMem with ⟨tableCasts, deleteCasts⟩
    exact ⟨arrow.casts_subset sameColumns isSubset tableCasts, deleteCasts⟩
  joins := by
    rw [sameColumns]
    exact arrow.joins_subset sameColumns isSubset canDrop.joins

theorem exists_hasNulls (table : Table String Value)
    (haveColumns : columns ⊆ deleteTable.columnNames) :
    ∃ someNull, hasNulls table deleteTable columns = .ok someNull := by
  induction columns with
  | nil => exact ⟨false, rfl⟩
  | cons column columns ih =>
      have isColumn := haveColumns List.mem_cons_self
      rcases ih fun _ columnMem => haveColumns (List.mem_cons_of_mem _ columnMem) with
        ⟨someNull, isSome⟩
      rw [hasNulls, if_neg (not_not.mpr isColumn)]
      split_ifs
      · exact ⟨true, rfl⟩
      · exact ⟨someNull, isSome⟩

/-- PyArrow can match the rows exactly when both ways to compare their keys return. -/
theorem canDrop_iff {envelope : DeleteFileEnvelope Value} :
    CanDrop arrow table envelope ↔
      (∃ nullSafe, nullSafeAntiJoin arrow table envelope.table
        (validColumns table.columnNames envelope.deleteColumns) = .ok nullSafe) ∧
      ∃ plain, plainAntiJoin arrow table envelope.table
        (validColumns table.columnNames envelope.deleteColumns) = .ok plain := by
  let columns := validColumns table.columnNames envelope.deleteColumns
  constructor
  · intro canDrop
    have noIndex : orderedRecordIdxColumnName ∉ columns := by
      intro columnMem
      exact canDrop.noIndex (by simpa using (List.mem_filter.mp columnMem).2)
    have distinct : (columns ++ [orderedRecordIdxColumnName]).Nodup := by
      rw [List.nodup_append']
      exact ⟨canDrop.distinct, List.nodup_singleton _, by simpa using noIndex⟩
    have casts : (∀ column ∈ columns, arrow.castsToString table column) ∧
        ∀ column ∈ columns, arrow.castsToString envelope.table column :=
      ⟨fun column columnMem => (canDrop.casts column columnMem).1,
        fun column columnMem => (canDrop.casts column columnMem).2⟩
    have haveColumns : ¬∃ column ∈ validColumns table.columnNames envelope.deleteColumns,
        column ∉ envelope.table.columnNames := by
      rintro ⟨column, columnMem, missing⟩
      exact missing (canDrop.haveColumns columnMem)
    rw [nullSafeAntiJoin, if_neg (by simp [columns, distinct, canDrop.noIndex]),
      coerceKeysForNullSafeJoin, if_pos casts.1, coerceKeysForNullSafeJoin, if_pos casts.2,
      plainAntiJoin, if_pos ⟨canDrop.distinct, canDrop.joins⟩]
    simp only [bind, Except.bind, if_neg haveColumns]
    exact ⟨⟨_, rfl⟩, _, rfl⟩
  · rintro ⟨⟨nullSafe, isNullSafe⟩, plain, isPlain⟩
    simp only [nullSafeAntiJoin, coerceKeysForNullSafeJoin, bind, Except.bind, pure, Except.pure,
      throw, throwThe, MonadExceptOf.throw] at isNullSafe
    split_ifs at isNullSafe with noIndex casts haveColumns deleteCasts
    rw [plainAntiJoin] at isPlain
    split_ifs at isPlain with joins
    push Not at noIndex haveColumns
    exact ⟨haveColumns, joins.1, noIndex.2,
      fun column columnMem => ⟨casts column columnMem, deleteCasts column columnMem⟩, joins.2⟩

theorem exists_applyDeletes {envelope : DeleteFileEnvelope Value}
    (canDrop : CanDrop arrow table envelope) :
    ∃ result, applyDeletes arrow table envelope = .ok result := by
  rcases exists_hasNulls table canDrop.haveColumns with ⟨someNull, nulls⟩
  rcases canDrop_iff.mp canDrop with ⟨⟨nullSafe, isNullSafe⟩, plain, isPlain⟩
  rw [applyDeletes]
  split_ifs with isEmpty
  · exact ⟨_, rfl⟩
  · rw [dropRows]
    split_ifs with noColumns
    · exact ⟨_, rfl⟩
    · simp only [antiJoin, bind, Except.bind, nulls]
      cases someNull with
      | true => exact ⟨_, by rw [if_pos rfl, isNullSafe]; rfl⟩
      | false => exact ⟨_, by rw [if_neg Bool.false_ne_true, isPlain]; rfl⟩

theorem exists_applyEach {envelopes : List (DeleteFileEnvelope Value)} (dropped : ℕ)
    (comparable : ∀ envelope ∈ envelopes, Comparable arrow table envelope)
    (canDrop : ∀ envelope ∈ envelopes, envelope.isReference → CanDrop arrow table envelope) :
    ∃ result, applyEach arrow table dropped envelopes = .ok result := by
  induction envelopes generalizing table dropped with
  | nil => exact ⟨_, rfl⟩
  | cons envelope envelopes ih =>
      have ofRest := fun other otherMem => comparable other (List.mem_cons_of_mem _ otherMem)
      have canDropRest := fun other otherMem => canDrop other (List.mem_cons_of_mem _ otherMem)
      rw [applyEach]
      split_ifs with isReference
      · rcases exists_applyDeletes (canDrop envelope List.mem_cons_self isReference) with
          ⟨⟨middle, first⟩, applied⟩
        have leaves := applyDeletes_leaves (comparable envelope List.mem_cons_self)
          isReference applied
        simp only [applied, bind, Except.bind]
        exact ih (dropped + first)
          (fun other otherMem => (ofRest other otherMem).of_subset leaves.columnNames leaves.subset)
          (fun other otherMem isOther =>
            (canDropRest other otherMem isOther).of_subset leaves.columnNames leaves.subset)
      · exact ih dropped ofRest canDropRest

/-- What is left of a table after its deletes are applied. -/
theorem applyManyDeletes_eq_ok {envelopes : List (DeleteFileEnvelope Value)}
    (comparable : ∀ envelope ∈ envelopes, Comparable arrow table envelope)
    {result : Option (Table String Value) × ℕ}
    (returns : applyManyDeletes arrow (some table) envelopes = .ok result) :
    ∃ remaining, result.1 = some remaining ∧
      remaining.columnNames = table.columnNames ∧
      remaining.rows.Perm (table.rows.filter fun row =>
        ∀ envelope ∈ envelopes, ¬envelope.Deletes table.columnNames row) ∧
      result.2 + remaining.rows.length = table.rows.length := by
  have isSelected : (survives table.columnNames envelopes) = fun row =>
      decide (∀ envelope ∈ envelopes, ¬envelope.Deletes table.columnNames row) := by
    funext row
    rw [Bool.eq_iff_iff]
    simp [survives]
  simp only [applyManyDeletes] at returns
  split_ifs at returns with isEmpty
  · cases returns
    refine ⟨table, rfl, rfl, ?_, Nat.zero_add _⟩
    simp [isEmpty]
  · cases applied : applyEach arrow table 0 envelopes with
    | error error => simp [applied, bind, Except.bind] at returns
    | ok pair =>
        rcases pair with ⟨remaining, total⟩
        simp only [applied, bind, Except.bind, pure, Except.pure, Except.ok.injEq] at returns
        subst returns
        rcases applyEach_leaves comparable applied with ⟨more, isTotal, leaves⟩
        rw [isSelected] at leaves
        rw [Nat.zero_add] at isTotal
        subst isTotal
        exact ⟨remaining, rfl, leaves.columnNames, leaves.rows, leaves.dropped⟩

theorem exists_applyManyDeletes {envelopes : List (DeleteFileEnvelope Value)}
    (comparable : ∀ envelope ∈ envelopes, Comparable arrow table envelope)
    (canDrop : ∀ envelope ∈ envelopes, envelope.isReference → CanDrop arrow table envelope) :
    ∃ result, applyManyDeletes arrow (some table) envelopes = .ok result := by
  rcases exists_applyEach 0 comparable canDrop with ⟨result, applied⟩
  simp only [applyManyDeletes]
  split_ifs
  · exact ⟨_, rfl⟩
  · exact ⟨_, by rw [applied]; rfl⟩

/--
Equality deletes leave exactly the rows that agree with no row of a referenced delete
file in the delete columns that the table has, whichever way the keys are compared, and
count the others.
-/
theorem applyManyDeletes_spec (arrow : ArrowJoins Value) (table : Table String Value)
    (envelopes : List (DeleteFileEnvelope Value))
    (comparable : ∀ envelope ∈ envelopes, Comparable arrow table envelope) :
    (∀ result, applyManyDeletes arrow (some table) envelopes = .ok result →
      ∃ remaining, result.1 = some remaining ∧
        remaining.columnNames = table.columnNames ∧
        remaining.rows.Perm (table.rows.filter fun row =>
          ∀ envelope ∈ envelopes, ¬envelope.Deletes table.columnNames row) ∧
        result.2 + remaining.rows.length = table.rows.length) ∧
    ((∀ envelope ∈ envelopes, envelope.isReference → CanDrop arrow table envelope) →
      ∃ result, applyManyDeletes arrow (some table) envelopes = .ok result) :=
  ⟨fun _ returns => applyManyDeletes_eq_ok comparable returns,
    exists_applyManyDeletes comparable⟩

end Spec

section Examples

/-- Strings are their own texts, and all joins are supported. -/
def stringJoins : ArrowJoins String where
  castsToString := fun _ _ => true
  stringCast := id
  joins := fun _ _ _ => true
  arrange := id
  arrange_perm := List.Perm.refl
  casts_subset := fun _ _ casts => casts
  joins_subset := fun _ _ joins => joins

/-- A table with the columns `region` and `store`. -/
def storeTable (rows : List (Option String × Option String)) : Table String String where
  columnNames := ["region", "store"]
  rows := rows.map fun (region, store) column =>
    if column = "region" then region else if column = "store" then store else none
  absent row rowMem column isOther := by
    rcases List.mem_map.mp rowMem with ⟨cells, _, rfl⟩
    simp only [List.mem_cons, List.not_mem_nil, or_false, not_or] at isOther
    simp [isOther]

/-- The deletion of the rows of a region without a store; there is no column `city`. -/
def withoutStore (region : String) : DeleteFileEnvelope String where
  streamPosition := 2
  table := storeTable [(some region, none)]
  deleteColumns := ["region", "city", "store"]
  isReference := true
  hasColumns := List.cons_ne_nil _ _

theorem applyManyDeletes_spec_withoutStore :
    ∃ result, applyManyDeletes stringJoins
        (some (storeTable [(some "eu", some "1"), (some "eu", none), (some "us", none)]))
        [withoutStore "eu"] = .ok result ∧ result.2 = 1 := by
  have spec := applyManyDeletes_spec stringJoins
    (storeTable [(some "eu", some "1"), (some "eu", none), (some "us", none)]) [withoutStore "eu"]
    (by
      intro envelope envelopeMem column columnMem
      obtain rfl := List.mem_singleton.mp envelopeMem
      refine ⟨fun _ _ _ _ _ _ _ _ same => same, ?_⟩
      revert column
      decide)
  rcases spec.2 (by
    intro envelope envelopeMem _
    obtain rfl := List.mem_singleton.mp envelopeMem
    exact ⟨by decide, by decide, by decide, fun _ _ => ⟨rfl, rfl⟩, rfl⟩) with ⟨result, returns⟩
  refine ⟨result, returns, ?_⟩
  rcases spec.1 result returns with ⟨remaining, _, _, isKept, counts⟩
  have twoLeft : remaining.rows.length = 2 := by
    rw [isKept.length_eq]
    decide
  rw [twoLeft] at counts
  exact Nat.add_right_cancel counts

end Examples

end Deltacat.Compute.CompactorV2
