import Deltacat.Compute.CompactorV2.Merge

/-!
# Partial upserts

A partial upsert should give one row for each key of the compacted and of the
incremental table, with the incremental cells in the columns that the user
provided and the compacted cells in the others.

The merge copies the columns that are to be filled as a whole. The rows of the
incremental table and the rows that they replace are not brought into one order,
and there may be more of the former, which the column of key strings does not allow;
`mergeTables_isPartialUpsert` says when the result is right anyway.
-/

namespace Deltacat.Compute.CompactorV2

open Deltacat.Library Deltacat.Utils

universe u

/-- The tables of an upsert; the keys of the compacted table are unique. -/
structure UpsertInput (Column Value : Type u) where
  hashing : KeyHashing Value
  primaryKeys : List Column
  originalFields : List Column
  compacted : Table Column Value
  incremental : Table Column Value
  nonempty : primaryKeys ≠ []
  keyed : ∀ column ∈ primaryKeys, column ∈ incremental.columnNames
  keyedCompacted : ∀ column ∈ primaryKeys, column ∈ compacted.columnNames
  unique : (compacted.rows.map (keyOf primaryKeys)).Nodup

namespace UpsertInput

variable {Column Value : Type u}

/-- The key of a row. -/
abbrev key (input : UpsertInput Column Value) (row : Row Column Value) : List (Option Value) :=
  keyOf input.primaryKeys row

variable [DecidableEq Column] [DecidableEq Value] (input : UpsertInput Column Value)

/-- The compacted row of a key. -/
def oldRow (key : List (Option Value)) : Option (Row Column Value) :=
  input.compacted.rows.find? (input.key · = key)

/-- The incremental row of a key, the last one if there are several. -/
def newRow (key : List (Option Value)) : Option (Row Column Value) :=
  (input.incremental.rows.filter (input.key · = key)).getLast?

/-- The user provided the column. -/
def IsProvided (column : Column) : Prop :=
  column ∈ input.incremental.columnNames ∧ column ∈ input.originalFields

instance (column : Column) : Decidable (input.IsProvided column) :=
  inferInstanceAs (Decidable (_ ∧ _))

/-- The cell that the row of a key has after the upsert. -/
def upsertedCell (key : List (Option Value)) (column : Column) : Option Value :=
  match input.newRow key with
  | some new => if input.IsProvided column then new column else (input.oldRow key).bind (· column)
  | none => (input.oldRow key).bind (· column)

/-- One row for each key of the tables, with the upserted cells. -/
structure IsPartialUpsert (rows : List (Row Column Value)) : Prop where
  distinct : (rows.map input.key).Nodup
  keys : ∀ key, key ∈ rows.map input.key ↔
    key ∈ input.compacted.rows.map input.key ∨ key ∈ input.incremental.rows.map input.key
  cells : ∀ row ∈ rows, ∀ column ∉ input.primaryKeys,
    row column = input.upsertedCell (input.key row) column

/-- The row that an incremental row becomes. -/
def upsertedRow (new : Row Column Value) : Row Column Value := fun column =>
  if column ∈ input.primaryKeys then new column else input.upsertedCell (input.key new) column

/-- The compacted rows that are not replaced, and the upserted rows. -/
def upsertedRows : List (Row Column Value) :=
  input.compacted.rows.filter (input.key · ∉ input.incremental.rows.map input.key) ++
    (keepLast input.key input.incremental.rows).map input.upsertedRow

variable {input}

omit [DecidableEq Column] [DecidableEq Value] in
theorem key_eq_iff {left right : Row Column Value} :
    input.key left = input.key right ↔
      ∀ column ∈ input.primaryKeys, left column = right column :=
  List.map_inj_left

theorem key_upsertedRow (new : Row Column Value) :
    input.key (input.upsertedRow new) = input.key new := by
  rw [key_eq_iff]
  exact fun column columnMem => if_pos columnMem

omit [DecidableEq Column] in
theorem oldRow_of_mem {row : Row Column Value} (rowMem : row ∈ input.compacted.rows) :
    input.oldRow (input.key row) = some row := by
  rcases isRow : input.oldRow (input.key row) with _ | other
  · have noRow := List.find?_eq_none.mp isRow row rowMem
    simp at noRow
  · have otherMem := List.mem_of_find?_eq_some isRow
    have sameKey := List.find?_some isRow
    rw [List.inj_on_of_nodup_map input.unique otherMem rowMem (of_decide_eq_true sameKey)]

omit [DecidableEq Column] in
theorem oldRow_eq_none_iff {key : List (Option Value)} :
    input.oldRow key = none ↔ key ∉ input.compacted.rows.map input.key := by
  simp [oldRow]

theorem upsertedCell_of_notMem {key : List (Option Value)} {column : Column}
    (notMem : key ∉ input.incremental.rows.map input.key) :
    input.upsertedCell key column = (input.oldRow key).bind (· column) := by
  have isNone : input.newRow key = none := by simpa [newRow] using notMem
  rw [upsertedCell, isNone]

theorem upsertedCell_of_mem {new : Row Column Value} {column : Column}
    (newMem : new ∈ keepLast input.key input.incremental.rows) :
    input.upsertedCell (input.key new) column =
      if input.IsProvided column then new column
      else (input.oldRow (input.key new)).bind (· column) := by
  have isNew : input.newRow (input.key new) = some new := mem_keepLast_iff.mp newMem
  rw [upsertedCell, isNew]

theorem isPartialUpsert_upsertedRows : input.IsPartialUpsert input.upsertedRows := by
  have keysOfUpserted : ((keepLast input.key input.incremental.rows).map input.upsertedRow).map
      input.key = (keepLast input.key input.incremental.rows).map input.key := by
    rw [List.map_map]
    exact List.map_congr_left fun new _ => key_upsertedRow new
  refine ⟨?_, fun key => ?_, fun row rowMem column notKey => ?_⟩
  · rw [upsertedRows, List.map_append, keysOfUpserted]
    apply List.Nodup.append
    · exact input.unique.sublist (List.filter_sublist.map _)
    · exact nodup_map_keepLast
    · intro key keptKey upsertedKey
      obtain ⟨row, rowMem, rfl⟩ := List.mem_map.mp keptKey
      have notMem := of_decide_eq_true (List.mem_filter.mp rowMem).2
      exact notMem (mem_map_keepLast.mp upsertedKey)
  · rw [upsertedRows, List.map_append, keysOfUpserted, List.mem_append, mem_map_keepLast]
    by_cases inIncremental : key ∈ input.incremental.rows.map input.key
    · simp only [inIncremental, or_true]
    · simp only [inIncremental, or_false, List.mem_map, List.mem_filter, decide_eq_true_eq]
      constructor
      · rintro ⟨row, ⟨rowMem, -⟩, rfl⟩
        exact ⟨row, rowMem, rfl⟩
      · rintro ⟨row, rowMem, rfl⟩
        exact ⟨row, ⟨rowMem, by simpa using inIncremental⟩, rfl⟩
  · rcases List.mem_append.mp rowMem with rowMem | rowMem
    · obtain ⟨rowMem, notMem⟩ := List.mem_filter.mp rowMem
      rw [upsertedCell_of_notMem (of_decide_eq_true notMem), oldRow_of_mem rowMem]
      rfl
    · obtain ⟨new, newMem, rfl⟩ := List.mem_map.mp rowMem
      rw [key_upsertedRow]
      exact if_neg notKey

theorem IsPartialUpsert.subset {left right : List (Row Column Value)}
    (isLeft : input.IsPartialUpsert left) (isRight : input.IsPartialUpsert right) :
    left ⊆ right := by
  intro row rowMem
  have keyMem := (isRight.keys _).mpr ((isLeft.keys _).mp (List.mem_map_of_mem rowMem))
  obtain ⟨other, otherMem, sameKey⟩ := List.mem_map.mp keyMem
  have same : row = other := by
    funext column
    by_cases isKey : column ∈ input.primaryKeys
    · exact (key_eq_iff.mp sameKey column isKey).symm
    · rw [isLeft.cells row rowMem column isKey, isRight.cells other otherMem column isKey, sameKey]
  exact same ▸ otherMem

/-- The upserted rows are determined up to their order. -/
theorem isPartialUpsert_iff_perm {rows : List (Row Column Value)} :
    input.IsPartialUpsert rows ↔ rows.Perm input.upsertedRows := by
  have isUpsert : input.IsPartialUpsert input.upsertedRows := isPartialUpsert_upsertedRows
  constructor
  · intro isRows
    rw [List.perm_ext_iff_of_nodup isRows.distinct.of_map isUpsert.distinct.of_map]
    exact fun row => ⟨fun rowMem => isRows.subset isUpsert rowMem,
      fun rowMem => isUpsert.subset isRows rowMem⟩
  · intro perm
    refine ⟨(perm.map _).nodup_iff.mpr isUpsert.distinct, fun key => ?_, fun row rowMem => ?_⟩
    · rw [(perm.map _).mem_iff]
      exact isUpsert.keys key
    · exact isUpsert.cells row (perm.mem_iff.mp rowMem)

section Merge

variable (input)

omit [DecidableEq Column] [DecidableEq Value] in
/-- The string by which `mergeTables` compares rows. -/
def hash (row : Row Column Value) : String :=
  hashString input.hashing
    ((if input.compacted.rows.isEmpty then [] else [input.compacted]) ++ [input.incremental])
    input.primaryKeys false (input.key row)

/-- The rows that are merged into the compacted table. -/
def newRecords : Table Column Value :=
  dropDuplicates input.hash input.incremental

/-- The rows that are replaced. -/
def oldRecords : Table Column Value :=
  input.compacted.filter (recordsToUpdate input.hash input.newRecords)

/-- The rows that are kept. -/
def keptRecords : Table Column Value :=
  input.compacted.filter fun row => !recordsToUpdate input.hash input.newRecords row

/-- The fields that are filled from the rows that are replaced. -/
def filledFields : List Column :=
  fieldsToFill input.oldRecords input.newRecords input.originalFields

variable {input}

omit [DecidableEq Value] in
theorem mergeTables_of_empty (isEmpty : input.compacted.rows = []) :
    mergeTables input.hashing input.incremental input.primaryKeys true input.originalFields
      (some input.compacted) = .ok (Table.concatOrCoerceTables [input.newRecords]) := by
  have filtered : (some input.compacted).filter (fun table => !table.rows.isEmpty) = none := by
    simp [Option.filter, isEmpty]
  have generated : generatePkHashColumn input.hashing [input.incremental] input.primaryKeys false =
      .ok (hashString input.hashing [input.incremental] input.primaryKeys false) :=
    if_pos (by simpa using input.keyed)
  simp only [mergeTables, filtered, input.nonempty, Option.toList_none, List.nil_append, generated,
    not_true_eq_false, or_self, if_false, newRecords]
  unfold hash
  rw [isEmpty]
  rfl

omit [DecidableEq Value] in
theorem mergeTables_of_nonempty (hasRows : input.compacted.rows ≠ []) :
    mergeTables input.hashing input.incremental input.primaryKeys true input.originalFields
        (some input.compacted) =
      if input.oldRecords.rows.isEmpty then
        .ok (Table.concatOrCoerceTables [input.keptRecords, input.newRecords])
      else
        (mergeRecordsPartially input.oldRecords input.newRecords input.originalFields
          input.hash).map fun filled => Table.concatOrCoerceTables [input.keptRecords, filled] := by
  have filtered : (some input.compacted).filter (fun table => !table.rows.isEmpty) =
      some input.compacted := by
    simp [Option.filter, hasRows]
  have generated : generatePkHashColumn input.hashing [input.compacted, input.incremental]
      input.primaryKeys false = .ok (hashString input.hashing [input.compacted, input.incremental]
        input.primaryKeys false) :=
    if_pos (by simpa using ⟨input.keyedCompacted, input.keyed⟩)
  have isHash : input.hash = fun row => hashString input.hashing
      [input.compacted, input.incremental] input.primaryKeys false (input.key row) := by
    funext row
    simp [hash, hasRows]
  simp only [mergeTables, filtered, input.nonempty, Option.toList_some, List.cons_append,
    List.nil_append, generated, not_true_eq_false, or_self, if_false, oldRecords, keptRecords,
    newRecords, isHash]
  rfl

omit [DecidableEq Value] in
/-- The rows that the merge returns, if it does not raise. -/
theorem mergeTables_rows_iff {rows : List (Row Column Value)} :
    (∃ merged, mergeTables input.hashing input.incremental input.primaryKeys true
        input.originalFields (some input.compacted) = .ok merged ∧ merged.rows = rows) ↔
      ∃ filled, rows = input.keptRecords.rows ++ filled ∧
        if input.oldRecords.rows = [] then filled = input.newRecords.rows
        else ∃ table, mergeRecordsPartially input.oldRecords input.newRecords
          input.originalFields input.hash = .ok table ∧ filled = table.rows := by
  by_cases isEmpty : input.compacted.rows = []
  · have noOld : input.oldRecords.rows = [] := by simp [oldRecords, Table.filter, isEmpty]
    have noKept : input.keptRecords.rows = [] := by simp [keptRecords, Table.filter, isEmpty]
    rw [mergeTables_of_empty isEmpty]
    simp [noOld, noKept, Table.concatOrCoerceTables, eq_comm]
  · rw [mergeTables_of_nonempty isEmpty]
    by_cases noOld : input.oldRecords.rows = []
    · simp [noOld, Table.concatOrCoerceTables, eq_comm]
    · simp only [List.isEmpty_iff, noOld, if_false]
      cases mergeRecordsPartially input.oldRecords input.newRecords input.originalFields input.hash
      · simp [Except.map]
      · simp [Except.map, Table.concatOrCoerceTables, eq_comm]

end Merge

section FillsByKey

variable (input)

/-- The strings tell the keys of the incremental rows apart from all others. -/
def IsApart : Prop :=
  ∀ row ∈ input.incremental.rows, ∀ other ∈ input.incremental.rows ++ input.compacted.rows,
    input.hash row = input.hash other → input.key row = input.key other

/--
A new row with the filled columns of an old row is the upsert of a third row: it has the
cells of this row in the other columns, and those of the row that it replaces in the filled
ones. If the user provided the primary keys, the third row is the new row itself.
-/
def FillsFor (target : Row Column Value) (pair : Row Column Value × Row Column Value) : Prop :=
  (∀ column ∉ input.filledFields, pair.1 column = target column) ∧
    ∀ column ∈ input.filledFields, ∀ previous ∈ input.compacted.rows,
      input.key previous = input.key target → pair.2 column = previous column

/--
The strings tell keys apart; new rows are null in columns that were not provided and are
not filled; and where columns are filled, there are as many old rows as new ones, and the
new rows with the old ones in their places are the upserts of the new rows, in some order.
-/
structure FillsByKey : Prop where
  apart : input.IsApart
  nulls : ∀ new ∈ input.newRecords.rows, ∀ column ∈ input.incremental.columnNames,
    column ∉ input.primaryKeys → column ∉ input.originalFields →
      (column ∈ input.compacted.columnNames → input.oldRecords.rows = []) → new column = none
  aligned : input.oldRecords.rows = [] ∨ input.filledFields = [] ∨
    input.oldRecords.rows.length = input.newRecords.rows.length ∧
      ∃ targets : List (Row Column Value), targets.Perm input.newRecords.rows ∧
        List.Forall₂ input.FillsFor targets (input.newRecords.rows.zip input.oldRecords.rows)

variable {input}

omit [DecidableEq Column] [DecidableEq Value] in
theorem hash_congr {left right : Row Column Value} (sameKey : input.key left = input.key right) :
    input.hash left = input.hash right := by
  rw [hash, hash, sameKey]

omit [DecidableEq Column] [DecidableEq Value] in
theorem recordsToUpdate_iff {row : Row Column Value} :
    recordsToUpdate input.hash input.newRecords row ↔
      ∃ new ∈ input.incremental.rows, input.hash new = input.hash row := by
  rw [recordsToUpdate, decide_eq_true_eq, newRecords, dropDuplicates, mem_map_keepLast,
    List.mem_map]

omit [DecidableEq Column] in
theorem IsApart.newRecords_rows (apart : input.IsApart) :
    input.newRecords.rows = keepLast input.key input.incremental.rows := by
  apply keepLast_congr
  exact fun left leftMem right rightMem =>
    ⟨apart left leftMem right (List.mem_append_left _ rightMem), hash_congr⟩

omit [DecidableEq Column] [DecidableEq Value] in
theorem IsApart.recordsToUpdate_iff (apart : input.IsApart) {row : Row Column Value}
    (rowMem : row ∈ input.compacted.rows) :
    recordsToUpdate input.hash input.newRecords row ↔
      input.key row ∈ input.incremental.rows.map input.key := by
  rw [UpsertInput.recordsToUpdate_iff, List.mem_map]
  constructor
  · rintro ⟨new, newMem, sameHash⟩
    exact ⟨new, newMem, apart new newMem row (List.mem_append_right _ rowMem) sameHash⟩
  · rintro ⟨new, newMem, sameKey⟩
    exact ⟨new, newMem, hash_congr sameKey⟩

omit [DecidableEq Column] in
theorem IsApart.keptRecords_rows (apart : input.IsApart) :
    input.keptRecords.rows =
      input.compacted.rows.filter (input.key · ∉ input.incremental.rows.map input.key) := by
  apply List.filter_congr
  intro row rowMem
  have isUpdated := apart.recordsToUpdate_iff rowMem
  by_cases updated : recordsToUpdate input.hash input.newRecords row
  · simpa [updated] using isUpdated
  · simpa [updated] using isUpdated

theorem IsApart.upsertedRows_eq (apart : input.IsApart) :
    input.upsertedRows = input.keptRecords.rows ++ input.newRecords.rows.map input.upsertedRow := by
  rw [upsertedRows, apart.keptRecords_rows, apart.newRecords_rows]

/-- If as many rows are returned as there are keys, no two keys have the same string. -/
theorem isApart_of_length {filled : List (Row Column Value)}
    (length : filled.length = input.newRecords.rows.length)
    (perm : (input.keptRecords.rows ++ filled).Perm input.upsertedRows) : input.IsApart := by
  have keptSublist : input.keptRecords.rows.Sublist
      (input.compacted.rows.filter (input.key · ∉ input.incremental.rows.map input.key)) := by
    apply List.monotone_filter_right
    intro row isKept
    have notUpdated : ¬recordsToUpdate input.hash input.newRecords row := by simpa using isKept
    rw [recordsToUpdate_iff] at notUpdated
    rw [decide_eq_true_eq, List.mem_map]
    rintro ⟨new, newMem, sameKey⟩
    exact notUpdated ⟨new, newMem, hash_congr sameKey⟩
  have newSublist : input.newRecords.rows.Sublist (keepLast input.key input.incremental.rows) :=
    keepLast_sublist_keepLast fun _ _ _ _ => hash_congr
  have lengths := perm.length_eq
  have keptLe := keptSublist.length_le
  have newLe := newSublist.length_le
  rw [upsertedRows, List.length_append, List.length_append, List.length_map, length] at lengths
  have sameKept := keptSublist.eq_of_length (by omega)
  have sameNew := newSublist.eq_of_length (by omega)
  have apartNew := eq_of_keepLast_eq sameNew fun _ _ _ _ => hash_congr
  intro row rowMem other otherMem sameHash
  rcases List.mem_append.mp otherMem with otherMem | otherMem
  · exact apartNew row rowMem other otherMem sameHash
  · have notKept : other ∉ input.keptRecords.rows := by
      intro isKept
      have notUpdated := (List.mem_filter.mp isKept).2
      rw [Bool.not_eq_true', ← Bool.not_eq_true, recordsToUpdate_iff] at notUpdated
      exact notUpdated ⟨row, rowMem, sameHash⟩
    rw [sameKept, List.mem_filter, decide_eq_true_eq] at notKept
    obtain ⟨new, newMem, sameKey⟩ := List.mem_map.mp (not_not.mp fun notMem =>
      notKept ⟨otherMem, notMem⟩)
    rw [← sameKey]
    exact apartNew row rowMem new newMem (sameHash.trans (hash_congr sameKey).symm)

omit [DecidableEq Value] in
theorem mem_filledFields {column : Column} :
    column ∈ input.filledFields ↔ column ∈ input.compacted.columnNames ∧
      ¬input.IsProvided column := by
  rw [filledFields, mem_fieldsToFill, IsProvided, not_and_or]
  exact Iff.rfl

omit [DecidableEq Column] in
theorem IsApart.oldRow_of_nil (apart : input.IsApart) (noOld : input.oldRecords.rows = [])
    {new : Row Column Value} (newMem : new ∈ input.newRecords.rows) :
    input.oldRow (input.key new) = none := by
  rw [oldRow_eq_none_iff]
  intro keyMem
  obtain ⟨previous, previousMem, sameKey⟩ := List.mem_map.mp keyMem
  have isUpdated : previous ∈ input.oldRecords.rows := by
    apply List.mem_filter.mpr ⟨previousMem, _⟩
    apply (apart.recordsToUpdate_iff previousMem).mpr
    rw [sameKey]
    exact List.mem_map_of_mem ((keepLast_sublist _ _).subset newMem)
  rw [noOld] at isUpdated
  cases isUpdated

/-- The old cell of a column that the compacted table does not have, or of a new key. -/
theorem IsApart.oldCell_eq_none (apart : input.IsApart) {column : Column}
    (unfilled : column ∈ input.compacted.columnNames → input.oldRecords.rows = [])
    {new : Row Column Value} (newMem : new ∈ input.newRecords.rows) :
    (input.oldRow (input.key new)).bind (· column) = none := by
  by_cases isColumn : column ∈ input.compacted.columnNames
  · rw [apart.oldRow_of_nil (unfilled isColumn) newMem]
    rfl
  · rcases isOld : input.oldRow (input.key new) with _ | old
    · rfl
    · exact input.compacted.absent old (List.mem_of_find?_eq_some isOld) column isColumn

theorem IsApart.upsertedRow_apply (apart : input.IsApart) {column : Column}
    {new : Row Column Value} (newMem : new ∈ input.newRecords.rows) :
    input.upsertedRow new column =
      if column ∈ input.primaryKeys ∨ input.IsProvided column then new column
      else (input.oldRow (input.key new)).bind (· column) := by
  rw [apart.newRecords_rows] at newMem
  rw [upsertedRow, upsertedCell_of_mem newMem]
  split_ifs <;> first | rfl | tauto

/-- The new cells are the upserted ones, where they are not filled. -/
theorem IsApart.unfilled_iff (apart : input.IsApart) {new : Row Column Value}
    (newMem : new ∈ input.newRecords.rows) :
    (∀ column, (column ∈ input.filledFields → input.oldRecords.rows = []) →
        input.upsertedRow new column = new column) ↔
      ∀ column ∈ input.incremental.columnNames, column ∉ input.primaryKeys →
        column ∉ input.originalFields →
          (column ∈ input.compacted.columnNames → input.oldRecords.rows = []) →
            new column = none := by
  constructor
  · intro unfilled column columnMem notKey notOriginal notFilled
    have notProvided : ¬input.IsProvided column := fun provided => notOriginal provided.2
    rw [← unfilled column fun isFilled => notFilled (mem_filledFields.mp isFilled).1,
      apart.upsertedRow_apply newMem, if_neg (not_or.mpr ⟨notKey, notProvided⟩)]
    exact apart.oldCell_eq_none notFilled newMem
  · intro nulls column notFilled
    rw [apart.upsertedRow_apply newMem]
    split_ifs with isNew
    · rfl
    · obtain ⟨notKey, notProvided⟩ := not_or.mp isNew
      have noOld : column ∈ input.compacted.columnNames → input.oldRecords.rows = [] :=
        fun isColumn => notFilled (mem_filledFields.mpr ⟨isColumn, notProvided⟩)
      rw [apart.oldCell_eq_none noOld newMem]
      by_cases columnMem : column ∈ input.incremental.columnNames
      · have notOriginal : column ∉ input.originalFields := fun isOriginal =>
          notProvided ⟨columnMem, isOriginal⟩
        exact (nulls column columnMem notKey notOriginal noOld).symm
      · have inIncremental : new ∈ input.incremental.rows := (keepLast_sublist _ _).subset newMem
        exact (input.incremental.absent new inIncremental column columnMem).symm

/-- The old cells are the upserted ones where they are filled, if the key had a row. -/
theorem IsApart.upsertedRow_of_filled (apart : input.IsApart) {column : Column}
    {new previous : Row Column Value} (newMem : new ∈ input.newRecords.rows)
    (isFilled : column ∈ input.filledFields) (previousMem : previous ∈ input.compacted.rows)
    (sameKey : input.key previous = input.key new) :
    input.upsertedRow new column = previous column := by
  have notProvided := (mem_filledFields.mp isFilled).2
  rw [apart.upsertedRow_apply newMem]
  split_ifs with isNew
  · have isKey := isNew.resolve_right notProvided
    exact (key_eq_iff.mp sameKey column isKey).symm
  · rw [← sameKey, oldRow_of_mem previousMem]
    rfl

omit [DecidableEq Column] in
/-- If there are as many old rows as new ones, every new row has an old one. -/
theorem IsApart.exists_previous (apart : input.IsApart)
    (length : input.newRecords.rows.length = input.oldRecords.rows.length)
    {new : Row Column Value} (newMem : new ∈ input.newRecords.rows) :
    ∃ previous ∈ input.compacted.rows, input.key previous = input.key new := by
  have isSubset : input.oldRecords.rows.map input.key ⊆ input.newRecords.rows.map input.key := by
    intro key keyMem
    obtain ⟨old, oldMem, rfl⟩ := List.mem_map.mp keyMem
    obtain ⟨oldMem, isUpdated⟩ := List.mem_filter.mp oldMem
    rw [apart.newRecords_rows, mem_map_keepLast]
    exact (apart.recordsToUpdate_iff oldMem).mp isUpdated
  have distinct : (input.oldRecords.rows.map input.key).Nodup :=
    input.unique.sublist (List.filter_sublist.map _)
  have perm := (distinct.subperm isSubset).perm_of_length_le (by simp [length])
  have keyMem := perm.mem_iff.mpr (List.mem_map_of_mem newMem)
  obtain ⟨old, oldMem, sameKey⟩ := List.mem_map.mp keyMem
  exact ⟨old, List.mem_of_mem_filter oldMem, sameKey⟩

/-- The rows that stand in the places of the new rows are their upserts. -/
theorem FillsFor.upsertedRow_eq (apart : input.IsApart)
    (length : input.newRecords.rows.length = input.oldRecords.rows.length)
    (unfilled : ∀ new ∈ input.newRecords.rows, ∀ column, column ∉ input.filledFields →
      input.upsertedRow new column = new column)
    {target : Row Column Value} (targetMem : target ∈ input.newRecords.rows)
    {pair : Row Column Value × Row Column Value} (fillsFor : input.FillsFor target pair) :
    fillRow input.filledFields pair.1 pair.2 = input.upsertedRow target := by
  funext column
  rw [fillRow]
  split_ifs with isFilled
  · obtain ⟨previous, previousMem, sameKey⟩ := apart.exists_previous length targetMem
    rw [apart.upsertedRow_of_filled targetMem isFilled previousMem sameKey]
    exact fillsFor.2 column isFilled previous previousMem sameKey
  · rw [unfilled target targetMem column isFilled]
    exact fillsFor.1 column isFilled

/-- With the condition, what is returned for the new rows are the upserted ones. -/
theorem FillsByKey.filled (fills : input.FillsByKey) :
    ∃ filled, filled.Perm (input.newRecords.rows.map input.upsertedRow) ∧
      if input.oldRecords.rows = [] then filled = input.newRecords.rows
      else ∃ table, mergeRecordsPartially input.oldRecords input.newRecords input.originalFields
        input.hash = .ok table ∧ filled = table.rows := by
  obtain ⟨apart, nulls, aligned⟩ := fills
  have unfilled : ∀ new ∈ input.newRecords.rows, ∀ column,
      (column ∈ input.filledFields → input.oldRecords.rows = []) →
        input.upsertedRow new column = new column :=
    fun new newMem => (apart.unfilled_iff newMem).mpr (nulls new newMem)
  have same (nothing : ∀ column ∈ input.filledFields, input.oldRecords.rows = []) :
      input.newRecords.rows.map input.upsertedRow = input.newRecords.rows :=
    (List.map_congr_left fun new newMem => funext fun column =>
      unfilled new newMem column (nothing column)).trans (List.map_id _)
  by_cases noOld : input.oldRecords.rows = []
  · refine ⟨_, List.Perm.of_eq (same fun _ _ => noOld).symm, ?_⟩
    rw [if_pos noOld]
  simp only [if_neg noOld]
  rcases aligned.resolve_left noOld with nothing | ⟨length, targets, perm, aligned⟩
  · obtain ⟨table, isTable, -, isRows⟩ := @mergeRecordsPartially_of_nil _ _ _ input.oldRecords
      input.newRecords input.originalFields input.hash nothing
    refine ⟨_, List.Perm.of_eq ?_, table, isTable, isRows.symm⟩
    apply (same _).symm
    intro column isFilled
    rw [nothing] at isFilled
    cases isFilled
  · obtain ⟨table, isTable, isRows⟩ := @mergeRecordsPartially_of_length _ _ _ input.oldRecords
      input.newRecords input.hash input.originalFields length
    refine ⟨_, ?_, table, isTable, rfl⟩
    have areTargets : List.Forall₂ (fun target pair => target ∈ input.newRecords.rows ∧
        input.FillsFor target pair) targets (input.newRecords.rows.zip input.oldRecords.rows) :=
      (List.forall₂_and_left _ _).mpr
        ⟨fun target targetMem => perm.mem_iff.mp targetMem, aligned⟩
    have areUpserted : table.rows = targets.map input.upsertedRow := by
      rw [isRows, ← List.map_uncurry_zip_eq_zipWith, ← List.forall₂_eq_eq_eq,
        List.forall₂_map_left_iff, List.forall₂_map_right_iff]
      refine areTargets.flip.imp ?_
      rintro pair target ⟨targetMem, fillsFor⟩
      exact fillsFor.upsertedRow_eq apart length.symm
        (fun new newMem column notFilled => unfilled new newMem column
          fun isFilled => absurd isFilled notFilled) targetMem
    rw [areUpserted]
    exact perm.map _

end FillsByKey

section OfPerm

variable {filled : List (Row Column Value)}

omit [DecidableEq Column] [DecidableEq Value] in
theorem nodup_key_newRecords : (input.newRecords.rows.map input.key).Nodup := by
  have distinct : (input.newRecords.rows.map input.hash).Nodup := nodup_map_keepLast
  rw [List.Nodup, List.pairwise_map] at distinct ⊢
  exact distinct.imp fun differ sameKey => differ (hash_congr sameKey)

/-- A row that was returned in place of a new row, with its key, is the upserted one. -/
theorem IsApart.eq_upsertedRow (apart : input.IsApart)
    (perm : (input.keptRecords.rows ++ filled).Perm input.upsertedRows)
    {new row : Row Column Value} (newMem : new ∈ input.newRecords.rows) (rowMem : row ∈ filled)
    (sameKey : input.key row = input.key new) : row = input.upsertedRow new := by
  rw [apart.upsertedRows_eq, List.perm_append_left_iff] at perm
  obtain ⟨other, otherMem, rfl⟩ := List.mem_map.mp (perm.mem_iff.mp rowMem)
  rw [key_upsertedRow] at sameKey
  rw [List.inj_on_of_nodup_map nodup_key_newRecords otherMem newMem sameKey]

/-- The new rows were returned as they are. -/
theorem fillsByKey_of_unfilled
    (perm : (input.keptRecords.rows ++ input.newRecords.rows).Perm input.upsertedRows)
    (nothing : input.oldRecords.rows = [] ∨ input.filledFields = []) : input.FillsByKey := by
  have apart := isApart_of_length rfl perm
  refine ⟨apart, fun new newMem => ?_, nothing.imp_right Or.inl⟩
  apply (apart.unfilled_iff newMem).mp
  intro column _
  rw [← apart.eq_upsertedRow perm newMem newMem rfl]

/-- The new rows were returned with columns of the old ones. -/
theorem fillsByKey_of_filled (hasOld : input.oldRecords.rows ≠ [])
    (length : input.oldRecords.rows.length = input.newRecords.rows.length)
    (perm : (input.keptRecords.rows ++ List.zipWith (fillRow input.filledFields)
      input.newRecords.rows input.oldRecords.rows).Perm input.upsertedRows) :
    input.FillsByKey := by
  have apart := isApart_of_length (by simp [length]) perm
  rw [apart.upsertedRows_eq, List.perm_append_left_iff] at perm
  -- The new rows in the order in which their upserts were returned.
  have areTargets : List.Forall₂ (fun row target => row = input.upsertedRow target)
      (input.newRecords.rows.map input.upsertedRow) input.newRecords.rows := by
    rw [List.forall₂_map_left_iff, List.forall₂_same]
    exact fun _ _ => rfl
  obtain ⟨targets, isTarget, targetsPerm⟩ := List.perm_comp_forall₂ perm areTargets
  rw [← List.map_uncurry_zip_eq_zipWith, List.forall₂_map_left_iff] at isTarget
  have isUpsert : List.Forall₂ (fun target pair => target ∈ input.newRecords.rows ∧
      fillRow input.filledFields pair.1 pair.2 = input.upsertedRow target) targets
        (input.newRecords.rows.zip input.oldRecords.rows) :=
    (List.forall₂_and_left _ _).mpr ⟨fun target targetMem => targetsPerm.mem_iff.mp targetMem,
      isTarget.flip⟩
  have nulls : ∀ new ∈ input.newRecords.rows, ∀ column ∈ input.incremental.columnNames,
      column ∉ input.primaryKeys → column ∉ input.originalFields →
        (column ∈ input.compacted.columnNames → input.oldRecords.rows = []) →
          new column = none := by
    intro new newMem column _ notKey notOriginal notFilled
    have isPlaced : new ∈ (input.newRecords.rows.zip input.oldRecords.rows).map Prod.fst := by
      rwa [List.map_fst_zip length.ge]
    obtain ⟨pair, pairMem, rfl⟩ := List.mem_map.mp isPlaced
    obtain ⟨target, -, targetMem, same⟩ := exists_of_forall₂ isUpsert.flip pairMem
    have notProvided : ¬input.IsProvided column := fun provided => notOriginal provided.2
    have sameCell := congrFun same column
    rw [fillRow, if_neg fun isFilled => hasOld (notFilled (mem_filledFields.mp isFilled).1),
      apart.upsertedRow_apply targetMem, if_neg (not_or.mpr ⟨notKey, notProvided⟩)] at sameCell
    rw [sameCell]
    exact apart.oldCell_eq_none notFilled targetMem
  refine ⟨apart, nulls, Or.inr (Or.inr ⟨length, targets, targetsPerm, isUpsert.imp ?_⟩)⟩
  rintro target pair ⟨targetMem, same⟩
  constructor
  · intro column notFilled
    have sameCell := congrFun same column
    rw [fillRow, if_neg notFilled] at sameCell
    rw [sameCell]
    exact (apart.unfilled_iff targetMem).mpr (nulls target targetMem) column
      fun isFilled => absurd isFilled notFilled
  · intro column isFilled previous previousMem sameKey
    have sameCell := congrFun same column
    rw [fillRow, if_pos isFilled] at sameCell
    rw [sameCell]
    exact apart.upsertedRow_of_filled targetMem isFilled previousMem sameKey

end OfPerm

/--
The merge is a partial upsert if and only if the keys are told apart, what is not provided is
null, and the old rows stand where the new ones that they fill do.
-/
theorem mergeTables_isPartialUpsert (input : UpsertInput Column Value) :
    (∃ merged, mergeTables input.hashing input.incremental input.primaryKeys true
      input.originalFields (some input.compacted) = .ok merged ∧
        input.IsPartialUpsert merged.rows) ↔ input.FillsByKey := by
  constructor
  · rintro ⟨merged, isMerged, isUpsert⟩
    obtain ⟨filled, isRows, isFilled⟩ := mergeTables_rows_iff.mp ⟨merged, isMerged, rfl⟩
    rw [isPartialUpsert_iff_perm, isRows] at isUpsert
    split_ifs at isFilled with noOld
    · exact fillsByKey_of_unfilled (isFilled ▸ isUpsert) (Or.inl noOld)
    · obtain ⟨table, isTable, rfl⟩ := isFilled
      by_cases nothing : input.filledFields = []
      · obtain ⟨other, isOther, -, sameRows⟩ := mergeRecordsPartially_of_nil nothing
        cases isTable.symm.trans isOther
        exact fillsByKey_of_unfilled (sameRows ▸ isUpsert) (Or.inr nothing)
      · have length := length_of_mergeRecordsPartially isTable nothing
        obtain ⟨other, isOther, sameRows⟩ :=
          mergeRecordsPartially_of_length input.originalFields length
        cases isTable.symm.trans isOther
        exact fillsByKey_of_filled noOld length (sameRows ▸ isUpsert)
  · intro fills
    obtain ⟨filled, perm, isFilled⟩ := fills.filled
    obtain ⟨merged, isMerged, isRows⟩ := mergeTables_rows_iff.mpr ⟨filled, rfl, isFilled⟩
    refine ⟨merged, isMerged, isPartialUpsert_iff_perm.mpr ?_⟩
    rw [isRows, fills.apart.upsertedRows_eq]
    exact perm.append_left _

section Examples

/-- Numbers are cast to decimal numerals, and these are short. -/
def decimalHashing : KeyHashing ℕ where
  stringCast number := toString number
  sha1 text := text
  nbytes texts := 4 * (texts.length + 1) + (texts.map String.utf8ByteSize).sum
  sha1Disabled := false

/-- A table of identifiers with their values. -/
def valueTable (rows : List (ℕ × ℕ)) : Table String ℕ where
  columnNames := ["id", "value"]
  rows := rows.map fun row column =>
    if column = "id" then some row.1 else if column = "value" then some row.2 else none
  absent := by
    simp only [List.mem_map]
    rintro _ ⟨row, -, rfl⟩ column absent
    simp only [List.mem_cons, List.not_mem_nil, or_false, not_or] at absent
    simp [absent.1, absent.2]

/-- A table of identifiers only. -/
def idTable (ids : List ℕ) : Table String ℕ where
  columnNames := ["id"]
  rows := ids.map fun id column => if column = "id" then some id else none
  absent := by
    simp only [List.mem_map]
    rintro _ ⟨id, -, rfl⟩ column absent
    exact if_neg (by simpa using absent)

/-- The upsert of identifiers into a table with the identifiers 1 and 2. -/
def upsertOfIds (ids : List ℕ) : UpsertInput String ℕ where
  hashing := decimalHashing
  primaryKeys := ["id"]
  originalFields := ["id"]
  compacted := valueTable [(1, 10), (2, 20)]
  incremental := idTable ids
  nonempty := by simp
  keyed := by simp [idTable]
  keyedCompacted := by simp [valueTable]
  unique := by decide

theorem mergeTables_isPartialUpsert_inOrder :
    (upsertOfIds [1, 2]).FillsByKey ∧ ∃ merged, mergeTables decimalHashing (idTable [1, 2]) ["id"]
      true ["id"] (some (valueTable [(1, 10), (2, 20)])) = .ok merged ∧
        (upsertOfIds [1, 2]).IsPartialUpsert merged.rows := by
  have fills : (upsertOfIds [1, 2]).FillsByKey := by
    refine ⟨?_, ?_, Or.inr (Or.inr ⟨by decide +kernel, _, List.Perm.refl _, ?_⟩)⟩
    · unfold IsApart
      decide +kernel
    · decide +kernel
    · refine List.Forall₂.cons ⟨?_, ?_⟩ (List.Forall₂.cons ⟨?_, ?_⟩ List.Forall₂.nil)
      · exact fun _ _ => rfl
      · decide +kernel
      · exact fun _ _ => rfl
      · decide +kernel
  exact ⟨fills, (mergeTables_isPartialUpsert (upsertOfIds [1, 2])).mpr fills⟩

/-- With the identifiers in another order, each row gets the value of the other. -/
theorem not_mergeTables_isPartialUpsert :
    ¬∃ merged, mergeTables decimalHashing (idTable [2, 1]) ["id"] true ["id"]
      (some (valueTable [(1, 10), (2, 20)])) = .ok merged ∧
        (upsertOfIds [2, 1]).IsPartialUpsert merged.rows := by
  rintro ⟨merged, isMerged, isUpsert⟩
  have rows : (mergeTables decimalHashing (idTable [2, 1]) ["id"] true ["id"]
      (some (valueTable [(1, 10), (2, 20)]))).toOption.map (fun table =>
        table.rows.map fun row => (row "id", row "value")) =
          some [(some 2, some 10), (some 1, some 20)] := by
    decide +kernel
  rw [isMerged] at rows
  simp only [Except.toOption, Option.map_some, Option.some.injEq] at rows
  have rowMem : (some 2, some 10) ∈ merged.rows.map fun row => (row "id", row "value") := by
    simp [rows]
  obtain ⟨row, rowMem, isRow⟩ := List.mem_map.mp rowMem
  obtain ⟨isId, isValue⟩ := Prod.mk.inj isRow
  have cell := isUpsert.cells row rowMem "value" (by decide)
  have isKey : (upsertOfIds [2, 1]).key row = [some 2] := by
    simp [UpsertInput.key, keyOf, upsertOfIds, isId]
  have expected : (upsertOfIds [2, 1]).upsertedCell [some 2] "value" = some 20 := by
    decide +kernel
  rw [isKey, expected, isValue] at cell
  cases cell

end Examples

end UpsertInput

end Deltacat.Compute.CompactorV2
