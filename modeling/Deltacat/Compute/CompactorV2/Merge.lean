import Deltacat.Compute.CompactorV2.KeyStrings
import Deltacat.Library.Grouping
import Deltacat.Library.Procedure

/-!
# Merging a table into the compacted table

Of the rows of an incremental table that have one key, the last one is kept. It
takes the place of the row with this key in the compacted table. Columns that the
user did not provide are meant to keep their old values: they are copied from the
rows that are replaced.
-/

namespace Deltacat.Compute.CompactorV2

open Deltacat.Library Deltacat.Utils

universe u

variable {Column Value : Type u}

/-- The last row of each string. -/
def dropDuplicates (hash : Row Column Value → String) (table : Table Column Value) :
    Table Column Value where
  columnNames := table.columnNames
  rows := keepLast hash table.rows
  absent row rowMem := table.absent row ((keepLast_sublist hash table.rows).subset rowMem)

variable [DecidableEq Column]

section MergeRecordsPartially

variable (oldRecords newRecords : Table Column Value) (originalFields : List Column)

def missingFields : List Column :=
  oldRecords.columnNames.filter (· ∉ newRecords.columnNames)

/-- The fields that were added when the user's data was coerced to the schema. -/
def autoAddedNullFields : List Column :=
  oldRecords.columnNames.filter fun field =>
    field ∈ newRecords.columnNames ∧ field ∉ originalFields

def fieldsToFill : List Column :=
  missingFields oldRecords newRecords ++ autoAddedNullFields oldRecords newRecords originalFields

/--
Whole columns are taken from the old records, whatever the order of the rows. They have to be
as long as the column of key strings, which stays with the new records.
-/
def mergeRecordsPartially (hash : Row Column Value → String) : Except Error (Table Column Value) :=
  Table.ofColumns (newRecords.rows.map hash)
    (newRecords.columnNames ++ missingFields oldRecords newRecords) fun name =>
      if name ∈ fieldsToFill oldRecords newRecords originalFields then oldRecords.column name
      else newRecords.column name

end MergeRecordsPartially

/-- The rows of the compacted table that have the key of an incremental row. -/
def recordsToUpdate (hash : Row Column Value → String) (incremental : Table Column Value)
    (row : Row Column Value) : Bool :=
  hash row ∈ incremental.rows.map hash

/--
A compacted table without rows counts as none. No table that is merged has the column
of delta types: it is only added to the rows of deletes, which are applied elsewhere.
-/
def mergeTables (hashing : KeyHashing Value) (table : Table Column Value)
    (primaryKeys : List Column) (canDropDuplicates : Bool) (originalFields : List Column)
    (compactedTable : Option (Table Column Value)) : Except Error (Table Column Value) := do
  let allTables :=
    (compactedTable.filter fun compacted => !compacted.rows.isEmpty).toList ++ [table]
  if primaryKeys = [] ∨ ¬canDropDuplicates then return Table.concatOrCoerceTables allTables
  let hashOfKey ← generatePkHashColumn hashing allTables primaryKeys false
  let hash := fun row => hashOfKey (keyOf primaryKeys row)
  let incrementalTable := dropDuplicates hash table
  match compactedTable.filter fun compacted => !compacted.rows.isEmpty with
  | none => return Table.concatOrCoerceTables [incrementalTable]
  | some compacted =>
      let oldRecordsToUpdate := compacted.filter (recordsToUpdate hash incrementalTable)
      let kept := compacted.filter fun row => !recordsToUpdate hash incrementalTable row
      if oldRecordsToUpdate.rows.isEmpty then
        return Table.concatOrCoerceTables [kept, incrementalTable]
      else
        let incrementalData ←
          mergeRecordsPartially oldRecordsToUpdate incrementalTable originalFields hash
        return Table.concatOrCoerceTables [kept, incrementalData]

section Fill

variable {oldRecords newRecords : Table Column Value} {originalFields : List Column}
  {hash : Row Column Value → String}

theorem mem_fieldsToFill {field : Column} :
    field ∈ fieldsToFill oldRecords newRecords originalFields ↔
      field ∈ oldRecords.columnNames ∧
        (field ∉ newRecords.columnNames ∨ field ∉ originalFields) := by
  simp only [fieldsToFill, missingFields, autoAddedNullFields, List.mem_append, List.mem_filter,
    decide_eq_true_eq]
  tauto

/-- Fields that are filled are columns of the result. -/
theorem mem_columnNames_of_fieldsToFill {field : Column}
    (fieldMem : field ∈ fieldsToFill oldRecords newRecords originalFields) :
    field ∈ newRecords.columnNames ++ missingFields oldRecords newRecords := by
  by_cases inNew : field ∈ newRecords.columnNames
  · exact List.mem_append_left _ inNew
  · apply List.mem_append_right
    exact List.mem_filter.mpr ⟨(mem_fieldsToFill.mp fieldMem).1, by simpa using inNew⟩

/-- A new row with the cells of an old row in the given fields. -/
def fillRow (fields : List Column) (newRow oldRow : Row Column Value) : Row Column Value :=
  fun name => if name ∈ fields then oldRow name else newRow name

omit [DecidableEq Column] in
private theorem join_getElem?_column {table : Table Column Value} {index : ℕ} {name : Column}
    (less : index < table.rows.length) :
    (table.column name)[index]?.join = table.rows[index] name := by
  simp [Table.column, less]

theorem mergeRecordsPartially_of_nil
    (nothing : fieldsToFill oldRecords newRecords originalFields = []) :
    ∃ merged, mergeRecordsPartially oldRecords newRecords originalFields hash = .ok merged ∧
      merged.columnNames = newRecords.columnNames ∧ merged.rows = newRecords.rows := by
  have noneMissing : missingFields oldRecords newRecords = [] :=
    (List.append_eq_nil_iff.mp nothing).1
  have lengths : ∀ name ∈ newRecords.columnNames,
      (newRecords.column name).length = (newRecords.rows.map hash).length := by
    simp [Table.column]
  obtain ⟨merged, isMerged, areColumns, isRows⟩ := Table.ofColumns_of_length lengths
  refine ⟨merged, ?_, areColumns, ?_⟩
  · simpa [mergeRecordsPartially, nothing, noneMissing] using isMerged
  · rw [isRows]
    apply List.ext_getElem
    · simp
    · intro index _ less
      funext name
      simp only [List.getElem_map, List.getElem_range]
      split_ifs with nameMem
      · exact join_getElem?_column less
      · exact (newRecords.absent _ (List.getElem_mem less) name nameMem).symm

theorem mergeRecordsPartially_of_length (originalFields : List Column)
    (length : oldRecords.rows.length = newRecords.rows.length) :
    ∃ merged, mergeRecordsPartially oldRecords newRecords originalFields hash = .ok merged ∧
      merged.rows = List.zipWith (fillRow (fieldsToFill oldRecords newRecords originalFields))
        newRecords.rows oldRecords.rows := by
  let fields := fieldsToFill oldRecords newRecords originalFields
  let names := newRecords.columnNames ++ missingFields oldRecords newRecords
  let columns := fun name =>
    if name ∈ fields then oldRecords.column name else newRecords.column name
  have lengths : ∀ name ∈ names, (columns name).length = (newRecords.rows.map hash).length := by
    intro name _
    simp only [columns]
    split_ifs
    · simp [Table.column, length]
    · simp [Table.column]
  obtain ⟨merged, isMerged, -, isRows⟩ := Table.ofColumns_of_length lengths
  refine ⟨merged, isMerged, ?_⟩
  rw [isRows]
  apply List.ext_getElem
  · simp [length]
  · intro index less _
    have newLess : index < newRecords.rows.length := by simpa using less
    have oldLess : index < oldRecords.rows.length := length ▸ newLess
    funext name
    simp only [List.getElem_map, List.getElem_range, List.getElem_zipWith, fillRow, columns]
    by_cases isFilled : name ∈ fields
    · have nameMem : name ∈ names := mem_columnNames_of_fieldsToFill isFilled
      rw [if_pos nameMem, if_pos isFilled, if_pos isFilled]
      exact join_getElem?_column oldLess
    · rw [if_neg isFilled, if_neg isFilled]
      split_ifs with nameMem
      · exact join_getElem?_column newLess
      · apply (newRecords.absent _ (List.getElem_mem newLess) name _).symm
        exact fun inNew => nameMem (List.mem_append_left _ inNew)

/-- If columns are filled, the tables must be equally long. -/
theorem length_of_mergeRecordsPartially {merged : Table Column Value}
    (isMerged : mergeRecordsPartially oldRecords newRecords originalFields hash = .ok merged)
    (something : fieldsToFill oldRecords newRecords originalFields ≠ []) :
    oldRecords.rows.length = newRecords.rows.length := by
  obtain ⟨field, fieldMem⟩ := List.exists_mem_of_ne_nil _ something
  have isColumn := mem_columnNames_of_fieldsToFill fieldMem
  have lengths := Table.length_of_ofColumns isMerged isColumn
  simpa [fieldMem, Table.column] using lengths

end Fill

end Deltacat.Compute.CompactorV2
