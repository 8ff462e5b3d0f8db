import Deltacat.Utils.TableSlices
import Mathlib.Data.List.Dedup
import Mathlib.Tactic

/-!
# Arrow tables

A table has named columns of equal length, whose cells may be null. It is
represented by its rows; columns can be read out of it, and columns can be put
beside one of strings, which raises if they are not equally long.
-/

namespace Deltacat.Utils

universe u

/-- The cells of a row, which are null for columns that its table does not have. -/
abbrev Row (Column Value : Type u) := Column → Option Value

structure Table (Column Value : Type u) where
  columnNames : List Column
  rows : List (Row Column Value)
  absent : ∀ row ∈ rows, ∀ column ∉ columnNames, row column = none

namespace Table

/-- Tables with the same columns, of the same types; the types are not part of the tables. -/
def SameSchema {Column Value : Type u}
    (SameTypes : Table Column Value → Table Column Value → Prop)
    (left right : Table Column Value) : Prop :=
  left.columnNames = right.columnNames ∧ SameTypes left right

variable {Column Value : Type u} [DecidableEq Column]

def filter (table : Table Column Value) (mask : Row Column Value → Bool) : Table Column Value where
  columnNames := table.columnNames
  rows := table.rows.filter mask
  absent row rowMem := table.absent row (List.mem_of_mem_filter rowMem)

def column (table : Table Column Value) (name : Column) : List (Option Value) :=
  table.rows.map (· name)

/--
`_concat_or_coerce_tables`, of at least one table: `pa.concat_tables`, with permissive promotion
if the schemas differ. Columns that only some of the tables have are filled with nulls.
-/
def concatOrCoerceTables (tables : List (Table Column Value)) : Table Column Value where
  columnNames := (tables.flatMap columnNames).dedup
  rows := tables.flatMap rows
  absent row rowMem column absent := by
    obtain ⟨table, tableMem, rowMem⟩ := List.mem_flatMap.mp rowMem
    apply table.absent row rowMem
    intro columnMem
    exact absent (List.mem_dedup.mpr (List.mem_flatMap.mpr ⟨table, tableMem, columnMem⟩))

/--
`pa.table` of a dictionary that has a column of strings beside the given ones. The strings
are not kept, but the other columns have to be as long.
-/
def ofColumns (strings : List String) (names : List Column)
    (columns : Column → List (Option Value)) : Except Error (Table Column Value) :=
  if ∀ name ∈ names, (columns name).length = strings.length then
    .ok {
      columnNames := names
      rows := (List.range strings.length).map fun index name =>
        if name ∈ names then (columns name)[index]?.join else none
      absent := by
        simp only [List.mem_map]
        rintro _ ⟨index, -, rfl⟩ column absent
        exact if_neg absent }
  else .error .arrowInvalid

variable {strings : List String} {names : List Column} {columns : Column → List (Option Value)}

theorem ofColumns_of_length
    (lengths : ∀ name ∈ names, (columns name).length = strings.length) :
    ∃ table, ofColumns strings names columns = .ok table ∧ table.columnNames = names ∧
      table.rows = (List.range strings.length).map fun index name =>
        if name ∈ names then (columns name)[index]?.join else none :=
  ⟨_, if_pos lengths, rfl, rfl⟩

theorem length_of_ofColumns {table : Table Column Value}
    (isTable : ofColumns strings names columns = .ok table) {name : Column}
    (nameMem : name ∈ names) : (columns name).length = strings.length := by
  rw [ofColumns] at isTable
  split_ifs at isTable with lengths
  exact lengths name nameMem

/-- The concatenation of tables, of which those with the same columns have the same types. -/
def concatSameColumns : ConcatTables (Table Column Value) rows (SameSchema fun _ _ => True) where
  concatTables
    | [] => .error .arrowInvalid
    | first :: rest =>
        if same : ∀ table ∈ rest, table.columnNames = first.columnNames then
          .ok {
            columnNames := first.columnNames
            rows := (first :: rest).flatMap rows
            absent := fun row rowMem column isOther => by
              rcases List.mem_flatMap.mp rowMem with ⟨table, tableMem, rowMem⟩
              apply table.absent row rowMem
              rcases List.mem_cons.mp tableMem with rfl | tableMem
              · exact isOther
              · rw [same table tableMem]
                exact isOther }
        else .error .arrowInvalid
  nil := rfl
  sameSchema := by
    rintro (_ | ⟨first, rest⟩) result isResult table tableMem
    · cases tableMem
    · simp only at isResult
      split_ifs at isResult with same
      cases isResult
      refine ⟨?_, trivial⟩
      rcases List.mem_cons.mp tableMem with rfl | isLater
      · rfl
      · exact same table isLater
  rows := by
    rintro (_ | ⟨first, rest⟩) result isResult
    · cases isResult
    · simp only at isResult
      split_ifs at isResult
      cases isResult
      rfl
  succeeds := by
    rintro (_ | ⟨first, rest⟩) nonempty same
    · exact absurd rfl nonempty
    · refine ⟨_, dif_pos fun table tableMem => ?_⟩
      exact (same table (List.mem_cons_of_mem _ tableMem) first List.mem_cons_self).1

end Table

end Deltacat.Utils
