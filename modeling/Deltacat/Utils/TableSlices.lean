import Deltacat.Exceptions
import Mathlib.Tactic

/-!
# Slices of Arrow tables

An Arrow table is given by its schema and its rows. Slices are views of consecutive rows,
and only tables of one schema can be concatenated. What is used of `pa.concat_tables` is
the same for all representations of tables (`ConcatTables`).
-/

namespace Deltacat.Utils

universe u v w

/--
`pa.concat_tables` without promotion of types: tables can be put together if there is at least
one and all have the same schema.
-/
structure ConcatTables (Table : Type u) {Row : Type v} (rowsOf : Table → List Row)
    (SameSchema : Table → Table → Prop) where
  concatTables : List Table → Except Error Table
  nil : concatTables [] = .error .arrowInvalid
  sameSchema : ∀ {tables result}, concatTables tables = .ok result →
    ∀ table ∈ tables, SameSchema table result
  rows : ∀ {tables result}, concatTables tables = .ok result →
    rowsOf result = tables.flatMap rowsOf
  succeeds : ∀ {tables}, tables ≠ [] →
    (∀ left ∈ tables, ∀ right ∈ tables, SameSchema left right) →
      ∃ result, concatTables tables = .ok result

/-- The concatenation of tables whose rows can be replaced. -/
def ConcatTables.ofRows {Table : Type u} {Row : Type v} {Schema : Type w} [DecidableEq Schema]
    {rowsOf : Table → List Row} (schemaOf : Table → Schema) (withRows : Table → List Row → Table)
    (schema : ∀ table rows, schemaOf (withRows table rows) = schemaOf table)
    (rows : ∀ table rows, rowsOf (withRows table rows) = rows) :
    ConcatTables Table rowsOf fun left right => schemaOf left = schemaOf right where
  concatTables
    | [] => .error .arrowInvalid
    | first :: rest =>
        if ∀ table ∈ rest, schemaOf table = schemaOf first then
          .ok (withRows first ((first :: rest).flatMap rowsOf))
        else .error .arrowInvalid
  nil := rfl
  sameSchema := by
    rintro (_ | ⟨first, rest⟩) result isResult table tableMem
    · cases tableMem
    · simp only at isResult
      split_ifs at isResult with same
      cases isResult
      rw [schema]
      rcases List.mem_cons.mp tableMem with rfl | isLater
      · rfl
      · exact same table isLater
  rows := by
    rintro (_ | ⟨first, rest⟩) result isResult
    · cases isResult
    · simp only at isResult
      split_ifs at isResult
      cases isResult
      exact rows _ _
  succeeds := by
    rintro (_ | ⟨first, rest⟩) nonempty same
    · exact absurd rfl nonempty
    · refine ⟨_, if_pos fun table tableMem => ?_⟩
      exact same table (List.mem_cons_of_mem _ tableMem) first List.mem_cons_self

structure ArrowTable (Schema : Type u) (Row : Type v) where
  schema : Schema
  rows : List Row

namespace ArrowTable

variable {Schema : Type u} {Row : Type v}

def length (table : ArrowTable Schema Row) : ℕ := table.rows.length

/-- `table.slice`, up to the end of the table unless there is a length. -/
def slice (table : ArrowTable Schema Row) (offset : ℕ) (length : Option ℕ) :
    ArrowTable Schema Row :=
  { table with
    rows := match length with
      | none => table.rows.drop offset
      | some length => (table.rows.drop offset).take length }

/-- `pa.concat_tables` for these tables. -/
abbrev Concat (Schema : Type u) (Row : Type v) :=
  ConcatTables (ArrowTable Schema Row) rows fun left right => left.schema = right.schema

/-- The loop of `slice_table`, which needs a positive length to end. -/
def sliceLoop (table : ArrowTable Schema Row) (maxLen : ℕ+) (offset recordsRemaining : ℕ) :
    List (ArrowTable Schema Row) :=
  if 0 < recordsRemaining then
    let recordsThisEntry := min maxLen.val recordsRemaining
    table.slice offset (some recordsThisEntry) ::
      sliceLoop table maxLen (offset + recordsThisEntry) (recordsRemaining - recordsThisEntry)
  else []
termination_by recordsRemaining
decreasing_by
  have positive := maxLen.pos
  omega

def sliceTable (table : ArrowTable Schema Row) :
    Option ℕ+ → List (ArrowTable Schema Row)
  | none => [table]
  | some maxLen => sliceLoop table maxLen 0 table.length

/-- The rows of several tables, one table after the other. -/
def allRows (tables : List (ArrowTable Schema Row)) : List Row := tables.flatMap (·.rows)

@[simp] theorem allRows_nil : allRows ([] : List (ArrowTable Schema Row)) = [] := rfl

@[simp] theorem allRows_append (left right : List (ArrowTable Schema Row)) :
    allRows (left ++ right) = allRows left ++ allRows right :=
  List.flatMap_append

@[simp] theorem allRows_singleton (table : ArrowTable Schema Row) :
    allRows [table] = table.rows := by
  simp [allRows]

theorem sliceLoop_zero {table : ArrowTable Schema Row} {maxLen : ℕ+} {offset : ℕ} :
    sliceLoop table maxLen offset 0 = [] := by
  rw [sliceLoop]
  rfl

theorem sliceLoop_pos {table : ArrowTable Schema Row} {maxLen : ℕ+} {offset recordsRemaining : ℕ}
    (remains : 0 < recordsRemaining) :
    sliceLoop table maxLen offset recordsRemaining =
      table.slice offset (some (min maxLen.val recordsRemaining)) ::
        sliceLoop table maxLen (offset + min maxLen.val recordsRemaining)
          (recordsRemaining - min maxLen.val recordsRemaining) := by
  rw [sliceLoop, if_pos remains]

/-- The slices are consecutive, and none is longer than the maximum. -/
theorem sliceLoop_spec (table : ArrowTable Schema Row) (maxLen : ℕ+) (offset recordsRemaining : ℕ)
    (atEnd : offset + recordsRemaining = table.length) :
    allRows (sliceLoop table maxLen offset recordsRemaining) = table.rows.drop offset ∧
      ∀ slice ∈ sliceLoop table maxLen offset recordsRemaining, slice.length ≤ maxLen := by
  induction recordsRemaining using Nat.strong_induction_on generalizing offset with
  | _ recordsRemaining ih =>
      rcases Nat.eq_zero_or_pos recordsRemaining with rfl | remains
      · rw [sliceLoop_zero]
        have ended : table.rows.length ≤ offset := by
          rw [ArrowTable.length] at atEnd
          omega
        simpa using ended
      · have positive := maxLen.pos
        have rest := ih (recordsRemaining - min maxLen.val recordsRemaining) (by omega)
          (offset + min maxLen.val recordsRemaining) (by omega)
        rw [sliceLoop_pos remains]
        constructor
        · rw [allRows, List.flatMap_cons, ← allRows, rest.1, slice, ← List.drop_drop]
          exact List.take_append_drop _ _
        · rw [List.forall_mem_cons]
          refine ⟨?_, rest.2⟩
          simp only [slice, ArrowTable.length, List.length_take]
          omega

end ArrowTable

end Deltacat.Utils
