import Deltacat.Library.HalfOpenRanges
import Deltacat.Library.Procedure
import Deltacat.Utils.TableSlices
import Mathlib.Data.List.Sort
import Mathlib.Tactic
import Std.Data.String.ToNat

/-!
# Range repartitioning

`repartition_range` cuts the values of a column into the ranges `(-inf, x]`, `(x, y]`, ...,
`(z, inf)` and stages the rows of each range as a delta. The open ends are represented by
the extreme 64-bit values; as the ranges exclude their lower limit, a row with the least
value is in none of them, and the final assertion fails.

The rows of a table are given by their cells, by the names of the columns. A delta is
represented by the table that it is staged with.
-/

namespace Deltacat.Compute.Compactor

open Deltacat.Library

def signedInt64MinValue : ℤ := -(2 ^ 63)

def signedInt64MaxValue : ℤ := 2 ^ 63 - 1

/-- A signed integer of 64 bits. -/
@[ext] structure SignedInt64 where
  value : ℤ
  minLe : signedInt64MinValue ≤ value
  leMax : value ≤ signedInt64MaxValue

namespace SignedInt64

instance : LinearOrder SignedInt64 :=
  @LinearOrder.lift' SignedInt64 ℤ Int.instLinearOrder SignedInt64.value fun _ _ => SignedInt64.ext

def least : SignedInt64 := ⟨signedInt64MinValue, by decide, by decide⟩

def greatest : SignedInt64 := ⟨signedInt64MaxValue, by decide, by decide⟩

theorem least_le (value : SignedInt64) : least ≤ value := value.minLe

theorem le_greatest (value : SignedInt64) : value ≤ greatest := value.leMax

end SignedInt64

variable {Value : Type}

/-- The cells of a row, by the names of the columns. -/
abbrev Row (Value : Type) := String → Value

/-- An Arrow table: the names and types of its columns, and its rows. -/
structure Table (Value : Type) where
  schema : List (String × String)
  rows : List (Row Value)

def Table.columnNames (table : Table Value) : List String := table.schema.map Prod.fst

/-- A table with an added first column of integers. -/
structure Int64Table (Value : Type) where
  name : String
  schema : List (String × String)
  rows : List (Option SignedInt64 × Row Value)

namespace Int64Table

/-- `table.add_column`, with the cast of another column. -/
def ofTable (cast : Value → Except Error (Option SignedInt64)) (column name : String)
    (table : Table Value) : Except Error (Int64Table Value) := do
  let rows ← table.rows.mapM fun row => return (← cast (row column), row)
  return { name, schema := table.schema, rows }

/-- `filter` by an expression of the added column, whose name must not be ambiguous. -/
def filter (test : Option SignedInt64 → Bool) (table : Int64Table Value) :
    Except Error (Int64Table Value) :=
  if table.name ∈ table.schema.map Prod.fst then .error .arrowInvalid
  else .ok { table with rows := table.rows.filter fun row => test row.1 }

/-- The added column and the other ones. -/
def fields (table : Int64Table Value) : String × List (String × String) :=
  (table.name, table.schema)

/-- `pa.concat_tables` for these tables. -/
abbrev Concat (Value : Type) :=
  Utils.ConcatTables (Int64Table Value) rows fun left right => left.fields = right.fields

/-- `drop` of the columns with the name of the added one. -/
def drop (table : Int64Table Value) : Table Value where
  schema := table.schema.filter (·.1 ≠ table.name)
  rows := table.rows.map Prod.snd

end Int64Table

/-- `generate_unique_name`: the first counter that gives a new name. -/
def generateUniqueName (baseName : String) (existingNames : List String) : String :=
  let unused := (List.range' 1 (existingNames.length + 1)).find? fun counter =>
    baseName ++ counter.repr ∉ existingNames
  -- One of the counters is unused.
  baseName ++ (unused.getD 0).repr

/-- The tables that the ranges get from one table. -/
def partitionTable (cast : Value → Except Error (Option SignedInt64)) (column name : String)
    (partitionRanges : List (SignedInt64 × SignedInt64)) (table : Table Value) :
    Except Error (List (List (Int64Table Value))) := do
  let tableNew ← Int64Table.ofTable cast column name table
  let nullRowTable ← tableNew.filter Option.isNone
  partitionRanges.zipIdx.mapM fun range => do
    let inRange ← tableNew.filter (·.any fun value => range.1.1 < value ∧ value ≤ range.1.2)
    return if range.2 = 0 then [inRange, nullRowTable] else [inRange]

/-- Concatenate the tables of a range and stage them, unless there are no rows. -/
def stagePartition (concat : Int64Table.Concat Value) (staged : List (Table Value))
    (partitionTables : List (Int64Table Value)) : Except Error (List (Table Value)) := do
  let partitionTable := (← concat.concatTables partitionTables).drop
  return if partitionTable.rows.isEmpty then staged else staged ++ [partitionTable]

/-- `repartition_range`; the result are the tables of the range deltas. -/
def repartitionRange (concat : Int64Table.Concat Value)
    (cast : Value → Except Error (Option SignedInt64)) (tables : List (Table Value))
    (column : String) (ranges : List SignedInt64) : Except Error (List (Table Value)) :=
  if ranges = [] then .error .valueError
  else if ¬∀ table ∈ tables, column ∈ table.columnNames then .error .valueError
  else
    let partitionRanges := limits SignedInt64.least SignedInt64.greatest
      (ranges.insertionSort (· ≤ ·))
    match tables with
    | [] => .error .indexError
    | first :: _ => do
        let colNameInt64 := generateUniqueName (column ++ "_int64") first.columnNames
        let partitionedTablesList ← tables.foldlM (fun tablesList table => do
            let added ← partitionTable cast column colNameInt64 partitionRanges table
            return List.zipWith (· ++ ·) tablesList added)
          (List.replicate partitionRanges.length [])
        let partitionDeltas ← partitionedTablesList.foldlM (stagePartition concat) []
        let totalRecordCount := (tables.map (·.rows.length)).sum
        if (partitionDeltas.map (·.rows.length)).sum = totalRecordCount then return partitionDeltas
        else .error .assertionError

section Names

theorem generateUniqueName_not_mem (baseName : String) (existingNames : List String) :
    generateUniqueName baseName existingNames ∉ existingNames := by
  have injective : Function.Injective fun counter : ℕ => baseName ++ counter.repr := by
    intro left right same
    exact Nat.repr_injective (String.append_right_inj baseName |>.mp same)
  have exists_unused : ∃ counter ∈ List.range' 1 (existingNames.length + 1),
      baseName ++ counter.repr ∉ existingNames := by
    by_contra allUsed
    push Not at allUsed
    have nodup : ((List.range' 1 (existingNames.length + 1)).map fun counter =>
        baseName ++ counter.repr).Nodup :=
      List.Nodup.map injective List.nodup_range'
    have sub : ((List.range' 1 (existingNames.length + 1)).map fun counter =>
        baseName ++ counter.repr) ⊆ existingNames := by
      intro name nameMem
      rcases List.mem_map.mp nameMem with ⟨counter, counterMem, rfl⟩
      exact allUsed counter counterMem
    have short := (nodup.subperm sub).length_le
    simp at short
  cases found : (List.range' 1 (existingNames.length + 1)).find? fun counter =>
      decide (baseName ++ counter.repr ∉ existingNames) with
  | none =>
      rcases exists_unused with ⟨counter, counterMem, unused⟩
      have used := List.find?_eq_none.mp found counter counterMem
      simp [unused] at used
  | some counter =>
      have unused := List.find?_some found
      rw [generateUniqueName, found]
      simpa using unused

end Names

section Specification

variable (concat : Int64Table.Concat Value) (cast : Value → Except Error (Option SignedInt64))
  (column : String)

/-- The value of the column in a row, as an integer. -/
def castValue (row : Row Value) : Option SignedInt64 :=
  (cast (row column)).toOption.join

/-- Null rows belong to the first range, other rows to the one that contains their value. -/
def BelongsTo (bounds : List SignedInt64) (index : ℕ) : Option SignedInt64 → Prop
  | none => index = 0
  | some value => InRange bounds index value

/-- The column exists in all tables, and its cells can be converted. -/
def Convertible (tables : List (Table Value)) : Prop :=
  ∀ table ∈ tables, column ∈ table.columnNames ∧
    ∀ row ∈ table.rows, ∃ value, cast (row column) = .ok value

/--
The repartitioning succeeds. The rows of all tables are divided among the ranges, each to
the one it belongs to, and the rows of each range that has any are staged as a table with
the original columns.
-/
def Repartitions (tables : List (Table Value)) (ranges : List SignedInt64) : Prop :=
  ∃ staged : List (Table Value), repartitionRange concat cast tables column ranges = .ok staged ∧
    ∃ groups : List (List (Row Value)), groups.length = ranges.length + 1 ∧
      groups.flatten.Perm (tables.flatMap (·.rows)) ∧
      (∀ index group, groups[index]? = some group → ∀ row ∈ group,
        BelongsTo (ranges.insertionSort (· ≤ ·)) index (castValue cast column row)) ∧
      staged.map (·.rows) = groups.filter (! ·.isEmpty) ∧
      ∀ partition ∈ staged, ∀ table ∈ tables, partition.schema = table.schema

end Specification

section Loops

variable {concat : Int64Table.Concat Value}
  {cast : Value → Except Error (Option SignedInt64)} {column name : String}
  {partitionRanges : List (SignedInt64 × SignedInt64)} {tables : List (Table Value)}

/-- The rows of a table with the integers of the column. -/
def int64Table (cast : Value → Except Error (Option SignedInt64)) (column name : String)
    (table : Table Value) : Int64Table Value where
  name := name
  schema := table.schema
  rows := table.rows.map fun row => (castValue cast column row, row)

/-- Whether a value is within the limits of the range with a number. -/
def inLimits (partitionRanges : List (SignedInt64 × SignedInt64)) (index : ℕ)
    (value : Option SignedInt64) : Bool :=
  value.any fun value => partitionRanges[index]?.any fun limit =>
    limit.1 < value ∧ value ≤ limit.2

/-- A selection of the rows of a table. -/
def selectRows (cast : Value → Except Error (Option SignedInt64)) (column name : String)
    (test : Option SignedInt64 → Bool) (table : Table Value) : Int64Table Value :=
  { int64Table cast column name table with
    rows := (int64Table cast column name table).rows.filter fun row => test row.1 }

/-- The tables that the range with a number gets from a table. -/
def rangeTables (cast : Value → Except Error (Option SignedInt64)) (column name : String)
    (partitionRanges : List (SignedInt64 × SignedInt64)) (table : Table Value) (index : ℕ) :
    List (Int64Table Value) :=
  if index = 0 then
    [selectRows cast column name (inLimits partitionRanges index) table,
      selectRows cast column name Option.isNone table]
  else [selectRows cast column name (inLimits partitionRanges index) table]

theorem ofTable_eq {table : Table Value}
    (convertible : ∀ row ∈ table.rows, ∃ value, cast (row column) = .ok value) :
    Int64Table.ofTable cast column name table = .ok (int64Table cast column name table) := by
  have casts : table.rows.mapM (fun row => do return (← cast (row column), row)) =
      .ok (table.rows.map fun row => (castValue cast column row, row)) := by
    apply except_mapM_eq_ok
    intro row rowMem
    rcases convertible row rowMem with ⟨value, isValue⟩
    simp [castValue, isValue, bind, Except.bind, pure, Except.pure, Except.toOption]
  rw [Int64Table.ofTable, casts]
  rfl

/-- One pass of the loop over the tables. -/
theorem partitionTable_eq {table : Table Value}
    (convertible : ∀ row ∈ table.rows, ∃ value, cast (row column) = .ok value) :
    partitionTable cast column name partitionRanges table =
      if name ∈ table.columnNames then .error .arrowInvalid
      else .ok ((List.range partitionRanges.length).map
        (rangeTables cast column name partitionRanges table)) := by
  rw [partitionTable, ofTable_eq convertible]
  by_cases isTaken : name ∈ table.columnNames
  · have ambiguous : ∀ test, (int64Table cast column name table).filter test =
        .error .arrowInvalid := fun test => if_pos isTaken
    simp [bind, Except.bind, ambiguous, isTaken]
  · have selects : ∀ test, (int64Table cast column name table).filter test =
        .ok (selectRows cast column name test table) := fun test => if_neg isTaken
    have mapped : partitionRanges.zipIdx.mapM (fun range => do
        let inRange ← (int64Table cast column name table).filter
          (·.any fun value => range.1.1 < value ∧ value ≤ range.1.2)
        return if range.2 = 0 then
          [inRange, selectRows cast column name Option.isNone table] else [inRange]) =
        .ok (partitionRanges.zipIdx.map fun range =>
          rangeTables cast column name partitionRanges table range.2) := by
      apply except_mapM_eq_ok
      rintro ⟨limit, index⟩ rangeMem
      have isLimit := List.mem_zipIdx_iff_getElem?.mp rangeMem
      have sameTest : inLimits partitionRanges index =
          fun value => value.any fun value => limit.1 < value ∧ value ≤ limit.2 := by
        funext value
        simp [inLimits, isLimit]
      simp [selects, bind, Except.bind, pure, Except.pure, rangeTables, sameTest]
    have numbered : partitionRanges.zipIdx.map (fun range =>
        rangeTables cast column name partitionRanges table range.2) =
          (List.range partitionRanges.length).map
            (rangeTables cast column name partitionRanges table) := by
      apply List.ext_getElem
      · simp
      · intro index _ _
        simp
    rw [if_neg isTaken, ← numbered]
    refine Eq.trans ?_ mapped
    simp only [bind, Except.bind, selects]

/-- The loop over the tables collects the tables of each range. -/
theorem foldlM_partitionTable (convertible : ∀ table ∈ tables, ∀ row ∈ table.rows,
      ∃ value, cast (row column) = .ok value)
    (unique : ∀ table ∈ tables, name ∉ table.columnNames)
    (collected : ℕ → List (Int64Table Value)) :
    tables.foldlM (fun tablesList table => do
        let added ← partitionTable cast column name partitionRanges table
        return List.zipWith (· ++ ·) tablesList added)
      ((List.range partitionRanges.length).map collected) =
      .ok ((List.range partitionRanges.length).map fun index =>
        collected index ++ tables.flatMap
          (rangeTables cast column name partitionRanges · index)) := by
  induction tables generalizing collected with
  | nil => simp [pure, Except.pure]
  | cons table tables ih =>
      rw [List.forall_mem_cons] at convertible unique
      have first := @partitionTable_eq _ _ _ name partitionRanges table convertible.1
      rw [if_neg unique.1] at first
      have step : (do
          let added ← partitionTable cast column name partitionRanges table
          return List.zipWith (· ++ ·) ((List.range partitionRanges.length).map collected) added :
            Except Error _) = .ok ((List.range partitionRanges.length).map fun index =>
              collected index ++ rangeTables cast column name partitionRanges table index) := by
        simp only [first, bind, Except.bind, pure, Except.pure, List.zipWith_map, List.zipWith_self]
      rw [List.foldlM_cons, step]
      refine (ih convertible.2 unique.2 _).trans ?_
      simp only [List.flatMap_cons, List.append_assoc]

theorem concatTables_eq {parts : List (Int64Table Value)} {schema : List (String × String)}
    (nonempty : parts ≠ []) (uniform : ∀ part ∈ parts, part.name = name ∧ part.schema = schema) :
    concat.concatTables parts = .ok ⟨name, schema, parts.flatMap (·.rows)⟩ := by
  have fields : ∀ part ∈ parts, part.fields = (name, schema) :=
    fun part partMem => Prod.ext (uniform part partMem).1 (uniform part partMem).2
  have same : ∀ left ∈ parts, ∀ right ∈ parts, left.fields = right.fields :=
    fun left leftMem right rightMem => (fields left leftMem).trans (fields right rightMem).symm
  rcases concat.succeeds nonempty same with ⟨⟨_, _, rows⟩, isResult⟩
  rcases List.exists_mem_of_ne_nil parts nonempty with ⟨first, firstMem⟩
  have resultFields := (concat.sameSchema isResult first firstMem).symm.trans
    (fields first firstMem)
  have resultRows := concat.rows isResult
  cases resultFields
  simp only at resultRows
  rw [isResult, resultRows]

theorem schema_eq_of_concatTables {parts : List (Int64Table Value)} {result : Int64Table Value}
    (isResult : concat.concatTables parts = .ok result) {left right : Int64Table Value}
    (leftMem : left ∈ parts) (rightMem : right ∈ parts) : left.schema = right.schema := by
  have sameFields := (concat.sameSchema isResult left leftMem).trans
    (concat.sameSchema isResult right rightMem).symm
  exact congrArg Prod.snd sameFields

/-- The rows of the range with a number. -/
def groupRows (cast : Value → Except Error (Option SignedInt64)) (column : String)
    (partitionRanges : List (SignedInt64 × SignedInt64)) (tables : List (Table Value))
    (index : ℕ) : List (Row Value) :=
  tables.flatMap fun table =>
    table.rows.filter (fun row => inLimits partitionRanges index (castValue cast column row)) ++
      if index = 0 then table.rows.filter fun row => (castValue cast column row).isNone else []

theorem rows_selectRows (test : Option SignedInt64 → Bool) (table : Table Value) :
    (selectRows cast column name test table).rows.map Prod.snd =
      table.rows.filter fun row => test (castValue cast column row) := by
  simp [selectRows, int64Table, List.filter_map, Function.comp_def]

theorem rows_rangeTables (index : ℕ) :
    ((tables.flatMap (rangeTables cast column name partitionRanges · index)).flatMap
        (·.rows)).map Prod.snd = groupRows cast column partitionRanges tables index := by
  rw [List.flatMap_assoc, List.map_flatMap, groupRows]
  apply List.flatMap_congr
  intro table _
  by_cases isFirst : index = 0
  · simp [rangeTables, isFirst, rows_selectRows]
  · simp [rangeTables, isFirst, rows_selectRows]

/-- A range is staged unless it has no rows. -/
theorem stagePartition_eq {schema : List (String × String)} (nonempty : tables ≠ [])
    (uniform : ∀ table ∈ tables, table.schema = schema) (unique : name ∉ schema.map Prod.fst)
    (staged : List (Table Value)) (index : ℕ) :
    stagePartition concat staged
        (tables.flatMap (rangeTables cast column name partitionRanges · index)) =
      .ok (if (groupRows cast column partitionRanges tables index).isEmpty then staged
        else staged ++ [⟨schema, groupRows cast column partitionRanges tables index⟩]) := by
  have partsNonempty :
      tables.flatMap (rangeTables cast column name partitionRanges · index) ≠ [] := by
    rcases tables with _ | ⟨first, rest⟩
    · exact absurd rfl nonempty
    · by_cases isFirst : index = 0 <;> simp [rangeTables, isFirst]
  have partsUniform : ∀ part ∈ tables.flatMap (rangeTables cast column name partitionRanges ·
      index), part.name = name ∧ part.schema = schema := by
    intro part partMem
    rcases List.mem_flatMap.mp partMem with ⟨table, tableMem, partMem⟩
    rw [rangeTables] at partMem
    split_ifs at partMem
    · rcases List.mem_pair.mp partMem with rfl | rfl <;> exact ⟨rfl, uniform table tableMem⟩
    · rw [List.mem_singleton] at partMem
      subst partMem
      exact ⟨rfl, uniform table tableMem⟩
  have dropped : schema.filter (fun column => column.1 ≠ name) = schema := by
    rw [List.filter_eq_self]
    intro column columnMem
    simp only [decide_eq_true_eq]
    rintro rfl
    exact unique (List.mem_map_of_mem columnMem)
  rw [stagePartition, concatTables_eq partsNonempty partsUniform]
  simp only [bind, Except.bind, pure, Except.pure, Int64Table.drop, rows_rangeTables, dropped]

/-- The loop over the ranges stages the rows of each range that has any. -/
theorem foldlM_stagePartition {schema : List (String × String)} (nonempty : tables ≠ [])
    (uniform : ∀ table ∈ tables, table.schema = schema) (unique : name ∉ schema.map Prod.fst)
    (indices : List ℕ) (staged : List (Table Value)) :
    (indices.map fun index => tables.flatMap
        (rangeTables cast column name partitionRanges · index)).foldlM (stagePartition concat)
          staged =
      .ok (staged ++ ((indices.map (groupRows cast column partitionRanges tables)).filter
        (! ·.isEmpty)).map (Table.mk schema)) := by
  induction indices generalizing staged with
  | nil => simp [pure, Except.pure]
  | cons index indices ih =>
      rw [List.map_cons, List.foldlM_cons, stagePartition_eq nonempty uniform unique]
      refine (ih _).trans ?_
      cases isEmpty : (groupRows cast column partitionRanges tables index).isEmpty with
      | true => simp [isEmpty]
      | false => simp [isEmpty]

end Loops

section Ranges

variable {cast : Value → Except Error (Option SignedInt64)} {column : String}
  {bounds : List SignedInt64} {tables : List (Table Value)}

/-- The number of the range that gets a row; rows with the least value get to none. -/
def rangeOf (bounds : List SignedInt64) : Option SignedInt64 → Option ℕ
  | none => some 0
  | some value => if value = SignedInt64.least then none else some (rangeIndex bounds value)

theorem belongsTo_of_rangeOf (sorted : bounds.Pairwise (· ≤ ·)) {value : Option SignedInt64}
    {index : ℕ} (isRange : rangeOf bounds value = some index) : BelongsTo bounds index value := by
  cases value with
  | none =>
      cases isRange
      rfl
  | some value =>
      simp only [rangeOf, Option.ite_none_left_eq_some, Option.some.injEq] at isRange
      exact (inRange_iff sorted).mpr isRange.2

theorem rangeOf_lt (value : Option SignedInt64) {index : ℕ}
    (isRange : rangeOf bounds value = some index) : index < bounds.length + 1 := by
  cases value with
  | none =>
      cases isRange
      omega
  | some value =>
      simp only [rangeOf, Option.ite_none_left_eq_some, Option.some.injEq] at isRange
      have bounded := rangeIndex_le bounds value
      omega

theorem inLimits_iff (sorted : bounds.Pairwise (· ≤ ·)) {index : ℕ}
    (inBounds : index < bounds.length + 1) (value : Option SignedInt64) :
    inLimits (limits SignedInt64.least SignedInt64.greatest bounds) index value = true ↔
      value.isSome ∧ rangeOf bounds value = some index := by
  cases value with
  | none => simp [inLimits]
  | some value =>
      have short : index < (limits SignedInt64.least SignedInt64.greatest bounds).length := by
        simpa using inBounds
      have isLimit := List.getElem?_eq_getElem short
      simp only [inLimits, Option.any_some, isLimit, decide_eq_true_eq, rangeOf, Option.isSome_some,
        true_and, Option.ite_none_left_eq_some, Option.some.injEq]
      by_cases isLeast : value = SignedInt64.least
      · subst isLeast
        have aboveLeast := lowest_le_of_mem_limits
          (fun bound _ => SignedInt64.least_le bound) (List.getElem_mem short)
        simp [aboveLeast.not_gt]
      · have aboveLeast := lt_of_le_of_ne (SignedInt64.least_le value) (Ne.symm isLeast)
        rw [mem_limits_iff isLimit aboveLeast (SignedInt64.le_greatest value), inRange_iff sorted,
          and_iff_right isLeast]

/-- The rows of a range are those that get to it. -/
theorem groupRows_perm (sorted : bounds.Pairwise (· ≤ ·)) {index : ℕ}
    (inBounds : index < bounds.length + 1) :
    (groupRows cast column (limits SignedInt64.least SignedInt64.greatest bounds) tables
        index).Perm
      ((tables.flatMap (·.rows)).filter
        fun row => rangeOf bounds (castValue cast column row) = some index) := by
  rw [groupRows, List.filter_flatMap]
  apply List.Perm.flatMap_left
  intro table _
  have within := inLimits_iff sorted inBounds
  by_cases isFirst : index = 0
  · rw [if_pos isFirst]
    refine (perm_filter_append ?_).trans (List.Perm.of_eq (List.filter_congr ?_))
    · intro row _ isWithin
      have isSome := ((within _).mp isWithin).1
      simp [Option.isSome_iff_ne_none.mp isSome]
    · intro row _
      rw [Bool.eq_iff_iff, Bool.or_eq_true, within, decide_eq_true_iff]
      cases castValue cast column row with
      | none => simp [rangeOf, isFirst]
      | some value => simp
  · rw [if_neg isFirst, List.append_nil]
    apply List.Perm.of_eq
    apply List.filter_congr
    intro row _
    rw [Bool.eq_iff_iff, within, decide_eq_true_iff]
    cases castValue cast column row with
    | none => simp [rangeOf, Ne.symm isFirst]
    | some value => simp

/-- The rows of all ranges are the rows that get to one. -/
theorem groups_perm (sorted : bounds.Pairwise (· ≤ ·)) :
    ((List.range (bounds.length + 1)).map (groupRows cast column
        (limits SignedInt64.least SignedInt64.greatest bounds) tables)).flatten.Perm
      ((tables.flatMap (·.rows)).filter
        fun row => (rangeOf bounds (castValue cast column row)).isSome) := by
  have bins := perm_bins (fun row => rangeOf bounds (castValue cast column row))
    (bounds.length + 1) (tables.flatMap (·.rows)) fun row _ index isRange => rangeOf_lt _ isRange
  rw [← List.flatMap_def]
  refine (List.Perm.flatMap_left _ ?_).trans bins
  intro index indexMem
  exact groupRows_perm sorted (List.mem_range.mp indexMem)

end Ranges

section Repartitioning

variable {concat : Int64Table.Concat Value} {cast : Value → Except Error (Option SignedInt64)}
  {column : String} {tables : List (Table Value)} {ranges : List SignedInt64}

theorem length_stagedRows {schema : List (String × String)} (groups : List (List (Row Value))) :
    (((groups.filter (! ·.isEmpty)).map (Table.mk schema)).map (·.rows.length)).sum =
      groups.flatten.length := by
  induction groups with
  | nil => rfl
  | cons group groups ih =>
      rw [List.flatten_cons, List.length_append, ← ih]
      cases group with
      | nil => simp
      | cons row group => simp

/-- With tables of one schema, the rows are counted after staging the ranges. -/
theorem repartitionRange_eq (rangesNonempty : ranges ≠ []) (tablesNonempty : tables ≠ [])
    (convertible : Convertible cast column tables) {schema : List (String × String)}
    (uniform : ∀ table ∈ tables, table.schema = schema) :
    let groups := (List.range (ranges.length + 1)).map (groupRows cast column
      (limits SignedInt64.least SignedInt64.greatest (ranges.insertionSort (· ≤ ·))) tables)
    repartitionRange concat cast tables column ranges =
      if groups.flatten.length = (tables.flatMap (·.rows)).length then
        .ok ((groups.filter (! ·.isEmpty)).map (Table.mk schema))
      else .error .assertionError := by
  intro groups
  have hasColumn : ∀ table ∈ tables, column ∈ table.columnNames :=
    fun table tableMem => (convertible table tableMem).1
  have total : (tables.map (·.rows.length)).sum = (tables.flatMap (·.rows)).length := by
    rw [List.length_flatMap]
  rcases tables with _ | ⟨first, rest⟩
  · exact absurd rfl tablesNonempty
  · have isFirst := uniform first List.mem_cons_self
    have unique : generateUniqueName (column ++ "_int64") first.columnNames ∉
        schema.map Prod.fst := by
      rw [← isFirst]
      exact generateUniqueName_not_mem _ _
    have length : (limits SignedInt64.least SignedInt64.greatest
        (ranges.insertionSort (· ≤ ·))).length = ranges.length + 1 := by
      rw [length_limits, List.length_insertionSort]
    have collected := @foldlM_partitionTable _ cast column
      (generateUniqueName (column ++ "_int64") first.columnNames)
      (limits SignedInt64.least SignedInt64.greatest (ranges.insertionSort (· ≤ ·)))
      (first :: rest) (fun table tableMem => (convertible table tableMem).2)
      (fun table tableMem => by
        rw [Table.columnNames, uniform table tableMem]
        exact unique) (fun _ => [])
    have staged := @foldlM_stagePartition _ concat cast column
      (generateUniqueName (column ++ "_int64") first.columnNames)
      (limits SignedInt64.least SignedInt64.greatest (ranges.insertionSort (· ≤ ·)))
      (first :: rest) schema tablesNonempty uniform unique (List.range (ranges.length + 1)) []
    simp only [List.nil_append, length, List.map_const', List.length_range] at collected staged
    rw [repartitionRange, if_neg rangesNonempty, if_neg (not_not.mpr hasColumn)]
    simp only [length]
    rw [collected]
    change ((List.map _ _).foldlM (stagePartition concat) [] >>= _) = _
    rw [staged, total]
    change (if _ = _ then _ else _) = _
    rw [length_stagedRows]
    rfl

theorem unique_of_foldlM {name : String} {partitionRanges : List (SignedInt64 × SignedInt64)}
    (convertible : ∀ table ∈ tables, ∀ row ∈ table.rows, ∃ value, cast (row column) = .ok value)
    {collected partitioned : List (List (Int64Table Value))}
    (isPartitioned : tables.foldlM (fun tablesList table => do
        let added ← partitionTable cast column name partitionRanges table
        return List.zipWith (· ++ ·) tablesList added) collected = .ok partitioned) :
    ∀ table ∈ tables, name ∉ table.columnNames := by
  induction tables generalizing collected with
  | nil => simp
  | cons table tables ih =>
      rw [List.forall_mem_cons] at convertible ⊢
      rw [List.foldlM_cons, partitionTable_eq convertible.1] at isPartitioned
      by_cases isTaken : name ∈ table.columnNames
      · rw [if_pos isTaken] at isPartitioned
        cases isPartitioned
      · rw [if_neg isTaken] at isPartitioned
        exact ⟨isTaken, ih convertible.2 isPartitioned⟩

/-- Tables of different schemas cannot be concatenated. -/
theorem schema_eq_of_repartitionRange (convertible : Convertible cast column tables)
    {staged : List (Table Value)}
    (isStaged : repartitionRange concat cast tables column ranges = .ok staged) :
    ∀ left ∈ tables, ∀ right ∈ tables, left.schema = right.schema := by
  intro left leftMem right rightMem
  rw [repartitionRange] at isStaged
  split_ifs at isStaged with noRanges hasColumn
  rcases tables with _ | ⟨first, rest⟩
  · cases leftMem
  · rcases except_bind_eq_ok.mp isStaged with ⟨partitioned, isPartitioned, isStaged⟩
    rcases except_bind_eq_ok.mp isStaged with ⟨deltas, areDeltas, _⟩
    have rowsConvertible := fun table tableMem => (convertible table tableMem).2
    have unique := unique_of_foldlM rowsConvertible isPartitioned
    have collected := @foldlM_partitionTable _ cast column
      (generateUniqueName (column ++ "_int64") first.columnNames)
      (limits SignedInt64.least SignedInt64.greatest (ranges.insertionSort (· ≤ ·)))
      (first :: rest) rowsConvertible unique (fun _ => [])
    simp only [List.map_const', List.length_range] at collected
    rw [collected, Except.ok.injEq] at isPartitioned
    subst isPartitioned
    rw [length_limits, List.range_succ_eq_map, List.map_cons, List.foldlM_cons] at areDeltas
    rcases except_bind_eq_ok.mp areDeltas with ⟨deltas, firstStaged, _⟩
    rcases except_bind_eq_ok.mp firstStaged with ⟨concatenated, isConcatenated, _⟩
    have selected : ∀ table ∈ first :: rest, selectRows cast column
        (generateUniqueName (column ++ "_int64") first.columnNames) Option.isNone table ∈
          [] ++ (first :: rest).flatMap (rangeTables cast column
            (generateUniqueName (column ++ "_int64") first.columnNames)
            (limits SignedInt64.least SignedInt64.greatest
              (ranges.insertionSort (· ≤ ·))) · 0) := by
      intro table tableMem
      rw [List.nil_append, List.mem_flatMap]
      exact ⟨table, tableMem, by simp [rangeTables]⟩
    exact schema_eq_of_concatTables isConcatenated (selected left leftMem)
      (selected right rightMem)

/--
The repartitioning of tables of one schema divides their rows, unless one of them has the
least value, which is above the lower limit of no range.
-/
theorem repartitions_iff (tablesNonempty : tables ≠ []) (rangesNonempty : ranges ≠ [])
    (convertible : Convertible cast column tables) :
    Repartitions concat cast column tables ranges ↔
      (∀ left ∈ tables, ∀ right ∈ tables, left.schema = right.schema) ∧
        ∀ table ∈ tables, ∀ row ∈ table.rows,
          castValue cast column row ≠ some SignedInt64.least := by
  have sorted : (ranges.insertionSort (· ≤ ·)).Pairwise (· ≤ ·) :=
    List.pairwise_insertionSort (· ≤ ·) ranges
  have perm := @groups_perm _ cast column _ tables sorted
  rw [List.length_insertionSort] at perm
  have hasRange : ∀ row : Row Value,
      (rangeOf (ranges.insertionSort (· ≤ ·)) (castValue cast column row)).isSome ↔
        castValue cast column row ≠ some SignedInt64.least := by
    intro row
    cases castValue cast column row with
    | none => simp [rangeOf]
    | some value => simp [rangeOf]
  have allIn : ((List.range (ranges.length + 1)).map (groupRows cast column (limits
        SignedInt64.least SignedInt64.greatest (ranges.insertionSort (· ≤ ·)))
          tables)).flatten.length = (tables.flatMap (·.rows)).length ↔
      ∀ table ∈ tables, ∀ row ∈ table.rows, castValue cast column row ≠ some SignedInt64.least := by
    rw [perm.length_eq, List.length_filter_eq_length_iff]
    simp only [hasRange, List.mem_flatMap, forall_exists_index, and_imp]
    exact ⟨fun all table tableMem row rowMem => all row table tableMem rowMem,
      fun all row table tableMem rowMem => all table tableMem row rowMem⟩
  constructor
  · rintro ⟨staged, isStaged, _⟩
    have uniform := schema_eq_of_repartitionRange convertible isStaged
    rcases List.exists_mem_of_ne_nil tables tablesNonempty with ⟨first, firstMem⟩
    rw [repartitionRange_eq rangesNonempty tablesNonempty convertible
      fun table tableMem => uniform table tableMem first firstMem] at isStaged
    split_ifs at isStaged with counted
    exact ⟨uniform, allIn.mp counted⟩
  · rintro ⟨uniform, noLeast⟩
    rcases List.exists_mem_of_ne_nil tables tablesNonempty with ⟨first, firstMem⟩
    have isFirst := fun table tableMem => uniform table tableMem first firstMem
    have isStaged := (@repartitionRange_eq _ concat _ _ _ _ rangesNonempty tablesNonempty
      convertible _ isFirst).trans (if_pos (allIn.mpr noLeast))
    refine ⟨_, isStaged, _, by simp, perm.trans (List.Perm.of_eq ?_), ?_, ?_, ?_⟩
    · rw [List.filter_eq_self]
      intro row rowMem
      rcases List.mem_flatMap.mp rowMem with ⟨table, tableMem, rowMem⟩
      exact (hasRange row).mpr (noLeast table tableMem row rowMem)
    · intro index group isGroup row rowMem
      rcases List.getElem?_eq_some_iff.mp isGroup with ⟨short, rfl⟩
      rw [List.getElem_map, List.getElem_range] at rowMem
      have inBounds : index < (ranges.insertionSort (· ≤ ·)).length + 1 := by
        simpa using short
      have isRange := (groupRows_perm sorted inBounds).subset rowMem
      simp only [List.mem_filter, decide_eq_true_eq] at isRange
      exact belongsTo_of_rangeOf sorted isRange.2
    · simp [Function.comp_def]
    · intro partition partitionMem table tableMem
      rcases List.mem_map.mp partitionMem with ⟨rows, _, rfl⟩
      exact (isFirst table tableMem).symm

/-- The concatenation of tables with an added column. -/
def concatInt64Tables (Value : Type) : Int64Table.Concat Value :=
  .ofRows Int64Table.fields (fun table rows => { table with rows }) (fun _ _ => rfl) fun _ _ => rfl

/-- A table with one nullable column, of these values. -/
def versionTable (versions : List (Option SignedInt64)) : Table (Option SignedInt64) where
  schema := [("version", "int64")]
  rows := versions.map fun version _ => version

def zero : SignedInt64 := ⟨0, by decide, by decide⟩

def ten : SignedInt64 := ⟨10, by decide, by decide⟩

/-- Two tables, with bounds, a null and the greatest value in them, and two bounds. -/
theorem repartitions_twoBounds :
    Repartitions (concatInt64Tables _) .ok "version"
      [versionTable [some ten, none, some zero], versionTable [some SignedInt64.greatest]]
      [ten, zero] := by
  have convertible : Convertible .ok "version"
      [versionTable [some ten, none, some zero], versionTable [some SignedInt64.greatest]] := by
    simp [Convertible, versionTable, Table.columnNames]
  apply (repartitions_iff (by simp) (by simp) convertible).mpr
  constructor
  · simp [versionTable]
  · have aboveLeast : ∀ value ∈ [ten, zero, SignedInt64.greatest], value ≠ SignedInt64.least := by
      simp [ten, zero, SignedInt64.greatest, SignedInt64.least, signedInt64MaxValue,
        signedInt64MinValue]
    simpa [versionTable, castValue, Except.toOption, and_assoc] using aboveLeast

theorem not_repartitions :
    ¬∀ (tables : List (Table (Option SignedInt64))) (ranges : List SignedInt64), tables ≠ [] →
      ranges ≠ [] → Convertible .ok "version" tables →
        Repartitions (concatInt64Tables _) .ok "version" tables ranges := by
  intro always
  have convertible : Convertible .ok "version" [versionTable [some SignedInt64.least]] := by
    simp [Convertible, versionTable, Table.columnNames]
  rcases always _ [zero] (by simp) (by simp) convertible with ⟨staged, isStaged, _⟩
  have closed := @repartitionRange_eq _ (concatInt64Tables _) _ _
    [versionTable [some SignedInt64.least]] [zero] (by simp) (by simp) convertible
    (versionTable [some SignedInt64.least]).schema (by simp)
  rw [closed] at isStaged
  split_ifs at isStaged with counted
  revert counted
  decide

end Repartitioning

end Deltacat.Compute.Compactor
