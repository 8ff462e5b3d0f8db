import Deltacat.Library.Procedure
import Deltacat.Library.Run
import Deltacat.Utils.TableSlices

/-!
# Record batches

`RecordBatchTables` collects tables into batches whose record counts are multiples of a
batch size, and keeps the records that do not fill a batch in a list of remaining tables. An
appended table first tops up the remaining tables to one batch. Its other whole batches go
through the remaining tables as well, to be concatenated in order.

The invariant (`Batched`) holds after all operations, also between evictions. Only the
concatenation can fail, and only if tables of different schemas are appended.
-/

namespace Deltacat.Utils

open Deltacat.Library

universe u v

structure RecordBatchTables (Schema : Type u) (Row : Type v) where
  batchedTables : List (ArrowTable Schema Row) := []
  batchedRecordCount : ℕ := 0
  remainingTables : List (ArrowTable Schema Row) := []
  remainingRecordCount : ℕ := 0
  batchSize : ℕ

namespace RecordBatchTables

variable {Schema : Type u} {Row : Type v}

def clearRemaining (batches : RecordBatchTables Schema Row) : RecordBatchTables Schema Row :=
  { batches with remainingTables := [], remainingRecordCount := 0 }

def clearBatches (batches : RecordBatchTables Schema Row) : RecordBatchTables Schema Row :=
  { batches with batchedTables := [], batchedRecordCount := 0 }

/-- Append a table to the remaining tables, and count its records. -/
def addRemaining (batches : RecordBatchTables Schema Row) (table : ArrowTable Schema Row) :
    RecordBatchTables Schema Row :=
  { batches with
    remainingTables := batches.remainingTables ++ [table]
    remainingRecordCount := batches.remainingRecordCount + table.length }

/-- Top up the remaining tables, if there are any, and give the rest of the table. -/
def fit (batches : RecordBatchTables Schema Row) (table : ArrowTable Schema Row) :
    RecordBatchTables Schema Row × ArrowTable Schema Row :=
  if batches.remainingTables ≠ [] then
    let recordsToFit := batches.batchSize - batches.remainingRecordCount
    (batches.addRemaining (table.slice 0 (some recordsToFit)), table.slice recordsToFit none)
  else (batches, table)

variable (concat : ArrowTable.Concat Schema Row)

def shiftRemainingToNewBatch (batches : RecordBatchTables Schema Row) :
    Except Error (RecordBatchTables Schema Row) := do
  let newBatch ← concat.concatTables batches.remainingTables
  return clearRemaining { batches with
    batchedTables := batches.batchedTables ++ [newBatch]
    batchedRecordCount := batches.batchedRecordCount + batches.remainingRecordCount }

/-- Shift the remaining tables, if there are any. -/
def shiftRemaining (batches : RecordBatchTables Schema Row) :
    Except Error (RecordBatchTables Schema Row) :=
  if batches.remainingTables ≠ [] then batches.shiftRemainingToNewBatch concat else .ok batches

/-- The part of `append` after the remaining tables are topped up. -/
def appendFitted (batches : RecordBatchTables Schema Row) (table : ArrowTable Schema Row) :
    Except Error (RecordBatchTables Schema Row) := do
  let recordMultiplier := table.length / batches.batchSize
  let recordsLeftover := table.length % batches.batchSize
  let carried :=
    if 0 < recordMultiplier then
      batches.addRemaining (table.slice 0 (some (recordMultiplier * batches.batchSize)))
    else batches
  let shifted ← carried.shiftRemaining concat
  return if 0 < recordsLeftover then
      shifted.addRemaining (table.slice (recordMultiplier * batches.batchSize) none)
    else shifted

def append (batches : RecordBatchTables Schema Row) (table : ArrowTable Schema Row) :
    Except Error (RecordBatchTables Schema Row) :=
  if batches.remainingTables ≠ [] ∧
      batches.remainingRecordCount + table.length < batches.batchSize then
    .ok (batches.addRemaining table)
  else
    let fitted := batches.fit table
    fitted.1.appendFitted concat fitted.2

/-- `evict`, which gives the batched tables and removes them. -/
def evict (batches : RecordBatchTables Schema Row) :
    List (ArrowTable Schema Row) × RecordBatchTables Schema Row :=
  (batches.batchedTables, batches.clearBatches)

end RecordBatchTables

section Specification

variable {Schema : Type u} {Row : Type v}

inductive BatchOperation (Schema : Type u) (Row : Type v)
  | append (table : ArrowTable Schema Row)
  | evict

/-- The rows that an operation appends. -/
def BatchOperation.rows : BatchOperation Schema Row → List Row
  | append table => table.rows
  | evict => []

/-- The record batches with the tables that have been evicted from them. -/
structure Batching (Schema : Type u) (Row : Type v) where
  batches : RecordBatchTables Schema Row
  evicted : List (ArrowTable Schema Row) := []

/-- Empty batches of a size. -/
def Batching.ofSize (batchSize : ℕ) : Batching Schema Row where
  batches := { batchSize }

def Batching.perform (concat : ArrowTable.Concat Schema Row) (batching : Batching Schema Row) :
    BatchOperation Schema Row → Except Error (Batching Schema Row)
  | .append table => do return { batching with batches := ← batching.batches.append concat table }
  | .evict =>
      let evicted := batching.batches.evict
      .ok { batches := evicted.2, evicted := batching.evicted ++ evicted.1 }

/-- The operations that do not raise. -/
def Batching.step (concat : ArrowTable.Concat Schema Row) (batching : Batching Schema Row)
    (operation : BatchOperation Schema Row) (next : Batching Schema Row) : Prop :=
  batching.perform concat operation = .ok next

/-- The batching invariant, with the rows that have been appended in order. -/
structure Batched (batchSize : ℕ) (appended : List Row) (batching : Batching Schema Row) :
    Prop where
  isMultiple : ∀ table ∈ batching.batches.batchedTables,
    0 < table.length ∧ batchSize ∣ table.length
  remainingLt : (ArrowTable.allRows batching.batches.remainingTables).length < batchSize
  batchedCount : batching.batches.batchedRecordCount =
    (ArrowTable.allRows batching.batches.batchedTables).length
  remainingCount : batching.batches.remainingRecordCount =
    (ArrowTable.allRows batching.batches.remainingTables).length
  inOrder : ArrowTable.allRows batching.evicted ++
    ArrowTable.allRows batching.batches.batchedTables ++
      ArrowTable.allRows batching.batches.remainingTables = appended

end Specification

namespace RecordBatchTables

open ArrowTable

variable {Schema : Type u} {Row : Type v} {batches shifted next : RecordBatchTables Schema Row}
  {table : ArrowTable Schema Row}

/-- How a step moves rows from the remaining tables and an appended table into batches. -/
structure Moves (batches : RecordBatchTables Schema Row) (rows : List Row)
    (moved : List (ArrowTable Schema Row)) (next : RecordBatchTables Schema Row) : Prop where
  sameSize : next.batchSize = batches.batchSize
  batched : next.batchedTables = batches.batchedTables ++ moved
  isMultiple : ∀ table ∈ moved, 0 < table.length ∧ batches.batchSize ∣ table.length
  batchedCount : next.batchedRecordCount = batches.batchedRecordCount + (allRows moved).length
  remainingCount : next.remainingRecordCount = (allRows next.remainingTables).length
  inOrder : allRows moved ++ allRows next.remainingTables = allRows batches.remainingTables ++ rows

theorem remainingCount_addRemaining
    (counted : batches.remainingRecordCount = (allRows batches.remainingTables).length) :
    (batches.addRemaining table).remainingRecordCount =
      (allRows (batches.addRemaining table).remainingTables).length := by
  simp [addRemaining, counted, ArrowTable.length]

theorem Moves.addRemaining {rows : List Row} {moved : List (ArrowTable Schema Row)}
    (moves : Moves batches rows moved shifted) :
    Moves batches (rows ++ table.rows) moved (shifted.addRemaining table) where
  sameSize := moves.sameSize
  batched := moves.batched
  isMultiple := moves.isMultiple
  batchedCount := moves.batchedCount
  remainingCount := remainingCount_addRemaining moves.remainingCount
  inOrder := by
    have inOrder := moves.inOrder
    simp only [RecordBatchTables.addRemaining, allRows_append, allRows_singleton]
    rw [← List.append_assoc, inOrder, List.append_assoc]

theorem moves_refl
    (counted : batches.remainingRecordCount = (allRows batches.remainingTables).length) :
    Moves batches [] [] batches where
  sameSize := rfl
  batched := by simp
  isMultiple := by simp
  batchedCount := rfl
  remainingCount := counted
  inOrder := by simp

/-- Moving after topping up is moving from the start. -/
theorem Moves.ofAddRemaining {rows : List Row} {moved : List (ArrowTable Schema Row)}
    (moves : Moves (batches.addRemaining table) rows moved next) :
    Moves batches (table.rows ++ rows) moved next where
  sameSize := moves.sameSize
  batched := moves.batched
  isMultiple := moves.isMultiple
  batchedCount := moves.batchedCount
  remainingCount := moves.remainingCount
  inOrder := by
    have inOrder := moves.inOrder
    simp only [RecordBatchTables.addRemaining, allRows_append, allRows_singleton] at inOrder
    rw [inOrder, List.append_assoc]

variable {concat : ArrowTable.Concat Schema Row}

/-- Whole batches of records are shifted, after which no records remain. -/
theorem moves_of_shiftRemainingToNewBatch
    (counted : batches.remainingRecordCount = (allRows batches.remainingTables).length)
    (nonempty : 0 < (allRows batches.remainingTables).length)
    (divides : batches.batchSize ∣ (allRows batches.remainingTables).length)
    (isShifted : batches.shiftRemainingToNewBatch concat = .ok shifted) :
    (∃ moved, Moves batches [] moved shifted) ∧ shifted.remainingTables = [] := by
  rcases except_bind_eq_ok.mp isShifted with ⟨newBatch, concatenated, isShifted⟩
  cases isShifted
  have rows : newBatch.rows = allRows batches.remainingTables := concat.rows concatenated
  refine ⟨⟨[newBatch], ?_⟩, rfl⟩
  constructor
  · rfl
  · rfl
  · simpa [ArrowTable.length, rows] using And.intro nonempty divides
  · simp [clearRemaining, counted, rows]
  · simp [clearRemaining]
  · simp [clearRemaining, rows]

/-- Once the remaining records fill a batch, all whole batches are moved. -/
theorem moves_of_appendFitted (positive : 0 < batches.batchSize)
    (counted : batches.remainingRecordCount = (allRows batches.remainingTables).length)
    (nonempty : batches.remainingTables ≠ [] → 0 < (allRows batches.remainingTables).length)
    (divides : batches.batchSize ∣ (allRows batches.remainingTables).length)
    (isNext : batches.appendFitted concat table = .ok next) :
    (∃ moved, Moves batches table.rows moved next) ∧
      (allRows next.remainingTables).length < batches.batchSize := by
  have wholeLe : table.length / batches.batchSize * batches.batchSize ≤ table.length :=
    Nat.div_mul_le_self _ _
  have leftover : table.length - table.length / batches.batchSize * batches.batchSize =
      table.length % batches.batchSize := by
    have split := Nat.div_add_mod' table.length batches.batchSize
    omega
  have modLt := Nat.mod_lt table.length positive
  rw [appendFitted] at isNext
  rcases except_bind_eq_ok.mp isNext with ⟨shifted, isShifted, isNext⟩
  cases isNext
  have shiftedMoves : (∃ moved, Moves batches (table.rows.take (table.length / batches.batchSize *
      batches.batchSize)) moved shifted) ∧ shifted.remainingTables = [] := by
    by_cases whole : 0 < table.length / batches.batchSize
    · rw [if_pos whole, shiftRemaining, if_pos (by simp [addRemaining])] at isShifted
      have carriedLength : (allRows (batches.addRemaining (table.slice 0 (some (table.length /
          batches.batchSize * batches.batchSize)))).remainingTables).length =
          (allRows batches.remainingTables).length +
            table.length / batches.batchSize * batches.batchSize := by
        simpa [addRemaining, slice, ArrowTable.length] using wholeLe
      have wholePositive := Nat.mul_pos whole positive
      have shiftMoves := moves_of_shiftRemainingToNewBatch (remainingCount_addRemaining counted)
        (by rw [carriedLength]; exact Nat.add_pos_right _ wholePositive)
        (by rw [carriedLength]; exact Nat.dvd_add divides (Nat.dvd_mul_left _ _)) isShifted
      rcases shiftMoves with ⟨⟨moved, moves⟩, isEmpty⟩
      have moves := moves.ofAddRemaining
      rw [List.append_nil] at moves
      exact ⟨⟨moved, moves⟩, isEmpty⟩
    · have noBatch : table.length / batches.batchSize = 0 :=
        Nat.eq_zero_of_not_pos whole
      rw [if_neg whole, shiftRemaining] at isShifted
      rw [noBatch, Nat.zero_mul, List.take_zero]
      by_cases remains : batches.remainingTables ≠ []
      · rw [if_pos remains] at isShifted
        exact moves_of_shiftRemainingToNewBatch counted (nonempty remains) divides isShifted
      · rw [if_neg remains] at isShifted
        cases isShifted
        exact ⟨⟨[], moves_refl counted⟩, not_not.mp remains⟩
  rcases shiftedMoves with ⟨⟨moved, moves⟩, isEmpty⟩
  by_cases left : 0 < table.length % batches.batchSize
  · rw [if_pos left]
    have moves := @Moves.addRemaining _ _ _ _ (table.slice (table.length / batches.batchSize *
      batches.batchSize) none) _ _ moves
    rw [slice, List.take_append_drop] at moves
    refine ⟨⟨moved, moves⟩, ?_⟩
    simp only [addRemaining, isEmpty, List.nil_append, allRows_singleton, slice,
      List.length_drop]
    exact leftover.trans_lt modLt
  · rw [if_neg left]
    have isWhole : table.rows.length ≤ table.length / batches.batchSize * batches.batchSize := by
      rw [ArrowTable.length] at *
      omega
    rw [List.take_of_length_le isWhole] at moves
    exact ⟨⟨moved, moves⟩, by simpa [isEmpty] using positive⟩

/-- What an append does, unless it raises. -/
theorem moves_of_append
    (counted : batches.remainingRecordCount = (allRows batches.remainingTables).length)
    (short : (allRows batches.remainingTables).length < batches.batchSize)
    (isNext : batches.append concat table = .ok next) :
    (∃ moved, Moves batches table.rows moved next) ∧
      (allRows next.remainingTables).length < batches.batchSize := by
  have positive : 0 < batches.batchSize := by omega
  rw [append] at isNext
  split_ifs at isNext with fits
  · cases isNext
    have moves : Moves batches ([] ++ table.rows) [] (batches.addRemaining table) :=
      (moves_refl counted).addRemaining
    refine ⟨⟨[], moves⟩, ?_⟩
    have fitsLt := fits.2
    simp only [addRemaining, allRows_append, allRows_singleton, List.length_append]
    rw [ArrowTable.length] at fitsLt
    omega
  · by_cases remains : batches.remainingTables = []
    · have empty : (allRows batches.remainingTables).length = 0 := by simp [remains]
      rw [fit, if_neg (not_not.mpr remains)] at isNext
      exact moves_of_appendFitted positive counted (fun isRemaining => absurd remains isRemaining)
        (by simp [empty]) isNext
    · have enough : batches.batchSize ≤ batches.remainingRecordCount + table.length := by
        by_contra tooFew
        exact fits ⟨remains, by omega⟩
      rw [ArrowTable.length] at enough
      rw [fit, if_pos remains] at isNext
      have fittedLength : (allRows (batches.addRemaining (table.slice 0 (some
          (batches.batchSize - batches.remainingRecordCount)))).remainingTables).length =
          batches.batchSize := by
        simp only [addRemaining, allRows_append, allRows_singleton, slice, List.drop_zero,
          List.length_append, List.length_take]
        omega
      have fittedMoves := moves_of_appendFitted (by exact positive)
        (remainingCount_addRemaining counted) (fun _ => by omega)
        (by rw [fittedLength]; exact dvd_rfl) isNext
      rcases fittedMoves with ⟨⟨moved, moves⟩, nextShort⟩
      have moves := moves.ofAddRemaining
      simp only [slice, List.drop_zero, List.take_append_drop] at moves
      exact ⟨⟨moved, moves⟩, nextShort⟩

/-- Tables of one schema can always be appended. -/
theorem exists_append {schema : Schema} (isSchema : table.schema = schema)
    (uniform : ∀ remaining ∈ batches.remainingTables, remaining.schema = schema) :
    ∃ next, batches.append concat table = .ok next ∧
      ∀ remaining ∈ next.remainingTables, remaining.schema = schema := by
  have added : ∀ {batches : RecordBatchTables Schema Row} {table : ArrowTable Schema Row},
      table.schema = schema →
      (∀ remaining ∈ batches.remainingTables, remaining.schema = schema) →
      ∀ remaining ∈ (batches.addRemaining table).remainingTables, remaining.schema = schema := by
    intro batches table isSchema uniform remaining remainingMem
    rcases List.mem_append.mp remainingMem with isOld | isNew
    · exact uniform remaining isOld
    · rw [List.mem_singleton] at isNew
      exact isNew ▸ isSchema
  have shifts : ∀ {batches : RecordBatchTables Schema Row},
      (∀ remaining ∈ batches.remainingTables, remaining.schema = schema) →
      ∃ shifted, batches.shiftRemaining concat = .ok shifted ∧ shifted.remainingTables = [] := by
    intro batches uniform
    by_cases remains : batches.remainingTables ≠ []
    · have sameSchema : ∀ left ∈ batches.remainingTables, ∀ right ∈ batches.remainingTables,
          left.schema = right.schema :=
        fun left leftMem right rightMem =>
          (uniform left leftMem).trans (uniform right rightMem).symm
      rcases concat.succeeds remains sameSchema with ⟨newBatch, concatenated⟩
      rw [shiftRemaining, if_pos remains, shiftRemainingToNewBatch, concatenated]
      exact ⟨_, rfl, rfl⟩
    · rw [shiftRemaining, if_neg remains]
      exact ⟨batches, rfl, not_not.mp remains⟩
  have fitted : ∀ {batches : RecordBatchTables Schema Row} {table : ArrowTable Schema Row},
      table.schema = schema →
      (∀ remaining ∈ batches.remainingTables, remaining.schema = schema) →
      ∃ next, batches.appendFitted concat table = .ok next ∧
        ∀ remaining ∈ next.remainingTables, remaining.schema = schema := by
    intro batches table isSchema uniform
    rw [appendFitted]
    have carried : ∀ remaining ∈ (if 0 < table.length / batches.batchSize then
        batches.addRemaining (table.slice 0 (some (table.length / batches.batchSize *
          batches.batchSize))) else batches).remainingTables, remaining.schema = schema := by
      split_ifs
      · exact added isSchema uniform
      · exact uniform
    rcases shifts carried with ⟨shifted, isShifted, isEmpty⟩
    rw [isShifted]
    refine ⟨_, rfl, ?_⟩
    split_ifs
    · exact added isSchema (by simp [isEmpty])
    · simp [isEmpty]
  rw [append]
  split_ifs
  · exact ⟨_, rfl, added isSchema uniform⟩
  · rw [fit]
    split_ifs
    · exact fitted isSchema (added isSchema uniform)
    · exact fitted isSchema uniform

end RecordBatchTables

section Runs

open ArrowTable RecordBatchTables

variable {Schema : Type u} {Row : Type v} {concat : ArrowTable.Concat Schema Row} {batchSize : ℕ}
  {batching next : Batching Schema Row} {operation : BatchOperation Schema Row}

/-- The invariant, for batches of the given size. -/
structure BatchedOfSize (batchSize : ℕ) (appended : List Row) (batching : Batching Schema Row) :
    Prop extends Batched batchSize appended batching where
  sameSize : batching.batches.batchSize = batchSize

/-- One operation keeps the invariant. -/
theorem BatchedOfSize.perform {appended : List Row}
    (batched : BatchedOfSize batchSize appended batching)
    (performed : batching.perform concat operation = .ok next) :
    BatchedOfSize batchSize (appended ++ operation.rows) next := by
  have sameSize := batched.sameSize
  have inOrder := batched.inOrder
  cases operation with
  | append table =>
      rcases except_bind_eq_ok.mp performed with ⟨batches, isAppended, performed⟩
      cases performed
      have appends := moves_of_append batched.remainingCount (sameSize ▸ batched.remainingLt)
        isAppended
      rcases appends with ⟨⟨moved, moves⟩, short⟩
      refine ⟨⟨?_, sameSize ▸ short, ?_, moves.remainingCount, ?_⟩, moves.sameSize.trans sameSize⟩
      · simp only [moves.batched, List.forall_mem_append]
        exact ⟨batched.isMultiple, sameSize ▸ moves.isMultiple⟩
      · simp [moves.batchedCount, moves.batched, batched.batchedCount]
      · have movedInOrder := moves.inOrder
        simp only [moves.batched, allRows_append, BatchOperation.rows, ← inOrder,
          List.append_assoc, movedInOrder]
  | evict =>
      cases performed
      refine ⟨⟨?_, batched.remainingLt, rfl, batched.remainingCount, ?_⟩, sameSize⟩
      · simp [evict, clearBatches]
      · simpa [evict, clearBatches, BatchOperation.rows] using inOrder

theorem batchedOfSize_ofSize (positive : 1 ≤ batchSize) :
    BatchedOfSize batchSize [] (Batching.ofSize batchSize : Batching Schema Row) := by
  refine ⟨⟨?_, ?_, rfl, rfl, rfl⟩, rfl⟩
  · simp [Batching.ofSize]
  · simpa [Batching.ofSize] using Nat.lt_of_succ_le positive

/-- Every run keeps the invariant. -/
theorem batchedOfSize_of_run (positive : 1 ≤ batchSize)
    {operations : List (BatchOperation Schema Row)}
    (run : Run (Batching.step concat) (Batching.ofSize batchSize) operations batching) :
    BatchedOfSize batchSize (operations.flatMap (·.rows)) batching := by
  induction run with
  | nil => exact batchedOfSize_ofSize positive
  | snoc _ stepped ih =>
      rw [List.flatMap_append, List.flatMap_singleton]
      exact ih.perform stepped

/-- Tables of one schema can be appended and evicted in any order. -/
theorem exists_run {schema : Schema} (operations : List (BatchOperation Schema Row))
    (uniform : ∀ table, .append table ∈ operations → table.schema = schema) :
    ∃ final, Run (Batching.step concat) (Batching.ofSize batchSize) operations final ∧
      ∀ remaining ∈ final.batches.remainingTables, remaining.schema = schema := by
  induction operations using List.reverseRecOn with
  | nil => exact ⟨_, Run.nil, by simp [Batching.ofSize]⟩
  | append_singleton operations operation ih =>
      have before := ih fun table tableMem => uniform table (List.mem_append_left _ tableMem)
      rcases before with ⟨middle, run, remainingUniform⟩
      cases operation with
      | append table =>
          have isSchema := uniform table (by simp)
          rcases exists_append isSchema remainingUniform with ⟨batches, isAppended, nextUniform⟩
          refine ⟨{ middle with batches }, Run.snoc run ?_, nextUniform⟩
          rw [Batching.step, Batching.perform, isAppended]
          rfl
      | evict => exact ⟨_, Run.snoc run rfl, remainingUniform⟩

/--
Tables of one schema can be appended and evicted in any order, and after any operations that
do not raise, the tables are batched.
-/
theorem batched_of_run (concat : ArrowTable.Concat Schema Row) (positive : 1 ≤ batchSize)
    (operations : List (BatchOperation Schema Row)) :
    (∀ schema, (∀ table, .append table ∈ operations → table.schema = schema) →
      ∃ final, Run (Batching.step concat) (Batching.ofSize batchSize) operations final) ∧
    ∀ final, Run (Batching.step concat) (Batching.ofSize batchSize) operations final →
      Batched batchSize (operations.flatMap (·.rows)) final := by
  constructor
  · intro schema uniform
    rcases exists_run operations uniform with ⟨final, run, _⟩
    exact ⟨final, run⟩
  · intro final run
    exact (batchedOfSize_of_run positive run).toBatched

/-- The concatenation of tables without columns. -/
def concatRows (Row : Type) : ArrowTable.Concat Unit Row :=
  .ofRows ArrowTable.schema (fun table rows => { table with rows }) (fun _ _ => rfl) fun _ _ => rfl

/-- Two tables of three rows, with an eviction between them, in batches of two. -/
theorem batched_threeRows :
    Batched 2 [1, 2, 3, 4, 5, 6]
      ({ batches := ⟨[⟨(), [3, 4, 5, 6]⟩], 4, [], 0, 2⟩, evicted := [⟨(), [1, 2]⟩] } :
        Batching Unit ℕ) := by
  have first : Batching.step (concatRows ℕ) (Batching.ofSize 2) (.append ⟨(), [1, 2, 3]⟩)
      { batches := ⟨[⟨(), [1, 2]⟩], 2, [⟨(), [3]⟩], 1, 2⟩ } := rfl
  have second : Batching.step (concatRows ℕ)
      { batches := ⟨[⟨(), [1, 2]⟩], 2, [⟨(), [3]⟩], 1, 2⟩ } .evict
      { batches := ⟨[], 0, [⟨(), [3]⟩], 1, 2⟩, evicted := [⟨(), [1, 2]⟩] } := rfl
  have third : Batching.step (concatRows ℕ)
      { batches := ⟨[], 0, [⟨(), [3]⟩], 1, 2⟩, evicted := [⟨(), [1, 2]⟩] }
      (.append ⟨(), [4, 5, 6]⟩)
      { batches := ⟨[⟨(), [3, 4, 5, 6]⟩], 4, [], 0, 2⟩, evicted := [⟨(), [1, 2]⟩] } := rfl
  exact (batched_of_run (concatRows ℕ) (by decide) _).2 _
    (((Run.nil.snoc first).snoc second).snoc third)

end Runs

end Deltacat.Utils
