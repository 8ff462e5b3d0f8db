import Deltacat.Utils.TableSlices
import Deltacat.Library.Procedure
import Std.Data.String.ToNat

/-!
# Sliced writes

`write_sliced_table` writes the slices of a table to one file each and describes the files by
manifest entries. The writes are retried when they fail with a retryable error. All of them
get the same dictionary of keyword arguments, from which `write_table` pops the arguments that
it uses, so that only the first write sees them.

Paths are lists of names. The files record the schema argument that they were written with.
A retryable failure comes with the seconds since the first attempt, after which the retries
may be given up.
-/

namespace Deltacat.Types

open Deltacat.Library Deltacat.Utils

/-- The properties of a catalog, of which writes use the root directory. -/
structure CatalogProperties where
  root : List String

/-- The entries of `table_writer_kwargs` that `write_table` pops; a missing one is `None`. -/
structure TableWriterKwargs (Schema : Type) where
  schema : Option Schema := none
  schemaId : Option ℕ := none
  sortSchemeId : Option String := none
  catalogProperties : Option CatalogProperties := none

structure ManifestEntry where
  url : List String
  recordCount : ℕ
  schemaId : Option ℕ
  sortSchemeId : Option String

structure WrittenFile (Schema : Type) (Row : Type) where
  schema : Option Schema
  rows : List Row

abbrev Files (Schema : Type) (Row : Type) := List String → Option (WrittenFile Schema Row)

/-- The shared dictionary, the files, and the number of unique names drawn so far. -/
structure WriteState (Schema : Type) (Row : Type) where
  tableWriterKwargs : TableWriterKwargs Schema
  files : Files Schema Row
  drawn : ℕ

inductive UploadError
  /-- `RetryableError`, the base of `RetryableUploadTableError`. -/
  | retryableError
  /-- `NonRetryableUploadTableError`. -/
  | nonRetryableUploadTableError
  /-- `tenacity.RetryError`. -/
  | retryError
  deriving DecidableEq

/-- Where a write can fail with a retryable error. -/
inductive FailurePlace
  /-- The table writer raises before there is a file. -/
  | tableWriterFn
  /-- The file is written, and reading its information fails. -/
  | getFileInfo
  deriving DecidableEq

/-- A failed attempt of a write that is retried. -/
structure RetryableFailure where
  place : FailurePlace
  /-- When the attempt has failed, since the first one was begun. -/
  secondsSinceStart : ℚ

/-- `absolute_path_to_relative`. -/
def absolutePathToRelative (root target : List String) : Except Error (List String) :=
  if root = target then .error .valueError
  else if root <+: target then .ok (target.drop root.length)
  else .error .valueError

/-- `ManifestEntry.from_path`. -/
def ManifestEntry.fromPath {Schema : Type} {Row : Type} (files : Files Schema Row)
    (path : List String) (recordCount : ℕ) (schemaId : Option ℕ) (sortSchemeId : Option String)
    (catalogRoot : Option (List String)) : Except Error ManifestEntry := do
  if files path |>.isNone then
    throw .fileNotFoundError
  let url ← match catalogRoot with
    | some root => absolutePathToRelative root path
    | none => pure path
  return { url, recordCount, schemaId, sortSchemeId }

section Writes

variable {Schema : Type} {Row : Type} (naming : ℕ → String) (basePath : List String)

/-- The path that a `UuidBlockWritePathProvider` gives to a file. -/
def writePath (draw : ℕ) : List String := basePath ++ [naming draw]

/-- `pop` of all entries that `write_table` extracts. -/
def popTableWriterKwargs :
    EStateM UploadError (WriteState Schema Row) (TableWriterKwargs Schema) := do
  let state ← get
  set { state with tableWriterKwargs := {} }
  return state.tableWriterKwargs

/-- Write a table to a new file, and give its path. -/
def tableWriterFn (table : ArrowTable Schema Row) (schema : Option Schema)
    (failure : Option FailurePlace) :
    EStateM UploadError (WriteState Schema Row) (List String) := do
  let state ← get
  let path := writePath naming basePath state.drawn
  set { state with drawn := state.drawn + 1 }
  if failure = some .tableWriterFn then
    throw .retryableError
  modify fun state =>
    { state with files := Function.update state.files path (some ⟨schema, table.rows⟩) }
  return path

/-- `write_table` of a local table, which is written to one file. -/
def writeTable (table : ArrowTable Schema Row) (failure : Option FailurePlace) :
    EStateM UploadError (WriteState Schema Row) (List ManifestEntry) := do
  let kwargs ← popTableWriterKwargs
  let path ← tableWriterFn naming basePath table kwargs.schema failure
  if failure = some .getFileInfo then
    throw .retryableError
  match ManifestEntry.fromPath (← get).files path table.length kwargs.schemaId
      kwargs.sortSchemeId (kwargs.catalogProperties.map (·.root)) with
  | .ok entry => return [entry]
  | .error _ => throw .nonRetryableUploadTableError

/--
`retrying`, with the retryable failures before an attempt has none. It stops when a failure
comes `UPLOAD_SLICED_TABLE_RETRY_STOP_AFTER_DELAY` seconds after the first attempt was begun.
-/
def retrying {State Value : Type} (stopAfterDelay : ℤ)
    (attempt : Option FailurePlace → EStateM UploadError State Value) :
    List RetryableFailure → EStateM UploadError State Value
  | [] => attempt none
  | failure :: failures =>
      tryCatch (attempt (some failure.place)) fun
        | .retryableError =>
            if stopAfterDelay ≤ failure.secondsSinceStart then throw .retryError
            else retrying stopAfterDelay attempt failures
        | error => throw error

/-- The loop over the slices, which are numbered to have failures of their own. -/
def writeSlices (stopAfterDelay : ℤ) (failures : ℕ → List RetryableFailure) :
    List (ArrowTable Schema Row) → ℕ →
      EStateM UploadError (WriteState Schema Row) (List ManifestEntry)
  | [], _ => return []
  | tableSlice :: tableSlices, number => do
      let sliceResult ← retrying stopAfterDelay (writeTable naming basePath tableSlice)
        (failures number)
      let results ← writeSlices stopAfterDelay failures tableSlices (number + 1)
      return sliceResult ++ results

/-- `write_sliced_table`, with `slice_table` and a single-file writer. -/
def writeSlicedTable (stopAfterDelay : ℤ) (table : ArrowTable Schema Row)
    (maxRecordsPerEntry : Option ℕ+) (failures : ℕ → List RetryableFailure) :
    EStateM UploadError (WriteState Schema Row) (List ManifestEntry) :=
  if maxRecordsPerEntry = none ∨ table.length = 0 then
    retrying stopAfterDelay (writeTable naming basePath table) (failures 0)
  else
    writeSlices naming basePath stopAfterDelay failures (table.sliceTable maxRecordsPerEntry) 0

end Writes

section Specification

variable {Schema : Type} {Row : Type} (naming : ℕ → String) (basePath : List String)

/--
The entry describes a file with the given rows that has been written with the given
arguments. Its path is relative to the root of the catalog, if one is given.
-/
structure Describes (kwargs : TableWriterKwargs Schema) (files : Files Schema Row)
    (entry : ManifestEntry) (rows : List Row) : Prop where
  recordCount : entry.recordCount = rows.length
  schemaId : entry.schemaId = kwargs.schemaId
  sortSchemeId : entry.sortSchemeId = kwargs.sortSchemeId
  written : ∃ draw, files (writePath naming basePath draw) = some ⟨kwargs.schema, rows⟩ ∧
    (kwargs.catalogProperties.map (·.root)).getD [] ++ entry.url =
      writePath naming basePath draw

/-- The entries of a sliced write describe consecutive slices of the table. -/
def WritesUniformly (stopAfterDelay : ℤ) (kwargs : TableWriterKwargs Schema)
    (files : Files Schema Row) (table : ArrowTable Schema Row) (maxRecordsPerEntry : ℕ+)
    (failures : ℕ → List RetryableFailure) : Prop :=
  ∃ entries final, writeSlicedTable naming basePath stopAfterDelay table
      (some maxRecordsPerEntry) failures ⟨kwargs, files, 0⟩ = .ok entries final ∧
    ∃ groups : List (List Row), groups.flatten = table.rows ∧
      (∀ rows ∈ groups, rows.length ≤ maxRecordsPerEntry) ∧
      List.Forall₂ (Describes naming basePath kwargs final.files) entries groups

/-- The arguments give nothing to lose: no schemas, and no directories to leave out of paths. -/
structure TableWriterKwargs.Trivial (kwargs : TableWriterKwargs Schema) : Prop where
  schema : kwargs.schema = none
  schemaId : kwargs.schemaId = none
  sortSchemeId : kwargs.sortSchemeId = none
  root : (kwargs.catalogProperties.map (·.root)).getD [] = []

/-- The base path is in the root directory of the catalog, if one is given. -/
def Contained (kwargs : TableWriterKwargs Schema) : Prop :=
  (kwargs.catalogProperties.map (·.root)).getD [] <+: basePath

/-- No slice fails so late that its retries are given up. -/
def FailsInTime (stopAfterDelay : ℤ) (table : ArrowTable Schema Row) (maxRecordsPerEntry : ℕ+)
    (failures : ℕ → List RetryableFailure) : Prop :=
  ∀ number < (table.sliceTable (some maxRecordsPerEntry)).length,
    ∀ failure ∈ failures number, failure.secondsSinceStart < stopAfterDelay

end Specification

section Attempts

variable {Schema : Type} {Row : Type} {naming : ℕ → String} {basePath : List String}
  {table : ArrowTable Schema Row} {state next : WriteState Schema Row} {stopAfterDelay : ℤ}

/-- The root directory that paths are relative to, if there is one. -/
def TableWriterKwargs.root (kwargs : TableWriterKwargs Schema) : List String :=
  (kwargs.catalogProperties.map (·.root)).getD []

theorem absolutePathToRelative_eq {root : List String} {name : String} :
    absolutePathToRelative root (basePath ++ [name]) =
      if root <+: basePath then .ok ((basePath ++ [name]).drop root.length)
      else .error .valueError := by
  by_cases contained : root <+: basePath
  · have shorter := contained.length_le
    have distinct : root ≠ basePath ++ [name] := by
      rintro rfl
      simp at shorter
    rw [absolutePathToRelative, if_neg distinct,
      if_pos (contained.trans (List.prefix_append _ _)), if_pos contained]
  · rw [absolutePathToRelative, if_neg contained]
    split_ifs with isTarget isPrefix
    · rfl
    · exact absurd (List.prefix_concat_iff.mp isPrefix) (not_or.mpr ⟨isTarget, contained⟩)
    · rfl

theorem fromPath_eq {kwargs : TableWriterKwargs Schema} {files : Files Schema Row} {draw : ℕ}
    (exists_file : (files (writePath naming basePath draw)).isSome) (recordCount : ℕ) :
    ManifestEntry.fromPath files (writePath naming basePath draw) recordCount kwargs.schemaId
        kwargs.sortSchemeId (kwargs.catalogProperties.map (·.root)) =
      if kwargs.root <+: basePath then
        .ok ⟨(writePath naming basePath draw).drop kwargs.root.length, recordCount,
          kwargs.schemaId, kwargs.sortSchemeId⟩
      else .error .valueError := by
  have isFile := Option.isSome_iff_ne_none.mp exists_file
  rw [writePath] at isFile ⊢
  rcases kwargs with ⟨schema, schemaId, sortSchemeId, catalogProperties⟩
  cases catalogProperties with
  | none =>
      simp [ManifestEntry.fromPath, isFile, TableWriterKwargs.root, bind, Except.bind, pure,
        Except.pure]
  | some properties =>
      have relative := @absolutePathToRelative_eq basePath properties.root (naming draw)
      by_cases contained : properties.root <+: basePath <;>
        simp [ManifestEntry.fromPath, isFile, TableWriterKwargs.root, relative, contained, bind,
          Except.bind, pure, Except.pure]

theorem popTableWriterKwargs_eq :
    popTableWriterKwargs state =
      .ok state.tableWriterKwargs { state with tableWriterKwargs := {} } :=
  rfl

theorem tableWriterFn_eq {schema : Option Schema} {failure : Option FailurePlace} :
    tableWriterFn naming basePath table schema failure state =
      if failure = some .tableWriterFn then
        .error .retryableError { state with drawn := state.drawn + 1 }
      else .ok (writePath naming basePath state.drawn)
        { state with
          drawn := state.drawn + 1
          files := Function.update state.files (writePath naming basePath state.drawn)
            (some ⟨schema, table.rows⟩) } := by
  by_cases fails : failure = some .tableWriterFn
  · subst fails
    rfl
  · simp only [tableWriterFn, if_neg fails]
    rfl

/-- The state after a file has been written. -/
def WriteState.written (naming : ℕ → String) (basePath : List String)
    (state : WriteState Schema Row) (table : ArrowTable Schema Row) : WriteState Schema Row :=
  ⟨{}, Function.update state.files (writePath naming basePath state.drawn)
    (some ⟨state.tableWriterKwargs.schema, table.rows⟩), state.drawn + 1⟩

/-- An attempt without a retryable failure. -/
theorem writeTable_none :
    writeTable naming basePath table none state =
      if state.tableWriterKwargs.root <+: basePath then
        .ok [⟨(writePath naming basePath state.drawn).drop state.tableWriterKwargs.root.length,
            table.length, state.tableWriterKwargs.schemaId,
            state.tableWriterKwargs.sortSchemeId⟩] (state.written naming basePath table)
      else .error .nonRetryableUploadTableError (state.written naming basePath table) := by
  have entry := @fromPath_eq _ _ naming basePath state.tableWriterKwargs
    (Function.update state.files (writePath naming basePath state.drawn)
      (some ⟨state.tableWriterKwargs.schema, table.rows⟩)) state.drawn (by simp) table.length
  simp only [writeTable, bind, EStateM.bind, popTableWriterKwargs_eq, tableWriterFn_eq]
  change (match ManifestEntry.fromPath (Function.update state.files _ _) _ _ _ _ _ with
    | .ok entry => (pure [entry] : EStateM UploadError (WriteState Schema Row) _)
    | .error _ => throw UploadError.nonRetryableUploadTableError) _ = _
  rw [entry]
  split_ifs <;> rfl

/-- The paths of the names drawn before are unchanged. -/
structure Extends (naming : ℕ → String) (basePath : List String)
    (state next : WriteState Schema Row) : Prop where
  drawnLe : state.drawn ≤ next.drawn
  files : ∀ draw < state.drawn,
    next.files (writePath naming basePath draw) = state.files (writePath naming basePath draw)

theorem Extends.trans {middle : WriteState Schema Row}
    (first : Extends naming basePath state middle) (second : Extends naming basePath middle next) :
    Extends naming basePath state next where
  drawnLe := first.drawnLe.trans second.drawnLe
  files draw before := (second.files draw (before.trans_le first.drawnLe)).trans
    (first.files draw before)

theorem writePath_injective (unique : Function.Injective naming) :
    Function.Injective (writePath naming basePath) := by
  intro left right same
  simpa [writePath, unique.eq_iff] using same

/-- Writing a file with a new name. -/
theorem extends_update (unique : Function.Injective naming) (kwargs : TableWriterKwargs Schema)
    (file : Option (WrittenFile Schema Row)) :
    Extends naming basePath state
      ⟨kwargs, Function.update state.files (writePath naming basePath state.drawn) file,
        state.drawn + 1⟩ where
  drawnLe := Nat.le_succ _
  files draw before := by
    apply Function.update_of_ne
    exact (writePath_injective unique).ne before.ne

/-- A failed attempt, which has consumed the arguments. -/
theorem writeTable_some (unique : Function.Injective naming) (failure : FailurePlace) :
    ∃ failed, writeTable naming basePath table (some failure) state =
        .error .retryableError failed ∧
      failed.tableWriterKwargs = {} ∧ Extends naming basePath state failed := by
  cases failure with
  | tableWriterFn =>
      refine ⟨⟨{}, state.files, state.drawn + 1⟩, ?_, rfl, Nat.le_succ _, fun _ _ => rfl⟩
      simp only [writeTable, bind, EStateM.bind, popTableWriterKwargs_eq, tableWriterFn_eq]
      rfl
  | getFileInfo =>
      refine ⟨_, ?_, rfl, extends_update unique {}
        (some ⟨state.tableWriterKwargs.schema, table.rows⟩)⟩
      simp only [writeTable, bind, EStateM.bind, popTableWriterKwargs_eq, tableWriterFn_eq]
      rfl

/-- The entry describes a file that has been written with the given arguments before a state. -/
structure Described (naming : ℕ → String) (basePath : List String)
    (kwargs : TableWriterKwargs Schema) (state : WriteState Schema Row) (entry : ManifestEntry)
    (rows : List Row) : Prop where
  recordCount : entry.recordCount = rows.length
  schemaId : entry.schemaId = kwargs.schemaId
  sortSchemeId : entry.sortSchemeId = kwargs.sortSchemeId
  written : ∃ draw < state.drawn,
    state.files (writePath naming basePath draw) = some ⟨kwargs.schema, rows⟩ ∧
      kwargs.root ++ entry.url = writePath naming basePath draw

theorem Described.describes {kwargs : TableWriterKwargs Schema} {entry : ManifestEntry}
    {rows : List Row} (described : Described naming basePath kwargs state entry rows) :
    Describes naming basePath kwargs state.files entry rows where
  recordCount := described.recordCount
  schemaId := described.schemaId
  sortSchemeId := described.sortSchemeId
  written := by
    rcases described.written with ⟨draw, _, isWritten⟩
    exact ⟨draw, isWritten⟩

theorem Described.mono {kwargs : TableWriterKwargs Schema} {entry : ManifestEntry}
    {rows : List Row} (described : Described naming basePath kwargs state entry rows)
    (extends_ : Extends naming basePath state next) :
    Described naming basePath kwargs next entry rows where
  recordCount := described.recordCount
  schemaId := described.schemaId
  sortSchemeId := described.sortSchemeId
  written := by
    rcases described.written with ⟨draw, before, isWritten, isUrl⟩
    exact ⟨draw, before.trans_le extends_.drawnLe, (extends_.files draw before).trans isWritten,
      isUrl⟩

/-- The arguments that are left for the attempt that succeeds. -/
def seenKwargs (kwargs : TableWriterKwargs Schema) (failures : List RetryableFailure) :
    TableWriterKwargs Schema :=
  if failures = [] then kwargs else {}

theorem contained_empty : Contained basePath ({} : TableWriterKwargs Schema) :=
  List.nil_prefix

/-- A failed attempt is followed by the next one, if it has not failed too late. -/
theorem retrying_cons (unique : Function.Injective naming) (failure : RetryableFailure)
    (failures : List RetryableFailure) :
    ∃ failed, failed.tableWriterKwargs = {} ∧ Extends naming basePath state failed ∧
      retrying stopAfterDelay (writeTable naming basePath table) (failure :: failures) state =
        if stopAfterDelay ≤ failure.secondsSinceStart then .error .retryError failed
        else retrying stopAfterDelay (writeTable naming basePath table) failures failed := by
  rcases @writeTable_some _ _ _ _ table state unique failure.place with
    ⟨failed, isFailed, noKwargs, isExtended⟩
  refine ⟨failed, noKwargs, isExtended, ?_⟩
  simp only [retrying, tryCatch, tryCatchThe, MonadExceptOf.tryCatch, EStateM.tryCatch, isFailed]
  split_ifs <;> rfl

/-- After retries, the table is written with the arguments that are left. -/
theorem retrying_spec (unique : Function.Injective naming) {failures : List RetryableFailure}
    (inTime : ∀ failure ∈ failures, failure.secondsSinceStart < stopAfterDelay)
    (contained : failures = [] → Contained basePath state.tableWriterKwargs) :
    ∃ entry next,
      retrying stopAfterDelay (writeTable naming basePath table) failures state =
        .ok [entry] next ∧
      next.tableWriterKwargs = {} ∧ Extends naming basePath state next ∧
        Described naming basePath (seenKwargs state.tableWriterKwargs failures) next entry
          table.rows := by
  induction failures generalizing state with
  | nil =>
      refine ⟨_, _, writeTable_none.trans (if_pos (contained rfl)), rfl,
        extends_update unique _ _, rfl, rfl, rfl, state.drawn, Nat.lt_succ_self _,
        Function.update_self _ _ _, ?_⟩
      have inPath : state.tableWriterKwargs.root <+: writePath naming basePath state.drawn :=
        List.IsPrefix.trans (contained rfl) (List.prefix_append _ _)
      exact List.prefix_iff_eq_append.mp inPath
  | cons failure failures ih =>
      rw [List.forall_mem_cons] at inTime
      rcases @retrying_cons _ _ _ _ table state stopAfterDelay unique failure failures with
        ⟨failed, noKwargs, isExtended, isRetried⟩
      have nextContained : failures = [] → Contained basePath failed.tableWriterKwargs := by
        rw [noKwargs]
        exact fun _ => contained_empty
      rcases ih inTime.2 nextContained with
        ⟨entry, next, succeeds, isPopped, nextExtended, described⟩
      refine ⟨entry, next, ?_, isPopped, isExtended.trans nextExtended, ?_⟩
      · rw [isRetried, if_neg (not_le.mpr inTime.1), succeeds]
      · simpa [seenKwargs, noKwargs] using described

/-- A write that is given up, or whose path is not in the catalog, does not return. -/
theorem of_retrying_eq_ok (unique : Function.Injective naming) {failures : List RetryableFailure}
    {entries : List ManifestEntry}
    (returns : retrying stopAfterDelay (writeTable naming basePath table) failures state =
      .ok entries next) :
    (∀ failure ∈ failures, failure.secondsSinceStart < stopAfterDelay) ∧
      (failures = [] → Contained basePath state.tableWriterKwargs) := by
  induction failures generalizing state with
  | nil =>
      refine ⟨by simp, fun _ => ?_⟩
      by_contra notContained
      have isElsewhere : ¬state.tableWriterKwargs.root <+: basePath := notContained
      rw [retrying, writeTable_none, if_neg isElsewhere] at returns
      cases returns
  | cons failure failures ih =>
      rcases @retrying_cons _ _ _ _ table state stopAfterDelay unique failure failures with
        ⟨failed, _, _, isRetried⟩
      rw [isRetried] at returns
      split_ifs at returns with isLate
      exact ⟨List.forall_mem_cons.mpr ⟨not_le.mp isLate, (ih returns).1⟩, by simp⟩

/-- The arguments that are left for each slice. -/
def sliceKwargs (failures : ℕ → List RetryableFailure) :
    List (ArrowTable Schema Row) → ℕ → TableWriterKwargs Schema → List (TableWriterKwargs Schema)
  | [], _, _ => []
  | _ :: tableSlices, number, kwargs =>
      seenKwargs kwargs (failures number) :: sliceKwargs failures tableSlices (number + 1) {}

/-- The loop writes each slice with the arguments that are left for it. -/
theorem writeSlices_spec (unique : Function.Injective naming)
    (failures : ℕ → List RetryableFailure) (tableSlices : List (ArrowTable Schema Row))
    (number : ℕ)
    (inTime : ∀ offset < tableSlices.length, ∀ failure ∈ failures (number + offset),
      failure.secondsSinceStart < stopAfterDelay)
    (contained : failures number = [] → Contained basePath state.tableWriterKwargs) :
    ∃ entries next, writeSlices naming basePath stopAfterDelay failures tableSlices number state =
        .ok entries next ∧
      Extends naming basePath state next ∧
      List.Forall₂ (fun entry slice => Described naming basePath slice.1 next entry slice.2.rows)
        entries ((sliceKwargs failures tableSlices number state.tableWriterKwargs).zip
          tableSlices) := by
  induction tableSlices generalizing number state with
  | nil => exact ⟨[], state, rfl, ⟨le_rfl, fun _ _ => rfl⟩, List.Forall₂.nil⟩
  | cons tableSlice tableSlices ih =>
      have firstInTime : ∀ failure ∈ failures number, failure.secondsSinceStart < stopAfterDelay :=
        inTime 0 (by simp)
      rcases @retrying_spec _ _ _ _ tableSlice _ _ unique _ firstInTime contained with
        ⟨entry, middle, isWritten, noKwargs, isExtended, described⟩
      have restInTime : ∀ offset < tableSlices.length, ∀ failure ∈ failures (number + 1 + offset),
          failure.secondsSinceStart < stopAfterDelay := by
        intro offset isOffset
        rw [Nat.add_right_comm]
        exact inTime (offset + 1) (by simpa using isOffset)
      have restContained : failures (number + 1) = [] →
          Contained basePath middle.tableWriterKwargs := by
        rw [noKwargs]
        exact fun _ => contained_empty
      rcases ih (number + 1) restInTime restContained with
        ⟨entries, next, areWritten, nextExtended, rest⟩
      rw [noKwargs] at rest
      refine ⟨entry :: entries, next, ?_, isExtended.trans nextExtended,
        List.Forall₂.cons (described.mono nextExtended) rest⟩
      simp only [writeSlices, bind, EStateM.bind, isWritten, areWritten]
      rfl

/-- The loop does not return if a slice is given up, or if the first one is not in the catalog. -/
theorem of_writeSlices_eq_ok (unique : Function.Injective naming)
    {failures : ℕ → List RetryableFailure} {tableSlices : List (ArrowTable Schema Row)}
    {number : ℕ} {entries : List ManifestEntry}
    (returns : writeSlices naming basePath stopAfterDelay failures tableSlices number state =
      .ok entries next) :
    (∀ offset < tableSlices.length, ∀ failure ∈ failures (number + offset),
        failure.secondsSinceStart < stopAfterDelay) ∧
      (tableSlices ≠ [] → failures number = [] → Contained basePath state.tableWriterKwargs) := by
  induction tableSlices generalizing number state entries next with
  | nil => simp
  | cons tableSlice tableSlices ih =>
      simp only [writeSlices, bind, EStateM.bind] at returns
      cases isWritten : retrying stopAfterDelay (writeTable naming basePath tableSlice)
          (failures number) state with
      | error error failed =>
          rw [isWritten] at returns
          cases returns
      | ok sliceResult middle =>
          have isFirst := of_retrying_eq_ok unique isWritten
          refine ⟨?_, fun _ => isFirst.2⟩
          simp only [isWritten] at returns
          cases areWritten : writeSlices naming basePath stopAfterDelay failures tableSlices
              (number + 1) middle with
          | error error failed =>
              rw [areWritten] at returns
              cases returns
          | ok results last =>
              intro offset isOffset
              have isRest := (ih areWritten).1
              cases offset with
              | zero => exact isFirst.1
              | succ offset =>
                  rw [← Nat.add_assoc, Nat.add_right_comm]
                  exact isRest offset (by simpa using isOffset)

end Attempts

section SlicedWrites

variable {Schema : Type} {Row : Type} {naming : ℕ → String} {basePath : List String}
  {table : ArrowTable Schema Row} {kwargs : TableWriterKwargs Schema} {files : Files Schema Row}
  {failures : ℕ → List RetryableFailure} {maxRecordsPerEntry : ℕ+} {stopAfterDelay : ℤ}

theorem length_sliceKwargs (tableSlices : List (ArrowTable Schema Row)) (number : ℕ) :
    (sliceKwargs failures tableSlices number kwargs).length = tableSlices.length := by
  induction tableSlices generalizing number kwargs with
  | nil => rfl
  | cons tableSlice tableSlices ih => simp [sliceKwargs, ih]

theorem mem_sliceKwargs {tableSlices : List (ArrowTable Schema Row)} {number : ℕ}
    {seen : TableWriterKwargs Schema}
    (seenMem : seen ∈ sliceKwargs failures tableSlices number kwargs) :
    seen = kwargs ∨ seen = {} := by
  induction tableSlices generalizing number kwargs with
  | nil => cases seenMem
  | cons tableSlice tableSlices ih =>
      rcases List.mem_cons.mp seenMem with rfl | isLater
      · rw [seenKwargs]
        split_ifs
        · exact .inl rfl
        · exact .inr rfl
      · exact .inr ((ih isLater).elim id id)

/-- Nothing is lost from trivial arguments. -/
theorem Described.describes_of_trivial {state : WriteState Schema Row} {entry : ManifestEntry}
    {rows : List Row} (described : Described naming basePath {} state entry rows)
    (trivial : kwargs.Trivial) : Describes naming basePath kwargs state.files entry rows where
  recordCount := described.recordCount
  schemaId := described.schemaId.trans trivial.schemaId.symm
  sortSchemeId := described.sortSchemeId.trans trivial.sortSchemeId.symm
  written := by
    rcases described.written with ⟨draw, _, isWritten, isUrl⟩
    rw [trivial.root, trivial.schema]
    exact ⟨draw, isWritten, isUrl⟩

/-- An entry that was written without arguments describes a write with trivial arguments only. -/
theorem Described.trivial {state : WriteState Schema Row} {entry : ManifestEntry}
    {rows group : List Row} (unique : Function.Injective naming)
    (described : Described naming basePath {} state entry rows)
    (describes : Describes naming basePath kwargs state.files entry group) : kwargs.Trivial := by
  rcases described.written with ⟨draw, _, isWritten, isUrl⟩
  rcases describes.written with ⟨other, otherWritten, otherUrl⟩
  have url : entry.url = writePath naming basePath draw := isUrl
  have root : (kwargs.catalogProperties.map (·.root)).getD [] = [] := by
    have lengths := congrArg List.length otherUrl
    simp only [url, writePath, List.length_append, List.length_singleton] at lengths
    apply List.eq_nil_of_length_eq_zero
    omega
  rw [root, List.nil_append, url] at otherUrl
  have sameDraw := writePath_injective unique otherUrl
  rw [← sameDraw, isWritten] at otherWritten
  refine ⟨?_, ?_, ?_, root⟩
  · simpa using (congrArg (Option.map (·.schema)) otherWritten).symm
  · exact describes.schemaId.symm.trans described.schemaId
  · exact describes.sortSchemeId.symm.trans described.sortSchemeId

theorem forall₂_of_forall_mem {Left Right : Type} {relation other : Left → Right → Prop}
    {lefts : List Left} {rights : List Right} (related : List.Forall₂ relation lefts rights)
    (implies : ∀ right ∈ rights, ∀ left, relation left right → other left right) :
    List.Forall₂ other lefts rights := by
  induction related with
  | nil => exact List.Forall₂.nil
  | cons isRelated _ ih =>
      rw [List.forall_mem_cons] at implies
      exact List.Forall₂.cons (implies.1 _ isRelated) (ih implies.2)

theorem writeSlicedTable_eq (nonempty : table.rows ≠ []) :
    writeSlicedTable naming basePath stopAfterDelay table (some maxRecordsPerEntry) failures =
      writeSlices naming basePath stopAfterDelay failures
        (table.sliceTable (some maxRecordsPerEntry)) 0 := by
  have positive : 0 < table.length := List.length_pos_iff.mpr nonempty
  simp [writeSlicedTable, positive.ne']

/-- Other than trivial arguments are lost after the first attempt of the first slice. -/
theorem trivial_of_writesUniformly (unique : Function.Injective naming)
    (nonempty : table.rows ≠ [])
    (lost : ¬(table.length ≤ maxRecordsPerEntry ∧ failures 0 = []))
    (uniform : WritesUniformly naming basePath stopAfterDelay kwargs files table
      maxRecordsPerEntry failures) :
    kwargs.Trivial := by
  have positive : 0 < table.length := List.length_pos_iff.mpr nonempty
  have split := @ArrowTable.sliceLoop_pos _ _ table maxRecordsPerEntry 0 _ positive
  rcases uniform with ⟨entries, final, isWritten, groups, _, _, describe⟩
  rw [writeSlicedTable_eq nonempty] at isWritten
  have returned := of_writeSlices_eq_ok unique isWritten
  have isFirst : table.sliceTable (some maxRecordsPerEntry) ≠ [] := by
    rw [ArrowTable.sliceTable, split]
    simp
  rcases @writeSlices_spec _ _ _ _ ⟨kwargs, files, 0⟩ stopAfterDelay unique failures
    (table.sliceTable (some maxRecordsPerEntry)) 0 returned.1 (returned.2 isFirst) with
    ⟨specEntries, specFinal, areWritten, _, areDescribed⟩
  rw [areWritten] at isWritten
  cases isWritten
  rw [ArrowTable.sliceTable, split, sliceKwargs, List.zip_cons_cons] at areDescribed
  by_cases isFirst : failures 0 = []
  · -- A second slice gets no arguments.
    have isLonger : ¬table.length ≤ maxRecordsPerEntry := fun isSingle => lost ⟨isSingle, isFirst⟩
    rw [ArrowTable.sliceLoop_pos (by omega), sliceKwargs, List.zip_cons_cons] at areDescribed
    rcases areDescribed with _ | ⟨_, _ | ⟨described, _⟩⟩
    rcases describe with _ | ⟨_, _ | ⟨describes, _⟩⟩
    have empty : seenKwargs ({} : TableWriterKwargs Schema) (failures (0 + 1)) = {} := ite_self _
    rw [empty] at described
    exact described.trivial unique describes
  · -- A retried first slice gets no arguments.
    rcases areDescribed with _ | ⟨described, _⟩
    rcases describe with _ | ⟨describes, _⟩
    rw [seenKwargs, if_neg isFirst] at described
    exact described.trivial unique describes

theorem WritesUniformly.returned (unique : Function.Injective naming)
    (nonempty : table.rows ≠ [])
    (uniform : WritesUniformly naming basePath stopAfterDelay kwargs files table
      maxRecordsPerEntry failures) :
    FailsInTime stopAfterDelay table maxRecordsPerEntry failures ∧
      (failures 0 = [] → Contained basePath kwargs) := by
  have positive : 0 < table.length := List.length_pos_iff.mpr nonempty
  have isFirst : table.sliceTable (some maxRecordsPerEntry) ≠ [] := by
    rw [ArrowTable.sliceTable, ArrowTable.sliceLoop_pos positive]
    simp
  rcases uniform with ⟨entries, final, isWritten, _⟩
  rw [writeSlicedTable_eq nonempty] at isWritten
  have returned := of_writeSlices_eq_ok unique isWritten
  refine ⟨?_, returned.2 isFirst⟩
  intro number isNumber
  simpa using returned.1 number isNumber

/-- The slices describe the table, if what each write sees of the arguments is all of them. -/
theorem writesUniformly_of_kept (unique : Function.Injective naming) (nonempty : table.rows ≠ [])
    (inTime : FailsInTime stopAfterDelay table maxRecordsPerEntry failures)
    (contained : failures 0 = [] → Contained basePath kwargs)
    (allKept : ∀ seen ∈ sliceKwargs failures (table.sliceTable (some maxRecordsPerEntry)) 0 kwargs,
      seen = kwargs ∨ seen = {} ∧ kwargs.Trivial) :
    WritesUniformly naming basePath stopAfterDelay kwargs files table maxRecordsPerEntry
      failures := by
  have positive : 0 < table.length := List.length_pos_iff.mpr nonempty
  have slices := table.sliceLoop_spec maxRecordsPerEntry 0 table.length (Nat.zero_add _)
  rcases @writeSlices_spec _ _ _ _ ⟨kwargs, files, 0⟩ stopAfterDelay unique failures
    (table.sliceTable (some maxRecordsPerEntry)) 0 (by simpa [FailsInTime] using inTime)
    contained with
    ⟨entries, final, areWritten, _, areDescribed⟩
  refine ⟨entries, final, (congrFun (writeSlicedTable_eq nonempty) _).trans areWritten,
    (table.sliceTable (some maxRecordsPerEntry)).map (·.rows), ?_, ?_, ?_⟩
  · rw [← List.flatMap_def]
    exact slices.1
  · intro rows rowsMem
    rcases List.mem_map.mp rowsMem with ⟨tableSlice, sliceMem, rfl⟩
    exact slices.2 tableSlice sliceMem
  · have zipped : ((sliceKwargs failures (table.sliceTable (some maxRecordsPerEntry)) 0
        kwargs).zip (table.sliceTable (some maxRecordsPerEntry))).map Prod.snd =
          table.sliceTable (some maxRecordsPerEntry) :=
      List.map_snd_zip (length_sliceKwargs _ _).ge
    rw [← zipped, List.map_map, List.forall₂_map_right_iff]
    apply forall₂_of_forall_mem areDescribed
    rintro ⟨seen, tableSlice⟩ sliceMem entry described
    rcases allKept seen (List.of_mem_zip sliceMem).1 with rfl | ⟨rfl, trivial⟩
    · exact described.describes
    · exact described.describes_of_trivial trivial

theorem TableWriterKwargs.Trivial.contained (trivial : kwargs.Trivial) :
    Contained basePath kwargs := by
  rw [Contained, trivial.root]
  exact List.nil_prefix

/--
A sliced write passes its arguments to all slices only if there is one slice, which is
written into the catalog at the first attempt, unless the arguments give nothing to lose and
no slice is given up.
-/
theorem writesUniformly_iff (unique : Function.Injective naming) (nonempty : table.rows ≠ []) :
    WritesUniformly naming basePath stopAfterDelay kwargs files table maxRecordsPerEntry
        failures ↔
      (table.length ≤ maxRecordsPerEntry ∧ failures 0 = []) ∧ Contained basePath kwargs ∨
        kwargs.Trivial ∧ FailsInTime stopAfterDelay table maxRecordsPerEntry failures := by
  have positive : 0 < table.length := List.length_pos_iff.mpr nonempty
  have split := @ArrowTable.sliceLoop_pos _ _ table maxRecordsPerEntry 0 _ positive
  constructor
  · intro uniform
    have returned := uniform.returned unique nonempty
    by_cases kept : table.length ≤ maxRecordsPerEntry ∧ failures 0 = []
    · exact .inl ⟨kept, returned.2 kept.2⟩
    · exact .inr ⟨trivial_of_writesUniformly unique nonempty kept uniform, returned.1⟩
  · rintro (⟨⟨isSingle, isFirst⟩, contained⟩ | ⟨trivial, inTime⟩)
    · have noMore : table.length - min maxRecordsPerEntry.val table.length = 0 := by omega
      have single : (table.sliceTable (some maxRecordsPerEntry)).length = 1 := by
        rw [ArrowTable.sliceTable, split, noMore, ArrowTable.sliceLoop_zero, List.length_singleton]
      apply writesUniformly_of_kept unique nonempty
      · intro number isNumber
        rw [single, Nat.lt_one_iff] at isNumber
        simp [isNumber, isFirst]
      · exact fun _ => contained
      · intro seen seenMem
        rw [ArrowTable.sliceTable, split, noMore, ArrowTable.sliceLoop_zero, sliceKwargs,
          seenKwargs, if_pos isFirst] at seenMem
        exact .inl (List.mem_singleton.mp seenMem)
    · apply writesUniformly_of_kept unique nonempty inTime
      · exact fun _ => trivial.contained
      · intro seen seenMem
        exact (mem_sliceKwargs seenMem).imp id fun isEmpty => ⟨isEmpty, trivial⟩

/-- The arguments of a write with a schema identifier, in the catalog at `root`. -/
def schemaIdKwargs : TableWriterKwargs Unit where
  schemaId := some 1
  catalogProperties := some ⟨["root"]⟩

theorem writesUniformly_single :
    WritesUniformly Nat.repr ["root", "data"] 1800 schemaIdKwargs (fun _ => none)
      ⟨(), ['a', 'b']⟩ 2 (fun _ => []) := by
  apply (writesUniformly_iff (fun _ _ => Nat.repr_injective) (by decide)).mpr
  exact .inl ⟨⟨by decide, rfl⟩, List.prefix_append ["root"] ["data"]⟩

theorem not_writesUniformly :
    ¬∀ (kwargs : TableWriterKwargs Unit) (table : ArrowTable Unit Char)
      (maxRecordsPerEntry : ℕ+), table.rows ≠ [] → Contained ["root", "data"] kwargs →
        WritesUniformly Nat.repr ["root", "data"] 1800 kwargs (fun _ => none) table
          maxRecordsPerEntry (fun _ => []) := by
  intro always
  have contained : Contained ["root", "data"] schemaIdKwargs := List.prefix_append ["root"] ["data"]
  have uniform := always schemaIdKwargs ⟨(), ['a', 'b']⟩ 1 (by decide) contained
  have trivial := trivial_of_writesUniformly (fun _ _ => Nat.repr_injective) (by decide)
    (by decide) uniform
  cases trivial.schemaId

end SlicedWrites

end Deltacat.Types
