import Deltacat.Compute.Compactor.DeltaAnnotated
import Deltacat.Compute.CompactorV2.EqualityDeletes
import Deltacat.Library.KeyedItems
import Deltacat.Library.Replay
import Deltacat.Library.StableSorting
import Mathlib.Data.List.SplitBy

/-!
# Preparing deletes

Of the deltas of a compaction round, the deletes are taken out. Consecutive ones with
the same delete columns become one delete file at the position of the first of them.
Merging the remaining deltas with these files by their positions changes a table as
the deltas do one after another (`prepareDeletes_spec`).
-/

namespace Deltacat.Compute.CompactorV2

open Deltacat.Library Deltacat.Storage Deltacat.Utils

/--
What is in the data files, and how PyArrow concatenates it; files that cannot be read are
left out of the model.
-/
structure FileReader (Value : Type) where
  table : ManifestEntry → Table String Value
  SameTypes : Table String Value → Table String Value → Prop
  concat : ConcatTables (Table String Value) Table.rows (Table.SameSchema SameTypes)

structure EntryParams where
  equalityFieldLocators : Option (List String)
  deriving DecidableEq

/-- A committed delta that is to be compacted, with its manifest entries. -/
structure InputDelta where
  locator : DeltaLocator
  type : DeltaType
  contentType : Option String
  contentEncoding : Option String
  entryParams : Option EntryParams
  entries : List ManifestEntry
  streamPosition : ℕ
  isPosition : locator.streamPosition = some streamPosition

namespace InputDelta

/-- The rows of all files of a delta. -/
def rows {Value : Type} (read : FileReader Value) (delta : InputDelta) :
    List (Row String Value) :=
  delta.entries.flatMap fun entry => (read.table entry).rows

end InputDelta

section Preparation

variable {Value : Type} (read : FileReader Value)

/-- Reading some columns of a file returns those of them that it has. -/
def selectColumns (table : Table String Value) (columns : List String) : Table String Value where
  columnNames := columns.filter (· ∈ table.columnNames)
  rows := table.rows.map fun row column => if column ∈ columns then row column else none
  absent row rowMem column isOther := by
    rcases List.mem_map.mp rowMem with ⟨stored, storedMem, rfl⟩
    simp only [List.mem_filter, decide_eq_true_eq, not_and] at isOther
    by_cases columnMem : column ∈ columns
    · exact (if_pos columnMem).trans
        (table.absent stored storedMem column (isOther columnMem))
    · exact if_neg columnMem

/-- The key by which `_aggregate_delete_deltas` groups deltas. -/
def deleteParameters (delta : InputDelta) : Bool × Option EntryParams :=
  (delta.type = .delete, delta.entryParams)

/-- A sequence of deletes with the position of the first one. -/
def deleteSequence : List InputDelta → Option (ℕ × List InputDelta)
  | [] => none
  | first :: rest =>
      if first.type = .delete then some (first.streamPosition, first :: rest) else none

/-- `_aggregate_delete_deltas`. -/
def aggregateDeleteDeltas (inputDeltas : List InputDelta) :
    KeyedItems (Prod.fst : ℕ × List InputDelta → ℕ) :=
  let groups := inputDeltas.splitBy fun left right =>
    deleteParameters left = deleteParameters right
  (groups.filterMap deleteSequence).foldl KeyedItems.set KeyedItems.empty

/-- The delete columns of a delta, of which there must be one. -/
def requiredDeleteColumns (delta : InputDelta) :
    Except Error { columns : List String // columns ≠ [] } :=
  match delta.entryParams with
  | none => .error .assertionError
  | some entryParams =>
      match entryParams.equalityFieldLocators with
      | none => .error .typeError
      | some columns =>
          if hasColumns : columns ≠ [] then .ok ⟨columns, hasColumns⟩ else .error .assertionError

/-- The tables that `_get_delete_file_envelopes` downloads for a delta. -/
def downloadDeletes (delta : InputDelta) : Except Error (List (Table String Value)) := do
  let deleteColumns ← requiredDeleteColumns delta
  return delta.entries.map fun entry => selectColumns (read.table entry) deleteColumns.val

/-- The delete file of a sequence; its columns are those of the last delta. -/
def deleteFileEnvelope (startStreamPosition : ℕ) (deltas : List InputDelta) :
    Except Error (DeleteFileEnvelope Value) := do
  let tables ← deltas.mapM (downloadDeletes read)
  let table ← read.concat.concatTables tables.flatten
  match deltas.getLast? with
  | none => throw .unboundLocalError
  | some last =>
      let deleteColumns ← requiredDeleteColumns last
      return {
        streamPosition := startStreamPosition
        table := table
        deleteColumns := deleteColumns.val
        isReference := true
        hasColumns := deleteColumns.property }

/-- `_get_delete_file_envelopes`. -/
def getDeleteFileEnvelopes (sequences : List (ℕ × List InputDelta)) :
    Except Error (List (DeleteFileEnvelope Value)) :=
  sequences.mapM fun (startStreamPosition, deltas) =>
    deleteFileEnvelope read startStreamPosition deltas

/-- `prepare_deletes`. -/
def prepareDeletes (inputDeltas : List InputDelta) :
    Except Error (List InputDelta × List (DeleteFileEnvelope Value)) :=
  if inputDeltas.isEmpty then .ok ([], [])
  else if ¬(inputDeltas.map InputDelta.streamPosition).IsChain (· ≤ ·) then
    .error .assertionError
  else do
    let sequences := aggregateDeleteDeltas inputDeltas
    let envelopes ← getDeleteFileEnvelopes read sequences.items
    if sequences.items.length ≠ envelopes.length then throw .assertionError
    else return (inputDeltas.filter (·.type ≠ .delete), envelopes)

end Preparation

namespace InputDelta

variable {Value : Type} [DecidableEq Value] (read : FileReader Value)

def deleteColumns (delta : InputDelta) : List String :=
  (delta.entryParams.bind EntryParams.equalityFieldLocators).getD []

/-- The row agrees with a row of the delta in the delete columns that its table has. -/
def Deletes (columnNames : List String) (delta : InputDelta) (row : Row String Value) : Prop :=
  validColumns columnNames delta.deleteColumns ≠ [] ∧
    AgreesWith (delta.rows read) (validColumns columnNames delta.deleteColumns) row

instance (columnNames : List String) (delta : InputDelta) :
    DecidablePred (delta.Deletes read columnNames) := fun row =>
  inferInstanceAs (Decidable (validColumns columnNames delta.deleteColumns ≠ [] ∧
    AgreesWith (delta.rows read) (validColumns columnNames delta.deleteColumns) row))

/-- What a delta means to a table with the given columns. -/
def change (columnNames : List String) (delta : InputDelta) : Change (Row String Value) :=
  if delta.type = .delete then .remove (delta.Deletes read columnNames ·)
  else .put (delta.rows read)

end InputDelta

/-- What is merged: delete files and the deltas that are no deletes. -/
abbrev MergeStep (Value : Type) := DeleteFileEnvelope Value ⊕ InputDelta

namespace MergeStep

variable {Value : Type} [DecidableEq Value] (read : FileReader Value)

def streamPosition : MergeStep Value → ℕ
  | .inl envelope => envelope.streamPosition
  | .inr delta => delta.streamPosition

def change (columnNames : List String) : MergeStep Value → Change (Row String Value)
  | .inl envelope => .remove (envelope.Deletes columnNames ·)
  | .inr delta => .put (delta.rows read)

end MergeStep

section Spec

variable {Value : Type} {read : FileReader Value} {group : List InputDelta}

theorem deleteParameters_of_group {inputDeltas : List InputDelta}
    (groupMem : group ∈ inputDeltas.splitBy fun left right =>
      deleteParameters left = deleteParameters right) :
    ∃ first rest, group = first :: rest ∧
      ∀ delta ∈ group, deleteParameters delta = deleteParameters first := by
  rcases List.exists_cons_of_ne_nil (List.ne_nil_of_mem_splitBy groupMem) with
    ⟨first, rest, rfl⟩
  exact ⟨first, rest, rfl, fun delta deltaMem =>
    key_eq_of_mem_splitBy groupMem delta deltaMem first List.mem_cons_self⟩

theorem deleteColumns_of_group {first : InputDelta}
    (same : ∀ delta ∈ group, deleteParameters delta = deleteParameters first) :
    ∀ delta ∈ group, delta.deleteColumns = first.deleteColumns := by
  intro delta deltaMem
  have sameParams := congrArg Prod.snd (same delta deltaMem)
  simp only [deleteParameters] at sameParams
  rw [InputDelta.deleteColumns, InputDelta.deleteColumns, sameParams]

theorem requiredDeleteColumns_eq_ok {delta : InputDelta}
    {columns : { columns : List String // columns ≠ [] }}
    (returns : requiredDeleteColumns delta = .ok columns) :
    columns.val = delta.deleteColumns := by
  unfold requiredDeleteColumns at returns
  cases isParams : delta.entryParams with
  | none => simp [isParams] at returns
  | some entryParams =>
      cases isColumns : entryParams.equalityFieldLocators with
      | none => simp [isParams, isColumns] at returns
      | some deleteColumns =>
          simp only [isParams, isColumns] at returns
          split_ifs at returns
          cases returns
          simp [InputDelta.deleteColumns, isParams, isColumns]

theorem mapM_downloadDeletes {tables : List (List (Table String Value))}
    (returns : group.mapM (downloadDeletes read) = .ok tables) :
    tables = group.map fun delta =>
      delta.entries.map fun entry => selectColumns (read.table entry) delta.deleteColumns := by
  induction group generalizing tables with
  | nil =>
      cases returns
      rfl
  | cons delta group ih =>
      rw [List.mapM_cons] at returns
      cases required : requiredDeleteColumns delta with
      | error error => simp [downloadDeletes, required, bind, Except.bind] at returns
      | ok columns =>
          cases rest : group.mapM (downloadDeletes read) with
          | error error =>
              simp [downloadDeletes, required, rest, bind, Except.bind, pure, Except.pure]
                at returns
          | ok others =>
              simp only [downloadDeletes, required, rest, bind, Except.bind, pure, Except.pure,
                Except.ok.injEq] at returns
              rw [← returns, List.map_cons, ← ih rest, requiredDeleteColumns_eq_ok required]

/-- What the delete file of a sequence is made of. -/
theorem deleteFileEnvelope_eq_ok {startStreamPosition : ℕ} {first : InputDelta}
    {envelope : DeleteFileEnvelope Value}
    (same : ∀ delta ∈ group, deleteParameters delta = deleteParameters first)
    (returns : deleteFileEnvelope read startStreamPosition group = .ok envelope) :
    envelope.streamPosition = startStreamPosition ∧ envelope.isReference ∧
      envelope.deleteColumns = first.deleteColumns ∧
      envelope.table.rows = group.flatMap fun delta => delta.entries.flatMap fun entry =>
        (selectColumns (read.table entry) first.deleteColumns).rows := by
  have sameColumns := deleteColumns_of_group same
  cases downloaded : group.mapM (downloadDeletes read) with
  | error error => simp [deleteFileEnvelope, downloaded, bind, Except.bind] at returns
  | ok tables =>
      cases concatenated : read.concat.concatTables tables.flatten with
      | error error =>
          simp [deleteFileEnvelope, downloaded, concatenated, bind, Except.bind] at returns
      | ok table =>
          have isTable : table.rows = group.flatMap fun delta =>
              delta.entries.flatMap fun entry =>
                (selectColumns (read.table entry) first.deleteColumns).rows := by
            rw [read.concat.rows concatenated, mapM_downloadDeletes downloaded,
              ← List.flatMap_def, List.flatMap_assoc]
            apply List.flatMap_congr
            intro delta deltaMem
            rw [List.flatMap_map, sameColumns delta deltaMem]
          cases isLast : group.getLast? with
          | none =>
              simp [deleteFileEnvelope, downloaded, concatenated, isLast, bind, Except.bind,
                throw, throwThe, MonadExceptOf.throw] at returns
          | some last =>
              cases required : requiredDeleteColumns last with
              | error error =>
                  simp [deleteFileEnvelope, downloaded, concatenated, isLast, required, bind,
                    Except.bind] at returns
              | ok columns =>
                  simp only [deleteFileEnvelope, downloaded, concatenated, isLast, required, bind,
                    Except.bind, pure, Except.pure, Except.ok.injEq] at returns
                  subst returns
                  refine ⟨rfl, rfl, ?_, isTable⟩
                  exact (requiredDeleteColumns_eq_ok required).trans
                    (sameColumns last (List.mem_of_getLast? isLast))

/-- The delete file of a sequence deletes what its deltas delete. -/
theorem deletes_deleteFileEnvelope {startStreamPosition : ℕ} {first : InputDelta}
    {envelope : DeleteFileEnvelope Value} {columnNames : List String} {row : Row String Value}
    (same : ∀ delta ∈ group, deleteParameters delta = deleteParameters first)
    (returns : deleteFileEnvelope read startStreamPosition group = .ok envelope) :
    envelope.Deletes columnNames row ↔
      ∃ delta ∈ group, delta.Deletes read columnNames row := by
  rcases deleteFileEnvelope_eq_ok same returns with ⟨_, isReference, isColumns, isRows⟩
  have sameColumns := deleteColumns_of_group same
  unfold DeleteFileEnvelope.Deletes InputDelta.Deletes
  rw [isColumns, isRows]
  let columns := validColumns columnNames first.deleteColumns
  have selected : ∀ stored : Row String Value, ∀ column ∈ columns,
      (if column ∈ first.deleteColumns then stored column else none) = stored column :=
    fun stored column columnMem => if_pos (List.mem_of_mem_filter columnMem)
  constructor
  · rintro ⟨_, someColumn, other, otherMem, agrees⟩
    rcases List.mem_flatMap.mp otherMem with ⟨delta, deltaMem, otherMem⟩
    rcases List.mem_flatMap.mp otherMem with ⟨entry, entryMem, otherMem⟩
    rcases List.mem_map.mp otherMem with ⟨stored, storedMem, rfl⟩
    refine ⟨delta, deltaMem, ?_⟩
    rw [sameColumns delta deltaMem]
    refine ⟨someColumn, stored, List.mem_flatMap.mpr ⟨entry, entryMem, storedMem⟩, ?_⟩
    intro column columnMem
    exact (agrees column columnMem).trans (selected stored column columnMem)
  · rintro ⟨delta, deltaMem, deletes⟩
    rw [sameColumns delta deltaMem] at deletes
    rcases deletes with ⟨someColumn, stored, storedMem, agrees⟩
    rcases List.mem_flatMap.mp storedMem with ⟨entry, entryMem, storedMem⟩
    refine ⟨isReference, someColumn, _, List.mem_flatMap.mpr ⟨delta, deltaMem,
      List.mem_flatMap.mpr ⟨entry, entryMem, List.mem_map.mpr ⟨stored, storedMem, rfl⟩⟩⟩, ?_⟩
    intro column columnMem
    rw [agrees column columnMem]
    exact (selected stored column columnMem).symm

variable [DecidableEq Value] {bucket : Row String Value → ℕ} (merging : Merging bucket)
  (read) (columnNames : List String)

/-- A sequence of deletes removes what its delete file removes. -/
theorem replay_deletes (bag : List (Row String Value))
    (areDeletes : ∀ delta ∈ group, delta.type = .delete) :
    replay merging bag (group.map (InputDelta.change read columnNames)) =
      bag.filter fun row => ¬∃ delta ∈ group, delta.Deletes read columnNames row := by
  induction group generalizing bag with
  | nil => simp
  | cons delta group ih =>
      have isDelete := areDeletes delta List.mem_cons_self
      rw [List.map_cons, replay_cons,
        ih _ fun other otherMem => areDeletes other (List.mem_cons_of_mem _ otherMem)]
      simp only [InputDelta.change, isDelete, if_true, Change.apply, List.filter_filter]
      apply List.filter_congr
      intro row _
      rw [Bool.eq_iff_iff]
      simp only [Bool.and_eq_true, Bool.not_eq_true', decide_eq_true_eq, decide_eq_false_iff_not,
        List.mem_cons]
      constructor
      · rintro ⟨notRest, notFirst⟩ ⟨other, rfl | otherMem, deletes⟩
        · exact notFirst deletes
        · exact notRest ⟨other, otherMem, deletes⟩
      · intro none
        refine ⟨?_, fun deletes => none ⟨delta, Or.inl rfl, deletes⟩⟩
        rintro ⟨other, otherMem, deletes⟩
        exact none ⟨other, Or.inr otherMem, deletes⟩

/-- The steps do what the deltas do, at positions that the deltas have. -/
structure Merges (inputDeltas : List InputDelta) (steps : List (MergeStep Value)) : Prop where
  positions : (steps.map MergeStep.streamPosition).Sublist
    (inputDeltas.map InputDelta.streamPosition)
  deltas : steps.filterMap Sum.getRight? = inputDeltas.filter (·.type ≠ .delete)
  replays : ∀ bag, replay merging bag (steps.map (MergeStep.change read columnNames)) =
    replay merging bag (inputDeltas.map (InputDelta.change read columnNames))

variable {read columnNames merging}

theorem Merges.append {first second : List InputDelta}
    {firstSteps secondSteps : List (MergeStep Value)}
    (firstMerges : Merges read merging columnNames first firstSteps)
    (secondMerges : Merges read merging columnNames second secondSteps) :
    Merges read merging columnNames (first ++ second) (firstSteps ++ secondSteps) where
  positions := by
    rw [List.map_append, List.map_append]
    exact firstMerges.positions.append secondMerges.positions
  deltas := by
    rw [List.filterMap_append, List.filter_append, firstMerges.deltas, secondMerges.deltas]
  replays bag := by
    rw [List.map_append, List.map_append, replay_append, replay_append, firstMerges.replays,
      secondMerges.replays]

/-- Deltas that are no deletes are merged as they are. -/
theorem merges_others (noDeletes : ∀ delta ∈ group, delta.type ≠ .delete) :
    Merges read merging columnNames group (group.map Sum.inr) where
  positions := by
    rw [List.map_map]
    exact List.Sublist.refl _
  deltas := by
    rw [List.filterMap_map, List.filter_eq_self.mpr (by simpa using noDeletes)]
    exact List.filterMap_some
  replays bag := by
    rw [List.map_map]
    congr 1
    apply List.map_congr_left
    intro delta deltaMem
    rw [InputDelta.change, if_neg (noDeletes delta deltaMem)]
    rfl

theorem merges_deletes {first : InputDelta} {rest : List InputDelta}
    {envelope : DeleteFileEnvelope Value}
    (same : ∀ delta ∈ first :: rest, deleteParameters delta = deleteParameters first)
    (isDelete : first.type = .delete)
    (returns : deleteFileEnvelope read first.streamPosition (first :: rest) = .ok envelope) :
    Merges read merging columnNames (first :: rest) [Sum.inl envelope] := by
  have areDeletes : ∀ delta ∈ first :: rest, delta.type = .delete := by
    intro delta deltaMem
    have sameType := congrArg Prod.fst (same delta deltaMem)
    simpa [deleteParameters, isDelete] using sameType
  constructor
  · have isPosition := (deleteFileEnvelope_eq_ok same returns).1
    simp [MergeStep.streamPosition, isPosition]
  · symm
    rw [List.filterMap_cons]
    simpa using areDeletes
  · intro bag
    rw [replay_deletes read merging columnNames bag areDeletes, List.map_singleton, replay_cons,
      replay_nil]
    apply List.filter_congr
    intro row _
    rw [Bool.eq_iff_iff]
    simpa using (deletes_deleteFileEnvelope same returns).not

/-- The groups are merged one after another. -/
theorem exists_merges {groups : List (List InputDelta)}
    {envelopes : List (DeleteFileEnvelope Value)}
    (grouped : ∀ group ∈ groups, ∃ first rest, group = first :: rest ∧
      ∀ delta ∈ group, deleteParameters delta = deleteParameters first)
    (returns : getDeleteFileEnvelopes read (groups.filterMap deleteSequence) = .ok envelopes) :
    ∃ steps, Merges read merging columnNames groups.flatten steps ∧
      steps.filterMap Sum.getLeft? = envelopes := by
  induction groups generalizing envelopes with
  | nil =>
      cases returns
      exact ⟨[], ⟨List.Sublist.refl _, rfl, fun _ => rfl⟩, rfl⟩
  | cons group groups ih =>
      have groupedRest := fun other otherMem => grouped other (List.mem_cons_of_mem _ otherMem)
      rcases grouped group List.mem_cons_self with ⟨first, rest, rfl, same⟩
      by_cases isDelete : first.type = .delete
      · rw [List.filterMap_cons_some (by rw [deleteSequence, if_pos isDelete])] at returns
        cases isEnvelope : deleteFileEnvelope read first.streamPosition (first :: rest) with
        | error error =>
            simp [getDeleteFileEnvelopes, List.mapM_cons, isEnvelope, bind, Except.bind] at returns
        | ok envelope =>
            cases isRest : getDeleteFileEnvelopes read (groups.filterMap deleteSequence) with
            | error error =>
                rw [getDeleteFileEnvelopes] at isRest
                simp [getDeleteFileEnvelopes, List.mapM_cons, isEnvelope, isRest, bind,
                  Except.bind] at returns
            | ok others =>
                rcases ih groupedRest isRest with ⟨steps, merges, areEnvelopes⟩
                rw [getDeleteFileEnvelopes] at isRest
                simp only [getDeleteFileEnvelopes, List.mapM_cons, isEnvelope, isRest, bind,
                  Except.bind, pure, Except.pure, Except.ok.injEq] at returns
                refine ⟨Sum.inl envelope :: steps, ?_, ?_⟩
                · exact (merges_deletes same isDelete isEnvelope).append merges
                · rw [← returns, ← areEnvelopes]
                  rfl
      · rw [List.filterMap_cons_none (by rw [deleteSequence, if_neg isDelete])] at returns
        rcases ih groupedRest returns with ⟨steps, merges, areEnvelopes⟩
        have noDeletes : ∀ delta ∈ first :: rest, delta.type ≠ .delete := by
          intro delta deltaMem isOther
          have sameType := congrArg Prod.fst (same delta deltaMem)
          simp [deleteParameters, isDelete, isOther] at sameType
        refine ⟨(first :: rest).map Sum.inr ++ steps, (merges_others noDeletes).append merges, ?_⟩
        rw [List.filterMap_append, areEnvelopes, List.filterMap_map]
        simp

omit [DecidableEq Value] in
theorem items_foldl_set {Item Key : Type} [DecidableEq Key] {key : Item → Key}
    (items : List Item) (stored : KeyedItems key) (distinct : (items.map key).Nodup)
    (fresh : ∀ item ∈ items, stored.get? (key item) = none) :
    (items.foldl KeyedItems.set stored).items = stored.items ++ items := by
  induction items generalizing stored with
  | nil => exact (List.append_nil _).symm
  | cons item items ih =>
      rw [List.map_cons, List.nodup_cons] at distinct
      have isSet := KeyedItems.items_set_of_fresh (fresh item List.mem_cons_self)
      have stillFresh : ∀ other ∈ items, (stored.set item).get? (key other) = none := by
        intro other otherMem
        rw [KeyedItems.get?_set, if_neg]
        · exact fresh other (List.mem_cons_of_mem _ otherMem)
        · intro sameKey
          exact distinct.1 (sameKey ▸ List.mem_map_of_mem otherMem)
      rw [List.foldl_cons, ih _ distinct.2 stillFresh, isSet, List.append_assoc]
      rfl

omit [DecidableEq Value] in
/-- The positions at which sequences of deletes start are positions of deltas. -/
theorem positions_deleteSequences (groups : List (List InputDelta)) :
    ((groups.filterMap deleteSequence).map Prod.fst).Sublist
      (groups.flatten.map InputDelta.streamPosition) := by
  induction groups with
  | nil => exact List.Sublist.refl _
  | cons group groups ih =>
      rw [List.flatten_cons, List.map_append]
      cases group with
      | nil => exact ih
      | cons first rest =>
          by_cases isDelete : first.type = .delete
          · rw [List.filterMap_cons_some (by rw [deleteSequence, if_pos isDelete]),
              List.map_cons, List.map_cons, List.cons_append]
            exact (ih.trans (List.sublist_append_right _ _)).cons_cons _
          · rw [List.filterMap_cons_none (by rw [deleteSequence, if_neg isDelete])]
            exact ih.trans (List.sublist_append_right _ _)

omit [DecidableEq Value] in
/-- No sequence of deletes takes the place of another one, if positions are distinct. -/
theorem items_aggregateDeleteDeltas {inputDeltas : List InputDelta}
    (distinct : (inputDeltas.map InputDelta.streamPosition).Nodup) :
    (aggregateDeleteDeltas inputDeltas).items =
      (inputDeltas.splitBy fun left right =>
        deleteParameters left = deleteParameters right).filterMap deleteSequence := by
  have positions := positions_deleteSequences (inputDeltas.splitBy fun left right =>
    deleteParameters left = deleteParameters right)
  rw [List.flatten_splitBy] at positions
  exact items_foldl_set _ _ (distinct.sublist positions) fun _ _ => rfl

omit [DecidableEq Value] in
theorem filter_isLeft (steps : List (MergeStep Value)) :
    steps.filter Sum.isLeft = (steps.filterMap Sum.getLeft?).map Sum.inl := by
  induction steps with
  | nil => rfl
  | cons step steps ih =>
      cases step with
      | inl envelope =>
          rw [List.filter_cons_of_pos rfl, ih]
          rfl
      | inr delta =>
          rw [List.filter_cons_of_neg Bool.false_ne_true, ih]
          rfl

omit [DecidableEq Value] in
theorem filter_isRight (steps : List (MergeStep Value)) :
    steps.filter (!Sum.isLeft ·) = (steps.filterMap Sum.getRight?).map Sum.inr := by
  induction steps with
  | nil => rfl
  | cons step steps ih =>
      cases step with
      | inl envelope =>
          rw [List.filter_cons_of_neg Bool.false_ne_true, ih]
          rfl
      | inr delta =>
          rw [List.filter_cons_of_pos rfl, ih]
          rfl

/-- Deletes have delete columns and files with these columns. -/
structure InputDelta.Readable (read : FileReader Value) (delta : InputDelta) : Prop where
  hasColumns : delta.deleteColumns ≠ []
  hasEntries : delta.entries ≠ []
  haveColumns : ∀ entry ∈ delta.entries, delta.deleteColumns ⊆ (read.table entry).columnNames

/-- Files of deletes with the same delete columns have the same types in these columns. -/
def SameDeleteTypes (read : FileReader Value) (deltas : List InputDelta) : Prop :=
  ∀ left ∈ deltas, ∀ right ∈ deltas, deleteParameters left = deleteParameters right →
    left.type = .delete → ∀ entry ∈ left.entries, ∀ other ∈ right.entries,
      read.SameTypes (selectColumns (read.table entry) left.deleteColumns)
        (selectColumns (read.table other) right.deleteColumns)

omit [DecidableEq Value] in
theorem SameDeleteTypes.subset {deltas others : List InputDelta}
    (sameTypes : SameDeleteTypes read deltas) (isSubset : others ⊆ deltas) :
    SameDeleteTypes read others :=
  fun left leftMem right rightMem =>
    sameTypes left (isSubset leftMem) right (isSubset rightMem)

omit [DecidableEq Value] in
theorem exists_deleteFileEnvelope {first : InputDelta} {rest : List InputDelta}
    (same : ∀ delta ∈ first :: rest, deleteParameters delta = deleteParameters first)
    (areDeletes : ∀ delta ∈ first :: rest, delta.type = .delete)
    (readable : ∀ delta ∈ first :: rest, delta.Readable read)
    (sameTypes : SameDeleteTypes read (first :: rest)) (startStreamPosition : ℕ) :
    ∃ envelope, deleteFileEnvelope read startStreamPosition (first :: rest) = .ok envelope := by
  have sameColumns := deleteColumns_of_group same
  have required :
      ∀ delta ∈ first :: rest, ∃ columns, requiredDeleteColumns delta = .ok columns := by
    intro delta deltaMem
    have hasColumns := (readable delta deltaMem).hasColumns
    unfold requiredDeleteColumns
    cases isParams : delta.entryParams with
    | none => simp [InputDelta.deleteColumns, isParams] at hasColumns
    | some entryParams =>
        cases isColumns : entryParams.equalityFieldLocators with
        | none => simp [InputDelta.deleteColumns, isParams, isColumns] at hasColumns
        | some columns =>
            simp only [InputDelta.deleteColumns, isParams, isColumns, Option.bind_some,
              Option.getD_some] at hasColumns
            simp only [isColumns]
            exact ⟨⟨columns, hasColumns⟩, dif_pos hasColumns⟩
  have downloads : ∀ deltas ⊆ first :: rest, deltas.mapM (downloadDeletes read) =
      .ok (deltas.map fun delta =>
        delta.entries.map fun entry => selectColumns (read.table entry) delta.deleteColumns) := by
    intro deltas
    induction deltas with
    | nil => exact fun _ => rfl
    | cons delta deltas ih =>
        intro isSubset
        rcases required delta (isSubset List.mem_cons_self) with ⟨columns, isRequired⟩
        have isRest := ih fun _ otherMem => isSubset (List.mem_cons_of_mem _ otherMem)
        rw [List.mapM_cons, isRest, downloadDeletes, isRequired, List.map_cons,
          ← requiredDeleteColumns_eq_ok isRequired]
        rfl
  have concatenates : ∃ table, read.concat.concatTables ((first :: rest).map fun delta =>
      delta.entries.map fun entry =>
        selectColumns (read.table entry) delta.deleteColumns).flatten = .ok table := by
    have ofTable : ∀ table ∈ ((first :: rest).map fun delta => delta.entries.map fun entry =>
        selectColumns (read.table entry) delta.deleteColumns).flatten,
        ∃ delta ∈ first :: rest, ∃ entry ∈ delta.entries,
          table = selectColumns (read.table entry) delta.deleteColumns := by
      intro table tableMem
      rcases List.mem_flatten.mp tableMem with ⟨tables, tablesMem, tableMem⟩
      rcases List.mem_map.mp tablesMem with ⟨delta, deltaMem, rfl⟩
      rcases List.mem_map.mp tableMem with ⟨entry, entryMem, rfl⟩
      exact ⟨delta, deltaMem, entry, entryMem, rfl⟩
    have areColumns : ∀ delta ∈ first :: rest, ∀ entry ∈ delta.entries,
        (selectColumns (read.table entry) delta.deleteColumns).columnNames =
          first.deleteColumns := by
      intro delta deltaMem entry entryMem
      rw [← sameColumns delta deltaMem]
      apply List.filter_eq_self.mpr
      intro column columnMem
      simpa using (readable delta deltaMem).haveColumns entry entryMem columnMem
    apply read.concat.succeeds
    · rcases List.exists_cons_of_ne_nil (readable first List.mem_cons_self).hasEntries with
        ⟨entry, entries, isCons⟩
      simp [isCons]
    · intro left leftMem right rightMem
      rcases ofTable left leftMem with ⟨leftDelta, leftDeltaMem, entry, entryMem, rfl⟩
      rcases ofTable right rightMem with ⟨rightDelta, rightDeltaMem, other, otherMem, rfl⟩
      refine ⟨?_, ?_⟩
      · rw [areColumns leftDelta leftDeltaMem entry entryMem,
          areColumns rightDelta rightDeltaMem other otherMem]
      · exact sameTypes leftDelta leftDeltaMem rightDelta rightDeltaMem
          ((same leftDelta leftDeltaMem).trans (same rightDelta rightDeltaMem).symm)
          (areDeletes leftDelta leftDeltaMem) entry entryMem other otherMem
  rcases concatenates with ⟨table, isTable⟩
  have isLast := List.getLast?_eq_some_getLast (List.cons_ne_nil first rest)
  rcases required _ (List.getLast_mem (List.cons_ne_nil first rest)) with ⟨columns, isRequired⟩
  rw [deleteFileEnvelope, downloads _ (List.Subset.refl _)]
  simp only [bind, Except.bind, isTable, isLast, isRequired]
  exact ⟨_, rfl⟩

omit [DecidableEq Value] in
theorem exists_getDeleteFileEnvelopes {groups : List (List InputDelta)}
    (grouped : ∀ group ∈ groups, ∃ first rest, group = first :: rest ∧
      ∀ delta ∈ group, deleteParameters delta = deleteParameters first)
    (readable : ∀ delta ∈ groups.flatten, delta.type = .delete → delta.Readable read)
    (sameTypes : SameDeleteTypes read groups.flatten) :
    ∃ envelopes, getDeleteFileEnvelopes read (groups.filterMap deleteSequence) = .ok envelopes ∧
      (groups.filterMap deleteSequence).length = envelopes.length := by
  induction groups with
  | nil => exact ⟨[], rfl, rfl⟩
  | cons group groups ih =>
      rcases grouped group List.mem_cons_self with ⟨first, rest, rfl, same⟩
      rcases ih (fun other otherMem => grouped other (List.mem_cons_of_mem _ otherMem))
        (fun delta deltaMem => readable delta (List.mem_append_right _ deltaMem))
        (sameTypes.subset (List.subset_append_right _ _)) with
        ⟨envelopes, areEnvelopes, sameLength⟩
      by_cases isDelete : first.type = .delete
      · have areDeletes : ∀ delta ∈ first :: rest, delta.type = .delete := by
          intro delta deltaMem
          have sameType := congrArg Prod.fst (same delta deltaMem)
          simpa [deleteParameters, isDelete] using sameType
        have readableGroup : ∀ delta ∈ first :: rest, delta.Readable read :=
          fun delta deltaMem => readable delta (List.mem_append_left _ deltaMem)
            (areDeletes delta deltaMem)
        rcases exists_deleteFileEnvelope same areDeletes readableGroup
          (sameTypes.subset (List.subset_append_left _ _)) first.streamPosition with
          ⟨envelope, isEnvelope⟩
        rw [List.filterMap_cons_some (by rw [deleteSequence, if_pos isDelete])]
        rw [getDeleteFileEnvelopes] at areEnvelopes ⊢
        refine ⟨envelope :: envelopes, ?_, congrArg Nat.succ sameLength⟩
        simp only [List.mapM_cons, isEnvelope, areEnvelopes, bind, Except.bind]
        rfl
      · rw [List.filterMap_cons_none (by rw [deleteSequence, if_neg isDelete])]
        exact ⟨envelopes, areEnvelopes, sameLength⟩

omit [DecidableEq Value] in
/-- The delete files are at positions of the deltas that they are made of. -/
theorem positions_getLeft {inputDeltas : List InputDelta} {steps : List (MergeStep Value)}
    (positions : (steps.map MergeStep.streamPosition).Sublist
      (inputDeltas.map InputDelta.streamPosition)) :
    ((steps.filterMap Sum.getLeft?).map DeleteFileEnvelope.streamPosition).Sublist
      (inputDeltas.map InputDelta.streamPosition) := by
  refine List.Sublist.trans ?_ positions
  clear positions
  induction steps with
  | nil => exact List.Sublist.refl _
  | cons step steps ih =>
      cases step with
      | inl envelope => exact ih.cons_cons envelope.streamPosition
      | inr delta => exact ih.cons delta.streamPosition

/-- What deletes are prepared to. -/
theorem prepareDeletes_eq_ok (merging : Merging bucket) (columnNames : List String)
    {inputDeltas others : List InputDelta} {envelopes : List (DeleteFileEnvelope Value)}
    (ascending : (inputDeltas.map InputDelta.streamPosition).Pairwise (· < ·))
    (returns : prepareDeletes read inputDeltas = .ok (others, envelopes)) :
    others = inputDeltas.filter (·.type ≠ .delete) ∧
      (envelopes.map DeleteFileEnvelope.streamPosition).Sublist
        (inputDeltas.map InputDelta.streamPosition) ∧
      ∀ bag, replay merging bag (((envelopes.map Sum.inl ++ others.map Sum.inr).insertionSort
          fun left right : MergeStep Value => left.streamPosition ≤ right.streamPosition).map
            (MergeStep.change read columnNames)) =
        replay merging bag (inputDeltas.map (InputDelta.change read columnNames)) := by
  have isChain : (inputDeltas.map InputDelta.streamPosition).IsChain (· ≤ ·) :=
    (ascending.imp le_of_lt).isChain
  have sequences := items_aggregateDeleteDeltas (ascending.imp ne_of_lt)
  let groups := inputDeltas.splitBy fun left right =>
    deleteParameters left = deleteParameters right
  have isFlat : groups.flatten = inputDeltas := List.flatten_splitBy _ _
  have grouped : ∀ group ∈ groups, ∃ first rest, group = first :: rest ∧
      ∀ delta ∈ group, deleteParameters delta = deleteParameters first :=
    fun group groupMem => deleteParameters_of_group groupMem
  by_cases isEmpty : inputDeltas.isEmpty
  · obtain rfl := List.isEmpty_iff.mp isEmpty
    cases returns
    exact ⟨rfl, List.Sublist.refl _, fun _ => rfl⟩
  · rw [prepareDeletes, if_neg isEmpty, if_neg (not_not.mpr isChain)] at returns
    cases areEnvelopes : getDeleteFileEnvelopes read (aggregateDeleteDeltas inputDeltas).items with
    | error error => simp [areEnvelopes, bind, Except.bind] at returns
    | ok prepared =>
        simp only [areEnvelopes, bind, Except.bind, pure, Except.pure, throw, throwThe,
          MonadExceptOf.throw] at returns
        split_ifs at returns
        simp only [Except.ok.injEq, Prod.mk.injEq] at returns
        rcases returns with ⟨rfl, rfl⟩
        rw [sequences] at areEnvelopes
        have merged : ∃ steps, Merges read merging columnNames groups.flatten steps ∧
            steps.filterMap Sum.getLeft? = prepared := exists_merges grouped areEnvelopes
        rcases merged with ⟨steps, merges, isLeft⟩
        rw [isFlat] at merges
        have stepsAscending := ascending.sublist merges.positions
        have distinct := stepsAscending.imp ne_of_lt
        rw [List.pairwise_map] at stepsAscending
        have sorts := insertionSort_parts (stepsAscending.imp le_of_lt)
          fun left leftMem right rightMem samePosition => congrArg Sum.isLeft
            (List.inj_on_of_nodup_map distinct leftMem rightMem samePosition)
        rw [filter_isLeft, filter_isRight, isLeft, merges.deltas] at sorts
        refine ⟨rfl, isLeft ▸ positions_getLeft merges.positions, ?_⟩
        intro bag
        rw [sorts, merges.replays bag]

omit [DecidableEq Value] in
/-- Deletes can be prepared if they can be read. -/
theorem exists_prepareDeletes {inputDeltas : List InputDelta}
    (ascending : (inputDeltas.map InputDelta.streamPosition).Pairwise (· < ·))
    (readable : ∀ delta ∈ inputDeltas, delta.type = .delete → delta.Readable read)
    (sameTypes : SameDeleteTypes read inputDeltas) :
    ∃ prepared, prepareDeletes read inputDeltas = .ok prepared := by
  have isChain : (inputDeltas.map InputDelta.streamPosition).IsChain (· ≤ ·) :=
    (ascending.imp le_of_lt).isChain
  have sequences := items_aggregateDeleteDeltas (ascending.imp ne_of_lt)
  let groups := inputDeltas.splitBy fun left right =>
    deleteParameters left = deleteParameters right
  have isFlat : groups.flatten = inputDeltas := List.flatten_splitBy _ _
  have grouped : ∀ group ∈ groups, ∃ first rest, group = first :: rest ∧
      ∀ delta ∈ group, deleteParameters delta = deleteParameters first :=
    fun group groupMem => deleteParameters_of_group groupMem
  rcases exists_getDeleteFileEnvelopes grouped (by rwa [isFlat]) (by rwa [isFlat]) with
    ⟨envelopes, areEnvelopes, sameLength⟩
  rw [prepareDeletes]
  split_ifs with isEmpty
  · exact ⟨_, rfl⟩
  · rw [← sequences] at areEnvelopes sameLength
    simp only [areEnvelopes, bind, Except.bind, if_neg (not_not.mpr sameLength)]
    exact ⟨_, rfl⟩

/--
Deletes are prepared faithfully. For deltas at ascending positions, the delete files
merged with the other deltas in the order of their positions change every table as the
deltas do one after another, however rows are put into the table. Preparing succeeds if
every delete has delete columns and files with these columns, and the types of these columns
are the same in all files of deletes with the same delete columns.
-/
theorem prepareDeletes_spec (read : FileReader Value) {bucket : Row String Value → ℕ}
    (merging : Merging bucket) (columnNames : List String) (inputDeltas : List InputDelta)
    (ascending : (inputDeltas.map InputDelta.streamPosition).Pairwise (· < ·)) :
    (∀ others envelopes, prepareDeletes read inputDeltas = .ok (others, envelopes) →
      others = inputDeltas.filter (·.type ≠ .delete) ∧
      ∀ bag, replay merging bag (((envelopes.map Sum.inl ++ others.map Sum.inr).insertionSort
          fun left right : MergeStep Value => left.streamPosition ≤ right.streamPosition).map
            (MergeStep.change read columnNames)) =
        replay merging bag (inputDeltas.map (InputDelta.change read columnNames))) ∧
    ((∀ delta ∈ inputDeltas, delta.type = .delete → delta.Readable read) →
      SameDeleteTypes read inputDeltas →
        ∃ prepared, prepareDeletes read inputDeltas = .ok prepared) := by
  refine ⟨?_, exists_prepareDeletes ascending⟩
  intro others envelopes returns
  rcases prepareDeletes_eq_ok merging columnNames ascending returns with ⟨areOthers, _, replays⟩
  exact ⟨areOthers, replays⟩

end Spec

section Examples

/-- A delta of one file at a stream position. -/
def storeDelta (type : DeltaType) (entryParams : Option EntryParams) (streamPosition : ℕ) :
    InputDelta where
  locator := ⟨⟨[], .partitionName none (some "p")⟩, some streamPosition⟩
  type := type
  contentType := none
  contentEncoding := none
  entryParams := entryParams
  entries := [parquetEntry "file"]
  streamPosition := streamPosition
  isPosition := rfl

/-- All files have the same rows, and columns of one name have one type. -/
def readsAll {Value : Type} (table : Table String Value) : FileReader Value where
  table _ := table
  SameTypes _ _ := True
  concat := Table.concatSameColumns

/-- Two deletes by region between two upserts. -/
def regionDeletes : List InputDelta :=
  [storeDelta .upsert none 1, storeDelta .delete (some ⟨some ["region"]⟩) 2,
    storeDelta .delete (some ⟨some ["region"]⟩) 3, storeDelta .upsert none 4]

theorem prepareDeletes_spec_regionDeletes :
    ∃ others envelopes,
      prepareDeletes (readsAll (storeTable [(some "eu", some "1")])) regionDeletes =
        .ok (others, envelopes) ∧ others.length = 2 := by
  have spec := prepareDeletes_spec (readsAll (storeTable [(some "eu", some "1")]))
    (Merging.appending fun _ => 0) ["region", "store"] regionDeletes (by decide)
  rcases spec.2 (by
    intro delta deltaMem isDelete
    simp only [regionDeletes, List.mem_cons, List.not_mem_nil, or_false] at deltaMem
    rcases deltaMem with rfl | rfl | rfl | rfl
    · cases isDelete
    · exact ⟨by decide, by decide, by decide⟩
    · exact ⟨by decide, by decide, by decide⟩
    · cases isDelete) (fun _ _ _ _ _ _ _ _ _ _ => trivial) with ⟨⟨others, envelopes⟩, prepared⟩
  refine ⟨others, envelopes, prepared, ?_⟩
  rw [(spec.1 others envelopes prepared).1]
  rfl

end Examples

end Deltacat.Compute.CompactorV2
