import Deltacat.Compute.CompactorV2.MergeTask
import Deltacat.Library.OrderedReplay

/-!
# Uniform deltas

The deltas of a session are rebatched to uniform ones, which are spread over the rounds of
the session. However the entries are split and grouped, and whatever the rounds, the entries
put the same rows at the same positions (`buildUniformDeltas_replays`).
-/

namespace Deltacat.Compute.CompactorV2

open Deltacat.Library Deltacat.Storage Deltacat.Utils

/-- `CompactPartitionParams`, for a session that does not rebase. -/
structure CompactPartitionParams (Value Bytes Count : Type) where
  read : FileReader Value
  hashing : KeyHashing Value
  arrow : ArrowJoins Value
  sortBy : Table String Value → List (String × SortOrder) → Except Error (Table String Value)
  batches : TableBatches Value
  primaryKeys : List String
  sortKeys : Option (List (SortKey String))
  dropDuplicates : Bool
  originalFields : List String
  disableCopyByReference : Bool
  numRounds : ℕ
  lastStreamPositionToCompact : ℕ
  minDeltaBytesInBatch : Bytes
  minFilesInBatch : Count
  estimateManifestEntrySizeBytes : ManifestEntry → Bytes
  enableInputSplit : Bool
  storage : CompactionStorage Value
  /-- The partition that was staged. -/
  compactedPartition : Metafile
  /-- The hexadecimal UUIDs that the hash bucket tasks of a round draw. -/
  hashBucketUuids : ℕ → ℕ → ℕ → String
  /-- The UUIDs of the manifests that a merge task of a round copies. -/
  mergeUuids : ℕ → ℕ → ℕ → String
  manifestUuid : String

/-- `DeltaAnnotated.of`. -/
def InputDelta.annotated (delta : InputDelta) : Compactor.DeltaAnnotated :=
  .of delta.locator (some delta.type) delta.contentType delta.contentEncoding delta.entries

/-- `contains_delete_deltas`. -/
def containsDeleteDeltas (deltas : List InputDelta) : Bool := deltas.any (·.type = .delete)

section Build

variable {Value Bytes Count : Type} [Add Bytes] [Zero Bytes] [LE Bytes] [DecidableLE Bytes]
  [NatCast Count] [LE Count] [DecidableLE Count] (params : CompactPartitionParams Value Bytes Count)

/-- `create_uniform_input_deltas`, after the parameters of the content types were appended. -/
def createUniformInputDeltas (inputDeltas : List InputDelta) :
    Except Error (List Compactor.DeltaAnnotated) :=
  Compactor.DeltaAnnotated.rebatch (inputDeltas.map InputDelta.annotated)
    params.minDeltaBytesInBatch params.minFilesInBatch params.estimateManifestEntrySizeBytes
    params.enableInputSplit

/-- `_build_uniform_deltas`, with the delete files if there are deletes. -/
def buildUniformDeltas (inputDeltas : List InputDelta) :
    Except Error (List Compactor.DeltaAnnotated × Option (List (DeleteFileEnvelope Value))) :=
  if containsDeleteDeltas inputDeltas then do
    let (others, deleteFileEnvelopes) ← prepareDeletes params.read inputDeltas
    let uniformDeltas ← createUniformInputDeltas params others
    return (uniformDeltas, some deleteFileEnvelopes)
  else do
    let uniformDeltas ← createUniformInputDeltas params inputDeltas
    return (uniformDeltas, none)

/-- `_group_uniform_deltas`. -/
def groupUniformDeltas (numRounds : ℕ) (uniformDeltas : List Compactor.DeltaAnnotated) :
    Except Error (List (List Compactor.DeltaAnnotated)) :=
  if numRounds = 1 then .ok [uniformDeltas]
  else if ¬0 < numRounds then .error .assertionError
  else if ¬numRounds ≤ uniformDeltas.length then .error .assertionError
  else
    let size := (uniformDeltas.length + numRounds - 1) / numRounds
    let uniformDeltasGrouped := (List.range numRounds).map fun round =>
      (uniformDeltas.drop (round * size)).take size
    if (uniformDeltasGrouped.map List.length).sum ≠ uniformDeltas.length then
      .error .assertionError
    else .ok uniformDeltasGrouped

end Build

section Group

/-- Slices of one size, one after another, are the beginning of a list. -/
theorem flatten_slices {Item : Type} (items : List Item) (size count : ℕ) :
    ((List.range count).map fun index => (items.drop (index * size)).take size).flatten =
      items.take (count * size) := by
  induction count with
  | zero => simp
  | succ count ih =>
      rw [List.range_succ, List.map_append, List.flatten_append, ih, Nat.succ_mul, List.take_add]
      simp

/-- The rounds get all uniform deltas in order, if there are enough of them. -/
theorem groupUniformDeltas_eq {numRounds : ℕ} {uniformDeltas : List Compactor.DeltaAnnotated}
    (positive : 0 < numRounds) (enough : numRounds = 1 ∨ numRounds ≤ uniformDeltas.length) :
    ∃ grouped, groupUniformDeltas numRounds uniformDeltas = .ok grouped ∧
      grouped.flatten = uniformDeltas ∧ grouped.length = numRounds := by
  unfold groupUniformDeltas
  by_cases isOne : numRounds = 1
  · rw [if_pos isOne]
    exact ⟨_, rfl, by simp, by simp [isOne]⟩
  · rw [if_neg isOne, if_neg (not_not.mpr positive),
      if_neg (not_not.mpr (enough.resolve_left isOne))]
    let size := (uniformDeltas.length + numRounds - 1) / numRounds
    let grouped := (List.range numRounds).map fun round =>
      (uniformDeltas.drop (round * size)).take size
    have covers : uniformDeltas.length ≤ numRounds * size := by
      have division := Nat.div_add_mod (uniformDeltas.length + numRounds - 1) numRounds
      have isLess := Nat.mod_lt (uniformDeltas.length + numRounds - 1) positive
      simp only [size]
      omega
    have isWhole : grouped.flatten = uniformDeltas := by
      rw [flatten_slices, List.take_of_length_le covers]
    have counted : (grouped.map List.length).sum = uniformDeltas.length := by
      rw [← List.length_flatten, isWhole]
    refine ⟨grouped, ?_, isWhole, by simp [grouped]⟩
    simp only [grouped, size] at counted ⊢
    rw [if_neg (not_not.mpr counted)]

end Group

section Entries

variable {Value : Type} (read : FileReader Value)

/-- The row groups of a file have its columns, and one after another its rows. -/
structure ReadsRowGroups (entry : ManifestEntry) : Prop where
  columns : ∀ parameters ∈ Compactor.DeltaAnnotated.inputSplitParams entry,
    ∀ rowGroup ∈ Compactor.DeltaAnnotated.rowGroupEntries entry parameters,
      (read.table rowGroup).columnNames = (read.table entry).columnNames
  rows : ∀ parameters ∈ Compactor.DeltaAnnotated.inputSplitParams entry,
    ((Compactor.DeltaAnnotated.rowGroupEntries entry parameters).flatMap fun rowGroup =>
      (read.table rowGroup).rows) = (read.table entry).rows

/-- The entries that an entry may be split into. -/
def entryPieces (entry : ManifestEntry) : List ManifestEntry :=
  (Compactor.DeltaAnnotated.inputSplitParams entry).elim [entry]
    (Compactor.DeltaAnnotated.rowGroupEntries entry)

variable {read}

theorem entryPieces_rows {entry : ManifestEntry} (reads : ReadsRowGroups read entry) :
    ((entryPieces entry).flatMap fun piece => (read.table piece).rows) =
      (read.table entry).rows := by
  unfold entryPieces
  cases isParameters : Compactor.DeltaAnnotated.inputSplitParams entry with
  | none => simp
  | some parameters => exact reads.rows parameters isParameters

theorem entryPieces_part {all : Table String Value} {entry piece : ManifestEntry}
    (reads : ReadsRowGroups read entry) (part : PartOf all (read.table entry))
    (pieceMem : piece ∈ entryPieces entry) : PartOf all (read.table piece) := by
  have areRows := entryPieces_rows reads
  constructor
  · unfold entryPieces at pieceMem
    cases isParameters : Compactor.DeltaAnnotated.inputSplitParams entry with
    | none =>
        rw [isParameters] at pieceMem
        rw [List.mem_singleton.mp pieceMem]
        exact part.columns
    | some parameters =>
        rw [isParameters] at pieceMem
        exact (reads.columns parameters isParameters piece pieceMem).trans part.columns
  · intro row rowMem
    apply part.rows
    rw [← areRows]
    exact List.mem_flatMap.mpr ⟨piece, pieceMem, rowMem⟩

/-- What is left of an annotated delta after it may have been split. -/
theorem splitEntries_tagged {source : Compactor.DeltaAnnotated}
    {result pieces : List Compactor.DeltaAnnotated}
    {rest : List (ManifestEntry × Compactor.DeltaAnnotation)}
    (isSplit : Compactor.DeltaAnnotated.splitEntries source result rest = some pieces) :
    pieces.flatMap Compactor.DeltaAnnotated.tagged =
      result.flatMap Compactor.DeltaAnnotated.tagged ++ rest.flatMap fun pair =>
        (entryPieces pair.1).map fun piece => (source.locator, piece, pair.2) := by
  induction rest generalizing result with
  | nil =>
      cases isSplit
      simp
  | cons pair rest ih =>
      rcases pair with ⟨entry, label⟩
      unfold Compactor.DeltaAnnotated.splitEntries at isSplit
      cases isParameters : Compactor.DeltaAnnotated.inputSplitParams entry with
      | none => simp [isParameters] at isSplit
      | some parameters =>
          simp only [isParameters] at isSplit
          rw [ih isSplit, List.flatMap_append, List.flatMap_cons, List.append_assoc]
          congr 2
          simp only [entryPieces, isParameters, Option.elim_some, List.flatMap_map,
            Compactor.DeltaAnnotated.tagged_single]
          exact List.map_eq_flatMap.symm

theorem splitSingle_tagged (source : Compactor.DeltaAnnotated) :
    source.splitSingle.flatMap Compactor.DeltaAnnotated.tagged = source.tagged ∨
      source.splitSingle.flatMap Compactor.DeltaAnnotated.tagged =
        (source.entries.zip source.annotations).flatMap fun pair =>
          (entryPieces pair.1).map fun piece => (source.locator, piece, pair.2) := by
  unfold Compactor.DeltaAnnotated.splitSingle
  split_ifs
  · split
    · left
      simp
    · rename_i result isSplit
      split_ifs with isEmpty
      · left
        simp
      · right
        simpa using splitEntries_tagged isSplit
  · left
    simp

variable {all : Table String Value} {bucket : Row String Value → ℕ} {merging : Merging bucket}
  {delta : InputDelta}

/-- What a delta that is no delete puts, at its position. -/
def InputDelta.putAt (read : FileReader Value) (delta : InputDelta) :
    ℕ × Change (Row String Value) :=
  (delta.streamPosition, .put (delta.rows read))

/-- What an entry puts, at the position of its delta. -/
def entryPut (read : FileReader Value)
    (item : DeltaLocator × ManifestEntry × Compactor.DeltaAnnotation) :
    ℕ × Change (Row String Value) :=
  (item.2.2.streamPosition.getD 0, .put (read.table item.2.1).rows)

/-- What the entries of an annotated delta put. -/
def entryChanges (read : FileReader Value) (delta : Compactor.DeltaAnnotated) :
    List (ℕ × Change (Row String Value)) :=
  delta.tagged.map (entryPut read)

/-- Entries of a delta that put what it puts. -/
structure EntriesOf (read : FileReader Value) (all : Table String Value) (merging : Merging bucket)
    (delta : InputDelta)
    (items : List (DeltaLocator × ManifestEntry × Compactor.DeltaAnnotation)) :
    Prop where
  locator : ∀ item ∈ items, item.1 = delta.locator
  position : ∀ item ∈ items, item.2.2.streamPosition = some delta.streamPosition
  type : ∀ item ∈ items, item.2.2.deltaType = some delta.type
  parts : ∀ item ∈ items, PartOf all (read.table item.2.1)
  refines : Refines merging (delta.putAt read) (items.map (entryPut read))

/-- Each entry of a delta may be replaced by entries that have its rows. -/
theorem entriesOf_pieces {pieces : ManifestEntry → List ManifestEntry}
    (parts : ∀ entry ∈ delta.entries, ∀ piece ∈ pieces entry, PartOf all (read.table piece))
    (sameRows : ∀ entry ∈ delta.entries,
      ((pieces entry).flatMap fun piece => (read.table piece).rows) = (read.table entry).rows) :
    EntriesOf read all merging delta
      ((delta.annotated.entries.zip delta.annotated.annotations).flatMap fun pair =>
        (pieces pair.1).map fun piece => (delta.locator, piece, pair.2)) := by
  have ofPair : ∀ pair ∈ delta.annotated.entries.zip delta.annotated.annotations,
      pair.1 ∈ delta.entries ∧ pair.2.streamPosition = some delta.streamPosition ∧
        pair.2.deltaType = some delta.type := by
    intro pair pairMem
    rcases pair with ⟨entry, label⟩
    refine ⟨List.of_mem_zip pairMem |>.1, ?_⟩
    have labelMem := (List.of_mem_zip pairMem).2
    rcases List.mem_map.mp labelMem with ⟨index, _, rfl⟩
    exact ⟨delta.isPosition, rfl⟩
  have ofItem : ∀ item ∈ (delta.annotated.entries.zip delta.annotated.annotations).flatMap
      (fun pair => (pieces pair.1).map fun piece => (delta.locator, piece, pair.2)),
      item.1 = delta.locator ∧ item.2.2.streamPosition = some delta.streamPosition ∧
        item.2.2.deltaType = some delta.type ∧ PartOf all (read.table item.2.1) := by
    intro item itemMem
    rcases List.mem_flatMap.mp itemMem with ⟨pair, pairMem, itemMem⟩
    rcases List.mem_map.mp itemMem with ⟨piece, pieceMem, rfl⟩
    rcases ofPair pair pairMem with ⟨entryMem, isPosition, isType⟩
    exact ⟨rfl, isPosition, isType, parts pair.1 entryMem piece pieceMem⟩
  refine ⟨fun item itemMem => (ofItem item itemMem).1,
    fun item itemMem => (ofItem item itemMem).2.1,
    fun item itemMem => (ofItem item itemMem).2.2.1,
    fun item itemMem => (ofItem item itemMem).2.2.2, ?_⟩
  have arePuts : ((delta.annotated.entries.zip delta.annotated.annotations).flatMap fun pair =>
      (pieces pair.1).map fun piece => (delta.locator, piece, pair.2)).map (entryPut read) =
      ((delta.entries.flatMap pieces).map fun piece => (read.table piece).rows).map fun batch =>
        (delta.streamPosition, .put batch) := by
    have ofEntries : delta.entries =
        (delta.annotated.entries.zip delta.annotated.annotations).map Prod.fst :=
      (List.map_fst_zip delta.annotated.aligned.ge).symm
    rw [ofEntries, List.flatMap_map, List.map_flatMap, List.map_flatMap, List.map_flatMap,
      List.flatMap_def, List.flatMap_def]
    congr 1
    apply List.map_congr_left
    intro pair pairMem
    simp [Function.comp_def, entryPut, (ofPair pair pairMem).2.1]
  rw [arePuts]
  apply Refines.puts
  rw [← List.flatMap_def, List.flatMap_assoc, InputDelta.rows, List.flatMap_def, List.flatMap_def]
  congr 1
  exact List.map_congr_left sameRows

/-- What the rebatched entries of a delta are. -/
def uniformEntries (enableInputSplit : Bool) (delta : InputDelta) :
    List (DeltaLocator × ManifestEntry × Compactor.DeltaAnnotation) :=
  if enableInputSplit then delta.annotated.splitSingle.flatMap Compactor.DeltaAnnotated.tagged
  else delta.annotated.tagged

theorem entriesOf_uniformEntries (enableInputSplit : Bool)
    (parts : ∀ entry ∈ delta.entries, PartOf all (read.table entry))
    (reads : ∀ entry ∈ delta.entries, ReadsRowGroups read entry) :
    EntriesOf read all merging delta (uniformEntries enableInputSplit delta) := by
  have whole : EntriesOf read all merging delta delta.annotated.tagged := by
    have ofSingle := @entriesOf_pieces _ read all _ merging delta (fun entry => [entry])
      (by simpa using parts) (by simp)
    simp only [List.map_cons, List.map_nil, ← List.map_eq_flatMap] at ofSingle
    exact ofSingle
  unfold uniformEntries
  split_ifs
  · rcases splitSingle_tagged delta.annotated with isWhole | isSplit
    · rwa [isWhole]
    · rw [isSplit]
      apply entriesOf_pieces
      · intro entry entryMem piece pieceMem
        exact entryPieces_part (reads entry entryMem) (parts entry entryMem) pieceMem
      · exact fun entry entryMem => entryPieces_rows (reads entry entryMem)
  · exact whole

end Entries

section Rebatch

variable {Value Bytes Count : Type} [Add Bytes] [Zero Bytes] [LE Bytes] [DecidableLE Bytes]
  [NatCast Count] [LE Count] [DecidableLE Count]

/-- The groups have the entries of the input in order, and none is empty. -/
theorem exists_rebatch_groups (annotatedDeltas : List Compactor.DeltaAnnotated)
    (minDeltaBytes : Bytes) (minFileCounts : Count)
    (estimationFunction : ManifestEntry → Bytes) (enableInputSplit : Bool) :
    ∃ groups, Compactor.DeltaAnnotated.rebatch annotatedDeltas minDeltaBytes minFileCounts
        estimationFunction enableInputSplit = .ok groups ∧
      (∀ group ∈ groups, group.tagged ≠ []) ∧
      groups.flatMap Compactor.DeltaAnnotated.tagged =
        (if enableInputSplit then annotatedDeltas.flatMap Compactor.DeltaAnnotated.splitSingle
          else annotatedDeltas).flatMap Compactor.DeltaAnnotated.tagged := by
  have initial : Compactor.DeltaAnnotated.RebatchInvariant minDeltaBytes minFileCounts
      estimationFunction (⟨[], none, 0, 0⟩ : Compactor.DeltaAnnotated.RebatchState Bytes) [] :=
    ⟨rfl, IsOpenGrouping.nil, by simp, rfl, rfl⟩
  rcases Compactor.DeltaAnnotated.exists_rebatch (if enableInputSplit then
    annotatedDeltas.flatMap Compactor.DeltaAnnotated.splitSingle else annotatedDeltas) initial with
    ⟨final, isFinal, invariant⟩
  refine ⟨final.groups ++ final.newDa.toList, ?_, ?_, ?_⟩
  · unfold Compactor.DeltaAnnotated.rebatch
    simp only [isFinal, bind, Except.bind]
    cases final.newDa <;> simp [pure, Except.pure]
  · intro group groupMem
    rcases List.mem_append.mp groupMem with isClosed | isLast
    · apply invariant.isOpen.greedy.nonempty
      exact List.mem_append_left _ (List.mem_map_of_mem isClosed)
    · exact invariant.nonempty group (Option.mem_toList.mp isLast)
  · have keepsEntries := invariant.keepsEntries
    cases isNew : final.newDa <;>
      simpa [isNew, Compactor.DeltaAnnotated.current] using keepsEntries

/-- An annotated delta with files of one delta, which is no delete. -/
structure Annotates (read : FileReader Value) (all : Table String Value)
    (annotated : Compactor.DeltaAnnotated) : Prop where
  nonempty : annotated.entries ≠ []
  ofDelta : ∃ streamPosition deltaType, deltaType ≠ DeltaType.delete ∧
    ∀ label ∈ annotated.annotations,
      label.streamPosition = some streamPosition ∧ label.deltaType = some deltaType
  parts : ∀ entry ∈ annotated.entries, PartOf all (read.table entry)

variable (params : CompactPartitionParams Value Bytes Count) {all : Table String Value}
  {bucket : Row String Value → ℕ} (merging : Merging bucket)

/-- Deltas that are no deletes can be rebatched, which does not change what they put. -/
theorem createUniformInputDeltas_eq {deltas : List InputDelta}
    (ascending : (deltas.map InputDelta.streamPosition).Pairwise (· < ·))
    (noDeletes : ∀ delta ∈ deltas, delta.type ≠ .delete)
    (parts : ∀ delta ∈ deltas, ∀ entry ∈ delta.entries, PartOf all (params.read.table entry))
    (reads : ∀ delta ∈ deltas, ∀ entry ∈ delta.entries, ReadsRowGroups params.read entry) :
    ∃ uniformDeltas, createUniformInputDeltas params deltas = .ok uniformDeltas ∧
      (∀ annotated ∈ uniformDeltas, Annotates params.read all annotated) ∧
      ∀ bag before, replayInOrder merging bag
          (before ++ uniformDeltas.flatMap (entryChanges params.read)) =
        replayInOrder merging bag (before ++ deltas.map (InputDelta.putAt params.read)) := by
  rcases exists_rebatch_groups (deltas.map InputDelta.annotated) params.minDeltaBytesInBatch
    params.minFilesInBatch params.estimateManifestEntrySizeBytes params.enableInputSplit with
    ⟨uniformDeltas, areUniform, nonempty, sameEntries⟩
  have ofDelta : ∀ delta ∈ deltas, EntriesOf params.read all merging delta
      (uniformEntries params.enableInputSplit delta) :=
    fun delta deltaMem => entriesOf_uniformEntries params.enableInputSplit (parts delta deltaMem)
      (reads delta deltaMem)
  have areEntries : uniformDeltas.flatMap Compactor.DeltaAnnotated.tagged =
      deltas.flatMap (uniformEntries params.enableInputSplit) := by
    rw [sameEntries]
    unfold uniformEntries
    split_ifs
    · rw [List.flatMap_map, List.flatMap_assoc]
    · rw [List.flatMap_map]
  refine ⟨uniformDeltas, areUniform, ?_, ?_⟩
  · intro annotated annotatedMem
    have ofItem : ∀ item ∈ annotated.tagged, ∃ delta ∈ deltas,
        item ∈ uniformEntries params.enableInputSplit delta := by
      intro item itemMem
      apply List.mem_flatMap.mp
      rw [← areEntries]
      exact List.mem_flatMap.mpr ⟨annotated, annotatedMem, itemMem⟩
    rcases List.exists_mem_of_ne_nil _ (nonempty annotated annotatedMem) with ⟨first, firstMem⟩
    rcases ofItem first firstMem with ⟨source, sourceMem, firstOf⟩
    have distinct := (ascending.imp fun isLess => isLess.ne : (deltas.map _).Nodup)
    -- All entries of a group have one locator, which only one of the deltas has.
    have ofSource : ∀ item ∈ annotated.tagged,
        item ∈ uniformEntries params.enableInputSplit source := by
      intro item itemMem
      rcases ofItem item itemMem with ⟨delta, deltaMem, itemOf⟩
      have sameLocator : delta.locator = source.locator := by
        rw [← (ofDelta delta deltaMem).locator item itemOf,
          ← (ofDelta source sourceMem).locator first firstOf,
          Compactor.DeltaAnnotated.mem_tagged_locator itemMem,
          Compactor.DeltaAnnotated.mem_tagged_locator firstMem]
      have samePosition : delta.streamPosition = source.streamPosition := by
        have isPosition := delta.isPosition
        rw [sameLocator, source.isPosition] at isPosition
        exact (Option.some.inj isPosition).symm
      obtain rfl := List.inj_on_of_nodup_map distinct deltaMem sourceMem samePosition
      exact itemOf
    refine ⟨?_, ⟨source.streamPosition, source.type, noDeletes source sourceMem, ?_⟩, ?_⟩
    · intro noEntries
      simp [Compactor.DeltaAnnotated.tagged, noEntries] at firstMem
    · intro label labelMem
      rw [← List.map_snd_zip annotated.aligned.le] at labelMem
      rcases List.mem_map.mp labelMem with ⟨pair, pairMem, rfl⟩
      have itemOf := ofSource (annotated.locator, pair) (List.mem_map_of_mem pairMem)
      exact ⟨(ofDelta source sourceMem).position _ itemOf,
        (ofDelta source sourceMem).type _ itemOf⟩
    · intro entry entryMem
      rw [← List.map_fst_zip annotated.aligned.ge] at entryMem
      rcases List.mem_map.mp entryMem with ⟨pair, pairMem, rfl⟩
      have itemOf := ofSource (annotated.locator, pair) (List.mem_map_of_mem pairMem)
      exact (ofDelta source sourceMem).parts _ itemOf
  · intro bag before
    have changes : uniformDeltas.flatMap (entryChanges params.read) =
        (deltas.map fun delta => (uniformEntries params.enableInputSplit delta).map
          (entryPut params.read)).flatten := by
      rw [← List.flatMap_def, ← List.map_flatMap, ← areEntries, List.map_flatMap]
      rfl
    rw [changes]
    apply replayInOrder_append
    rw [List.forall₂_map_left_iff, List.forall₂_map_right_iff, List.forall₂_same]
    exact fun delta deltaMem => (ofDelta delta deltaMem).refines

end Rebatch

section Session

variable {Value Bytes Count : Type} [LinearOrder Value] [Add Bytes] [Zero Bytes] [LE Bytes]
  [DecidableLE Bytes] [NatCast Count] [LE Count] [DecidableLE Count]

/-- What a delete file removes, at its position. -/
def removeAt (columnNames : List String) (envelope : DeleteFileEnvelope Value) :
    ℕ × Change (Row String Value) :=
  (envelope.streamPosition, .remove (envelope.Deletes columnNames ·))

/-- What a merge step does, at its position. -/
def stepAt (read : FileReader Value) (columnNames : List String) (step : MergeStep Value) :
    ℕ × Change (Row String Value) :=
  (step.streamPosition, step.change read columnNames)

/-- Deltas that a session can compact: the deletes and the other files can be read. -/
structure Compactable (read : FileReader Value) (all : Table String Value)
    (inputDeltas : List InputDelta) : Prop where
  ascending : (inputDeltas.map InputDelta.streamPosition).Pairwise (· < ·)
  readable : ∀ delta ∈ inputDeltas, delta.type = .delete → delta.Readable read
  sameDeleteTypes : SameDeleteTypes read inputDeltas
  parts : ∀ delta ∈ inputDeltas, delta.type ≠ .delete → ∀ entry ∈ delta.entries,
    PartOf all (read.table entry)
  reads : ∀ delta ∈ inputDeltas, delta.type ≠ .delete → ∀ entry ∈ delta.entries,
    ReadsRowGroups read entry
  sameTypes : SameTypesIn read.SameTypes all

/-- The delete files and the uniform deltas of a session, which replay its deltas. -/
structure Prepares (read : FileReader Value) (all : Table String Value)
    {bucket : Row String Value → ℕ} (merging : Merging bucket) (columnNames : List String)
    (inputDeltas : List InputDelta) (uniformDeltas : List Compactor.DeltaAnnotated)
    (deleteFileEnvelopes : Option (List (DeleteFileEnvelope Value))) : Prop where
  annotates : ∀ annotated ∈ uniformDeltas, Annotates read all annotated
  distinct : ((deleteFileEnvelopes.getD []).map DeleteFileEnvelope.streamPosition).Nodup
  prepared : ∀ envelope ∈ deleteFileEnvelopes.getD [], ∃ prepared,
    prepareDeletes read inputDeltas = .ok prepared ∧ envelope ∈ prepared.2
  isNone : deleteFileEnvelopes = none ↔ ∀ delta ∈ inputDeltas, delta.type ≠ .delete
  replays : ∀ bag, replayInOrder merging bag
      ((deleteFileEnvelopes.getD []).map (removeAt columnNames) ++
        uniformDeltas.flatMap (entryChanges read)) =
    replay merging bag (inputDeltas.map (InputDelta.change read columnNames))

variable (params : CompactPartitionParams Value Bytes Count) {all : Table String Value}
  {bucket : Row String Value → ℕ} (merging : Merging bucket)

/-- However deltas are rebatched, they are replayed one after another. -/
theorem buildUniformDeltas_replays (columnNames : List String) {inputDeltas : List InputDelta}
    (compactable : Compactable params.read all inputDeltas) :
    ∃ uniformDeltas deleteFileEnvelopes,
      buildUniformDeltas params inputDeltas = .ok (uniformDeltas, deleteFileEnvelopes) ∧
        Prepares params.read all merging columnNames inputDeltas uniformDeltas
          deleteFileEnvelopes := by
  have ascending := compactable.ascending
  unfold buildUniformDeltas
  by_cases hasDeletes : containsDeleteDeltas inputDeltas
  · rcases exists_prepareDeletes ascending compactable.readable compactable.sameDeleteTypes with
      ⟨⟨others, envelopes⟩, isPrepared⟩
    rcases prepareDeletes_eq_ok merging columnNames ascending isPrepared with
      ⟨rfl, positions, replays⟩
    let others := inputDeltas.filter (·.type ≠ .delete)
    have ofOthers : ∀ delta ∈ others, delta ∈ inputDeltas ∧ delta.type ≠ .delete := by
      intro delta deltaMem
      simpa [others] using deltaMem
    have othersAscending : (others.map InputDelta.streamPosition).Pairwise (· < ·) :=
      ascending.sublist (List.filter_sublist.map _)
    rcases createUniformInputDeltas_eq params merging othersAscending
      (fun delta deltaMem => (ofOthers delta deltaMem).2)
      (fun delta deltaMem => compactable.parts delta (ofOthers delta deltaMem).1
        (ofOthers delta deltaMem).2)
      (fun delta deltaMem => compactable.reads delta (ofOthers delta deltaMem).1
        (ofOthers delta deltaMem).2) with ⟨uniformDeltas, areUniform, annotates, sameChanges⟩
    refine ⟨uniformDeltas, some envelopes, ?_, annotates, ?_, ?_, ?_, ?_⟩
    · rw [if_pos hasDeletes]
      exact except_bind_eq_ok.mpr ⟨_, isPrepared, except_bind_eq_ok.mpr ⟨_, areUniform, rfl⟩⟩
    · exact (ascending.sublist positions).imp fun isLess => isLess.ne
    · exact fun envelope envelopeMem => ⟨_, isPrepared, envelopeMem⟩
    · simpa [containsDeleteDeltas] using hasDeletes
    · intro bag
      have areSteps : envelopes.map (removeAt columnNames) ++
          others.map (InputDelta.putAt params.read) =
          (envelopes.map Sum.inl ++ others.map Sum.inr).map
            (stepAt params.read columnNames) := by
        rw [List.map_append, List.map_map, List.map_map]
        rfl
      rw [sameChanges, Option.getD_some, areSteps, replayInOrder, inOrder_map]
      exact replays bag
  · have noDeletes : ∀ delta ∈ inputDeltas, delta.type ≠ .delete := by
      simpa [containsDeleteDeltas] using hasDeletes
    rcases createUniformInputDeltas_eq params merging ascending noDeletes
      (fun delta deltaMem => compactable.parts delta deltaMem (noDeletes delta deltaMem))
      (fun delta deltaMem => compactable.reads delta deltaMem (noDeletes delta deltaMem)) with
      ⟨uniformDeltas, areUniform, annotates, sameChanges⟩
    refine ⟨uniformDeltas, none, ?_, annotates, List.nodup_nil, by simp, by simpa using noDeletes,
      ?_⟩
    · rw [if_neg hasDeletes, areUniform]
      rfl
    · intro bag
      rw [sameChanges, Option.getD_none, List.map_nil, List.nil_append,
        replayInOrder_of_ascending, List.map_map]
      · congr 1
        apply List.map_congr_left
        intro delta deltaMem
        simp [InputDelta.putAt, InputDelta.change, noDeletes delta deltaMem]
      · rw [List.pairwise_map] at ascending ⊢
        exact ascending.imp le_of_lt

end Session

end Deltacat.Compute.CompactorV2
