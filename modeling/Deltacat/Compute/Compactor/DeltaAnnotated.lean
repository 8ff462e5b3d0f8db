import Deltacat.Library.GreedyGroups
import Deltacat.Library.Procedure
import Deltacat.Storage.DeltaMerge

/-!
# Rebatching of annotated deltas

An annotated delta keeps, for each manifest entry, its index in the delta that it comes from
and the type and position of that delta. `rebatch` distributes the entries of a list of such
deltas over groups of a least size, after it may have split the entries into their row groups.
-/

namespace Deltacat.Compute.Compactor

open Deltacat.Library Deltacat.Storage

/-- `DeltaAnnotation`: the index of a file, and the type and position of its delta. -/
structure DeltaAnnotation where
  fileIndex : ℕ
  deltaType : Option DeltaType
  streamPosition : Option ℕ
  deriving DecidableEq

/-- `DeltaAnnotated`, with an annotation for each entry of the manifest. -/
structure DeltaAnnotated where
  locator : DeltaLocator
  type : Option DeltaType
  contentType : Option String
  contentEncoding : Option String
  entries : List ManifestEntry
  annotations : List DeltaAnnotation
  aligned : annotations.length = entries.length

namespace DeltaAnnotated

/-- `DeltaAnnotated.of`. -/
def of (locator : DeltaLocator) (type : Option DeltaType) (contentType contentEncoding :
    Option String) (entries : List ManifestEntry) : DeltaAnnotated where
  locator := locator
  type := type
  contentType := contentType
  contentEncoding := contentEncoding
  entries := entries
  annotations := (List.range entries.length).map fun index =>
    ⟨index, type, locator.streamPosition⟩
  aligned := by simp

/-- A delta with one entry. -/
def single (source : DeltaAnnotated) (entry : ManifestEntry) (label : DeltaAnnotation) :
    DeltaAnnotated :=
  { source with entries := [entry], annotations := [label], aligned := rfl }

/-- `_append_annotated_entry`; a delta without items is `none`. -/
def appendAnnotatedEntry (source : DeltaAnnotated) (destination : Option DeltaAnnotated)
    (entry : ManifestEntry) (label : DeltaAnnotation) : Except Error DeltaAnnotated :=
  match destination with
  | none => .ok (source.single entry label)
  | some destination =>
      if source.locator ≠ destination.locator then .error .assertionError
      else .ok { destination with
        type := if source.type ≠ destination.type then none else destination.type
        entries := destination.entries ++ [entry]
        annotations := destination.annotations ++ [label]
        aligned := by simp [destination.aligned] }

section Split

/-- The parameters by which an entry is split: the first that describe several row groups. -/
def inputSplitParams (entry : ManifestEntry) : Option PartialParquetParameters :=
  (entry.metadata.contentTypeParameters.getD []).findSome? fun
    | .partialParquet parameters =>
        if 1 < parameters.numRowGroups ∧ parameters.pqMetadata.isSome then some parameters
        else none
    | .dictionary _ => none

/-- The parameters that are not those of a partial download. -/
def otherParameters (entry : ManifestEntry) : List ContentTypeParameters :=
  (entry.metadata.contentTypeParameters.getD []).filter fun
    | .partialParquet _ => false
    | .dictionary _ => true

/-- The entry of one row group of an entry. -/
def rowGroupEntry (entry : ManifestEntry) (metadata : List RowGroupMetadata) (rowGroup : ℕ)
    (inBounds : rowGroup < metadata.length) : ManifestEntry :=
  { entry with
    metadata := { entry.metadata with
      contentTypeParameters := some (.partialParquet {
        rowGroupsToDownload := [rowGroup]
        numRowGroups := 1
        numRows := metadata[rowGroup].numRows
        inMemorySizeBytes := metadata[rowGroup].totalByteSize
        pqMetadata := some metadata
        described := by simpa using inBounds } :: otherParameters entry) } }

/-- The entries of the row groups of an entry; without metadata, there are none. -/
def rowGroupEntries (entry : ManifestEntry) (parameters : PartialParquetParameters) :
    List ManifestEntry :=
  match isMetadata : parameters.pqMetadata with
  | none => []
  | some metadata => parameters.rowGroupsToDownload.attach.map fun rowGroup =>
      rowGroupEntry entry metadata rowGroup.1
        (parameters.described metadata isMetadata rowGroup.1 rowGroup.2)

/-- The loop of `_split_single`, which gives up at an entry that cannot be split. -/
def splitEntries (source : DeltaAnnotated) (result : List DeltaAnnotated) :
    List (ManifestEntry × DeltaAnnotation) → Option (List DeltaAnnotated)
  | [] => some result
  | (entry, label) :: rest =>
      match inputSplitParams entry with
      | none => none
      | some parameters =>
          splitEntries source (result ++ (rowGroupEntries entry parameters).map fun rowGroup =>
            source.single rowGroup label) rest

/-- `_split_single`. -/
def splitSingle (source : DeltaAnnotated) : List DeltaAnnotated :=
  if source.contentType = some "application/parquet" ∧
      source.contentEncoding = some "identity" then
    match splitEntries source [] (source.entries.zip source.annotations) with
    | none => [source]
    | some result => if result = [] then [source] else result
  else [source]

end Split

section Rebatch

variable {Bytes Count : Type} [Add Bytes] [Zero Bytes] [LE Bytes] [DecidableLE Bytes]
  [NatCast Count] [LE Count] [DecidableLE Count]

/-- The variables of the loop of `rebatch`. -/
structure RebatchState (Bytes : Type) where
  groups : List DeltaAnnotated
  newDa : Option DeltaAnnotated
  newDaBytes : Bytes
  daGroupEntryCount : ℕ

/-- One iteration of the inner loop of `rebatch`. -/
def visitEntry (minDeltaBytes : Bytes) (minFileCounts : Count)
    (estimationFunction : ManifestEntry → Bytes) (srcDa : DeltaAnnotated)
    (state : RebatchState Bytes) (entry : ManifestEntry × DeltaAnnotation) :
    Except Error (RebatchState Bytes) := do
  let state : RebatchState Bytes :=
    match state.newDa with
    | none => state
    | some newDa =>
        if srcDa.locator ≠ newDa.locator then ⟨state.groups ++ [newDa], none, 0, 0⟩ else state
  let newDa ← appendAnnotatedEntry srcDa state.newDa entry.1 entry.2
  let newDaBytes := state.newDaBytes + estimationFunction entry.1
  let daGroupEntryCount := state.daGroupEntryCount + 1
  if minDeltaBytes ≤ newDaBytes ∨ minFileCounts ≤ (daGroupEntryCount : Count) then
    return ⟨state.groups ++ [newDa], none, 0, 0⟩
  else return ⟨state.groups, some newDa, newDaBytes, daGroupEntryCount⟩

/-- `rebatch`. -/
def rebatch (annotatedDeltas : List DeltaAnnotated) (minDeltaBytes : Bytes)
    (minFileCounts : Count) (estimationFunction : ManifestEntry → Bytes)
    (enableInputSplit : Bool) : Except Error (List DeltaAnnotated) := do
  let splitAnnotatedDeltas :=
    if enableInputSplit then annotatedDeltas.flatMap splitSingle else annotatedDeltas
  let state ← splitAnnotatedDeltas.foldlM
    (fun state srcDa => (srcDa.entries.zip srcDa.annotations).foldlM
      (visitEntry minDeltaBytes minFileCounts estimationFunction srcDa) state)
    (⟨[], none, 0, 0⟩ : RebatchState Bytes)
  match state.newDa with
  | none => return state.groups
  | some newDa => return state.groups ++ [newDa]

end Rebatch

section Specification

variable {Bytes Count : Type} [Add Bytes] [Zero Bytes] [LE Bytes] [NatCast Count] [LE Count]

/-- The entries with their annotations and the locator of the delta. -/
def tagged (delta : DeltaAnnotated) : List (DeltaLocator × ManifestEntry × DeltaAnnotation) :=
  (delta.entries.zip delta.annotations).map fun pair => (delta.locator, pair)

def totalBytes (estimationFunction : ManifestEntry → Bytes)
    (items : List (DeltaLocator × ManifestEntry × DeltaAnnotation)) : Bytes :=
  items.foldl (fun bytes item => bytes + estimationFunction item.2.1) 0

/-- Entries that reach a threshold. -/
def Reaches (minDeltaBytes : Bytes) (minFileCounts : Count)
    (estimationFunction : ManifestEntry → Bytes)
    (items : List (DeltaLocator × ManifestEntry × DeltaAnnotation)) : Prop :=
  minDeltaBytes ≤ totalBytes estimationFunction items ∨ minFileCounts ≤ (items.length : Count)

/--
The groups have the entries of the input in order. None is empty or has entries of several
deltas, and each is closed exactly when it reaches a threshold or before another delta.
-/
structure Rebatches (minDeltaBytes : Bytes) (minFileCounts : Count)
    (estimationFunction : ManifestEntry → Bytes) (input groups : List DeltaAnnotated) : Prop where
  keepsEntries : groups.flatMap tagged = input.flatMap tagged
  greedy : IsGreedyGrouping Prod.fst
    (Reaches minDeltaBytes minFileCounts estimationFunction) (groups.map tagged)

/-- The row groups that a reader of an entry downloads: those of the first parameters. -/
def downloads (entry : ManifestEntry) : Option (List ℕ) :=
  (entry.metadata.contentTypeParameters.getD []).findSome? fun
    | .partialParquet parameters => some parameters.rowGroupsToDownload
    | .dictionary _ => none

/-- The entries with their annotations, once for each of their row groups. -/
def rowGroups (source : DeltaAnnotated) : List ((ManifestEntry × DeltaAnnotation) × ℕ) :=
  (source.entries.zip source.annotations).flatMap fun pair =>
    ((inputSplitParams pair.1).elim [] (·.rowGroupsToDownload)).map fun rowGroup =>
      (pair, rowGroup)

/-- A delta with one row group of an entry. -/
structure IsRowGroup (source : DeltaAnnotated)
    (rowGroup : (ManifestEntry × DeltaAnnotation) × ℕ) (piece : DeltaAnnotated) : Prop where
  locator : piece.locator = source.locator
  entry : ∃ entry, piece.entries = [entry] ∧ entry.uri = rowGroup.1.1.uri ∧
    downloads entry = some [rowGroup.2]
  annotations : piece.annotations = [rowGroup.1.2]

/-- The parameters of an entry tell its several row groups apart. -/
def TellsRowGroups (entry : ManifestEntry) : Prop :=
  ∃ parameters, .partialParquet parameters ∈ entry.metadata.contentTypeParameters.getD [] ∧
    1 < parameters.numRowGroups ∧ parameters.pqMetadata.isSome

/-- The files are plain Parquet files, all with several row groups, of which some are read. -/
structure Splittable (source : DeltaAnnotated) : Prop where
  contentType : source.contentType = some "application/parquet"
  contentEncoding : source.contentEncoding = some "identity"
  tellsRowGroups : ∀ entry ∈ source.entries, TellsRowGroups entry
  hasRowGroups : source.rowGroups ≠ []

/--
The pieces of a delta that can be split are the row groups of its entries, each once and in
order. Another delta is left as it is.
-/
structure SplitsInto (source : DeltaAnnotated) (pieces : List DeltaAnnotated) : Prop where
  split : source.Splittable → List.Forall₂ (IsRowGroup source) source.rowGroups pieces
  kept : ¬source.Splittable → pieces = [source]

end Specification

section Splitting

theorem isRowGroup_single {source : DeltaAnnotated} {entry : ManifestEntry}
    {label : DeltaAnnotation} {metadata : List RowGroupMetadata} {rowGroup : ℕ}
    (inBounds : rowGroup < metadata.length) :
    IsRowGroup source ((entry, label), rowGroup)
      (source.single (rowGroupEntry entry metadata rowGroup inBounds) label) where
  locator := rfl
  entry := ⟨_, rfl, rfl, rfl⟩
  annotations := rfl

theorem exists_metadata {entry : ManifestEntry} {parameters : PartialParquetParameters}
    (isParameters : inputSplitParams entry = some parameters) :
    ∃ metadata, parameters.pqMetadata = some metadata := by
  unfold inputSplitParams at isParameters
  rcases List.exists_of_findSome?_eq_some isParameters with ⟨given, -, isGiven⟩
  cases given with
  | dictionary => cases isGiven
  | partialParquet given =>
      simp only at isGiven
      split_ifs at isGiven with isSplit
      cases isGiven
      exact Option.isSome_iff_exists.mp isSplit.2

theorem isSome_inputSplitParams_iff {entry : ManifestEntry} :
    (inputSplitParams entry).isSome ↔ TellsRowGroups entry := by
  unfold inputSplitParams TellsRowGroups
  rw [List.findSome?_isSome_iff]
  constructor
  · rintro ⟨given, givenMem, isGiven⟩
    cases given with
    | dictionary => cases isGiven
    | partialParquet parameters =>
        simp only at isGiven
        split_ifs at isGiven with several
        · exact ⟨parameters, givenMem, several⟩
        · cases isGiven
  · rintro ⟨parameters, parametersMem, several⟩
    exact ⟨_, parametersMem, by simp [several]⟩

theorem rowGroupEntries_spec {source : DeltaAnnotated} {entry : ManifestEntry}
    {label : DeltaAnnotation} {parameters : PartialParquetParameters}
    (isParameters : inputSplitParams entry = some parameters) :
    List.Forall₂ (IsRowGroup source)
      (parameters.rowGroupsToDownload.map fun rowGroup => ((entry, label), rowGroup))
      ((rowGroupEntries entry parameters).map fun rowGroup =>
        source.single rowGroup label) := by
  rcases exists_metadata isParameters with ⟨metadata, isMetadata⟩
  unfold rowGroupEntries
  split
  · rename_i isNone
    cases isNone.symm.trans isMetadata
  · have attached := List.attach_map_subtype_val parameters.rowGroupsToDownload
    nth_rewrite 1 [← attached]
    rw [List.forall₂_map_left_iff, List.forall₂_map_left_iff, List.forall₂_map_right_iff,
      List.forall₂_map_right_iff, List.forall₂_same]
    intro rowGroup _
    exact isRowGroup_single _

theorem splitEntries_spec {source : DeltaAnnotated} {result pieces : List DeltaAnnotated}
    {rest : List (ManifestEntry × DeltaAnnotation)}
    (isSplit : splitEntries source result rest = some pieces) :
    ∃ later, pieces = result ++ later ∧ List.Forall₂ (IsRowGroup source)
      (rest.flatMap fun pair => ((inputSplitParams pair.1).elim [] (·.rowGroupsToDownload)).map
        fun rowGroup => (pair, rowGroup)) later := by
  induction rest generalizing result with
  | nil =>
      cases isSplit
      exact ⟨[], by simp, List.Forall₂.nil⟩
  | cons pair rest ih =>
      rcases pair with ⟨entry, label⟩
      unfold splitEntries at isSplit
      cases isParameters : inputSplitParams entry with
      | none => simp [isParameters] at isSplit
      | some parameters =>
          simp only [isParameters] at isSplit
          rcases ih isSplit with ⟨later, rfl, areLater⟩
          refine ⟨_, List.append_assoc _ _ _, ?_⟩
          rw [List.flatMap_cons]
          simp only [isParameters, Option.elim_some]
          exact List.rel_append (rowGroupEntries_spec isParameters) areLater

/-- The loop gives up exactly if an entry does not tell its row groups apart. -/
theorem splitEntries_eq_none_iff {source : DeltaAnnotated} {result : List DeltaAnnotated}
    {rest : List (ManifestEntry × DeltaAnnotation)} :
    splitEntries source result rest = none ↔ ∃ pair ∈ rest, ¬TellsRowGroups pair.1 := by
  induction rest generalizing result with
  | nil => simp [splitEntries]
  | cons pair rest ih =>
      rcases pair with ⟨entry, label⟩
      rw [List.exists_mem_cons_iff, ← isSome_inputSplitParams_iff]
      unfold splitEntries
      cases inputSplitParams entry <;> simp [ih]

theorem tellsRowGroups_iff (source : DeltaAnnotated) :
    (∀ pair ∈ source.entries.zip source.annotations, TellsRowGroups pair.1) ↔
      ∀ entry ∈ source.entries, TellsRowGroups entry := by
  have entries : (source.entries.zip source.annotations).map Prod.fst = source.entries :=
    List.map_fst_zip source.aligned.ge
  nth_rewrite 2 [← entries]
  simp only [List.forall_mem_map]

theorem splitsInto_splitSingle (source : DeltaAnnotated) :
    SplitsInto source source.splitSingle := by
  unfold splitSingle
  split_ifs with isParquet
  · split
    · rename_i gaveUp
      refine ⟨?_, fun _ => rfl⟩
      intro splittable
      rcases splitEntries_eq_none_iff.mp gaveUp with ⟨pair, pairMem, tellsNone⟩
      exact absurd (source.tellsRowGroups_iff.mpr splittable.tellsRowGroups pair pairMem) tellsNone
    · rename_i result isSplit
      rcases splitEntries_spec isSplit with ⟨later, rfl, areLater⟩
      have areLater : List.Forall₂ (IsRowGroup source) source.rowGroups result := areLater
      have tells : ∀ entry ∈ source.entries, TellsRowGroups entry := by
        rw [← source.tellsRowGroups_iff]
        by_contra tellsNone
        push Not at tellsNone
        rw [splitEntries_eq_none_iff.mpr tellsNone] at isSplit
        cases isSplit
      split_ifs with isEmpty
      · refine ⟨?_, fun _ => rfl⟩
        intro splittable
        subst isEmpty
        exact absurd (List.forall₂_nil_right_iff.mp areLater) splittable.hasRowGroups
      · refine ⟨fun _ => areLater, ?_⟩
        intro notSplittable
        exfalso
        apply notSplittable
        refine ⟨isParquet.1, isParquet.2, tells, ?_⟩
        intro noRowGroups
        rw [noRowGroups, List.forall₂_nil_left_iff] at areLater
        exact isEmpty areLater
  · refine ⟨?_, fun _ => rfl⟩
    intro splittable
    exact absurd ⟨splittable.contentType, splittable.contentEncoding⟩ isParquet

end Splitting

section Totals

variable {Bytes : Type} [Add Bytes] [Zero Bytes] {estimationFunction : ManifestEntry → Bytes}

theorem totalBytes_append (items : List (DeltaLocator × ManifestEntry × DeltaAnnotation))
    (item : DeltaLocator × ManifestEntry × DeltaAnnotation) :
    totalBytes estimationFunction (items ++ [item]) =
      totalBytes estimationFunction items + estimationFunction item.2.1 := by
  simp [totalBytes]

theorem tagged_append (destination : DeltaAnnotated) (type : Option DeltaType)
    (entry : ManifestEntry) (label : DeltaAnnotation) :
    tagged { destination with
      type := type
      entries := destination.entries ++ [entry]
      annotations := destination.annotations ++ [label]
      aligned := by simp [destination.aligned] } =
      destination.tagged ++ [(destination.locator, entry, label)] := by
  simp [tagged, List.zip_append destination.aligned.symm]

end Totals

section Rebatching

variable {Bytes Count : Type} [Add Bytes] [Zero Bytes] [LE Bytes] [DecidableLE Bytes]
  [NatCast Count] [LE Count] [DecidableLE Count]
  {minDeltaBytes : Bytes} {minFileCounts : Count} {estimationFunction : ManifestEntry → Bytes}
  {state : RebatchState Bytes}
  {visited : List (DeltaLocator × ManifestEntry × DeltaAnnotation)}

@[simp] theorem tagged_single (source : DeltaAnnotated) (entry : ManifestEntry)
    (label : DeltaAnnotation) :
    (source.single entry label).tagged = [(source.locator, entry, label)] := rfl

/-- The entries of the group that is being filled. -/
def current (newDa : Option DeltaAnnotated) :
    List (DeltaLocator × ManifestEntry × DeltaAnnotation) :=
  newDa.elim [] tagged

/-- The loop of `rebatch` after some of the entries. -/
structure RebatchInvariant (minDeltaBytes : Bytes) (minFileCounts : Count)
    (estimationFunction : ManifestEntry → Bytes) (state : RebatchState Bytes)
    (visited : List (DeltaLocator × ManifestEntry × DeltaAnnotation)) : Prop where
  keepsEntries : state.groups.flatMap tagged ++ current state.newDa = visited
  isOpen : IsOpenGrouping Prod.fst (Reaches minDeltaBytes minFileCounts estimationFunction)
    (state.groups.map tagged) (current state.newDa)
  nonempty : ∀ newDa ∈ state.newDa, newDa.tagged ≠ []
  bytes : state.newDaBytes = totalBytes estimationFunction (current state.newDa)
  count : state.daGroupEntryCount = (current state.newDa).length

theorem mem_tagged_locator {delta : DeltaAnnotated}
    {item : DeltaLocator × ManifestEntry × DeltaAnnotation} (itemMem : item ∈ delta.tagged) :
    item.1 = delta.locator := by
  unfold tagged at itemMem
  rcases List.mem_map.mp itemMem with ⟨_, _, rfl⟩
  rfl

/-- The group that an entry was added to is closed if it reaches a threshold. -/
theorem RebatchInvariant.finish {groups : List DeltaAnnotated} {newDa : DeltaAnnotated}
    (greedy : IsGreedyGrouping Prod.fst
      (Reaches minDeltaBytes minFileCounts estimationFunction)
      (groups.map tagged ++ [newDa.tagged])) :
    RebatchInvariant minDeltaBytes minFileCounts estimationFunction
      (if minDeltaBytes ≤ totalBytes estimationFunction newDa.tagged ∨
          minFileCounts ≤ (newDa.tagged.length : Count) then ⟨groups ++ [newDa], none, 0, 0⟩
        else ⟨groups, some newDa, totalBytes estimationFunction newDa.tagged,
          newDa.tagged.length⟩)
      (groups.flatMap tagged ++ newDa.tagged) := by
  split_ifs with isFull
  · refine ⟨by simp [current], ?_, by simp, rfl, rfl⟩
    simpa [current] using IsOpenGrouping.close greedy isFull
  · refine ⟨rfl, IsOpenGrouping.keep greedy isFull, ?_, rfl, rfl⟩
    intro other isOther
    cases isOther
    exact greedy.nonempty newDa.tagged (by simp)

/-- A step of the loop visits one entry. -/
theorem exists_visitEntry
    (invariant : RebatchInvariant minDeltaBytes minFileCounts estimationFunction state visited)
    (srcDa : DeltaAnnotated) (entry : ManifestEntry × DeltaAnnotation) :
    ∃ next, visitEntry minDeltaBytes minFileCounts estimationFunction srcDa state entry =
        .ok next ∧
      RebatchInvariant minDeltaBytes minFileCounts estimationFunction next
        (visited ++ [(srcDa.locator, entry)]) := by
  rcases entry with ⟨entry, label⟩
  rcases state with ⟨groups, newDa, newDaBytes, daGroupEntryCount⟩
  rcases invariant with ⟨rfl, isOpen, nonempty, bytes, count⟩
  simp only at isOpen nonempty bytes count ⊢
  subst bytes count
  cases newDa with
  | none =>
      have isOpen : IsOpenGrouping Prod.fst
          (Reaches minDeltaBytes minFileCounts estimationFunction) (groups.map tagged) [] := isOpen
      have greedy := isOpen.begin (srcDa.locator, entry, label) (by simp)
      rw [if_pos rfl, List.append_nil] at greedy
      have finished := @RebatchInvariant.finish _ Count _ _ _ _ _ _ _ minDeltaBytes minFileCounts
        estimationFunction groups (srcDa.single entry label) greedy
      refine ⟨_, ?_, by simpa [current] using finished⟩
      exact (apply_ite Except.ok _ _ _).symm
  | some newDa =>
      have isNonempty := nonempty newDa rfl
      have isSome : current (some newDa) = newDa.tagged := rfl
      rw [isSome] at isOpen ⊢
      by_cases sameLocator : srcDa.locator = newDa.locator
      · have greedy := (isOpen.greedy_of_nonempty isNonempty).extend
          (srcDa.locator, entry, label)
          (fun other otherMem => (mem_tagged_locator otherMem).trans sameLocator.symm)
          (isOpen.notFull isNonempty)
        have appended := tagged_append newDa
          (if srcDa.type ≠ newDa.type then none else newDa.type) entry label
        rw [← sameLocator] at appended
        rw [← appended] at greedy
        have finished := @RebatchInvariant.finish _ Count _ _ _ _ _ _ _ minDeltaBytes
          minFileCounts estimationFunction groups _ greedy
        rw [appended] at finished
        rw [List.append_assoc]
        refine ⟨_, ?_, finished⟩
        rw [apply_ite Except.ok, totalBytes_append, List.length_append]
        simp only [visitEntry, appendAnnotatedEntry, sameLocator, ne_eq, not_true_eq_false,
          if_false]
        rfl
      · have greedy := isOpen.begin (srcDa.locator, entry, label)
          (fun other otherMem same => sameLocator ((mem_tagged_locator otherMem).symm.trans
            same).symm)
        rw [if_neg isNonempty] at greedy
        have finished := @RebatchInvariant.finish _ Count _ _ _ _ _ _ _ minDeltaBytes
          minFileCounts estimationFunction (groups ++ [newDa]) (srcDa.single entry label)
          (by simpa using greedy)
        have visited : (groups ++ [newDa]).flatMap tagged ++ (srcDa.single entry label).tagged =
            groups.flatMap tagged ++ newDa.tagged ++ [(srcDa.locator, entry, label)] := by
          simp
        rw [visited] at finished
        refine ⟨_, ?_, finished⟩
        rw [apply_ite Except.ok]
        simp only [visitEntry, if_pos (show srcDa.locator ≠ newDa.locator from sameLocator)]
        rfl

/-- The loop visits the entries of the deltas in order. -/
theorem exists_rebatch (annotatedDeltas : List DeltaAnnotated)
    (invariant : RebatchInvariant minDeltaBytes minFileCounts estimationFunction state visited) :
    ∃ final, annotatedDeltas.foldlM
        (fun state srcDa => (srcDa.entries.zip srcDa.annotations).foldlM
          (visitEntry minDeltaBytes minFileCounts estimationFunction srcDa) state) state =
        .ok final ∧
      RebatchInvariant minDeltaBytes minFileCounts estimationFunction final
        (visited ++ annotatedDeltas.flatMap tagged) := by
  have visitsEntries : ∀ (srcDa : DeltaAnnotated) (entries : List (ManifestEntry ×
      DeltaAnnotation)) (state : RebatchState Bytes) (visited : List (DeltaLocator ×
        ManifestEntry × DeltaAnnotation)),
      RebatchInvariant minDeltaBytes minFileCounts estimationFunction state visited →
      ∃ next, entries.foldlM (visitEntry minDeltaBytes minFileCounts estimationFunction srcDa)
          state = .ok next ∧
        RebatchInvariant minDeltaBytes minFileCounts estimationFunction next
          (visited ++ entries.map fun entry => (srcDa.locator, entry)) := by
    intro srcDa entries
    induction entries with
    | nil =>
        intro state visited invariant
        exact ⟨state, rfl, by simpa using invariant⟩
    | cons entry entries ih =>
        intro state visited invariant
        rcases exists_visitEntry invariant srcDa entry with ⟨next, isNext, nextInvariant⟩
        rcases ih next _ nextInvariant with ⟨final, isFinal, finalInvariant⟩
        refine ⟨final, ?_, by simpa using finalInvariant⟩
        rw [List.foldlM_cons, isNext]
        exact isFinal
  induction annotatedDeltas generalizing state visited with
  | nil => exact ⟨state, rfl, by simpa using invariant⟩
  | cons srcDa annotatedDeltas ih =>
      rcases visitsEntries srcDa _ state visited invariant with ⟨next, isNext, nextInvariant⟩
      rcases ih nextInvariant with ⟨final, isFinal, finalInvariant⟩
      refine ⟨final, ?_, by simpa [tagged] using finalInvariant⟩
      rw [List.foldlM_cons, isNext]
      exact isFinal

/-- The groups preserve the entries of the input, which may have been split before. -/
theorem rebatch_rebatches (annotatedDeltas : List DeltaAnnotated) (minDeltaBytes : Bytes)
    (minFileCounts : Count) (estimationFunction : ManifestEntry → Bytes)
    (enableInputSplit : Bool) :
    ∃ groups, rebatch annotatedDeltas minDeltaBytes minFileCounts estimationFunction
        enableInputSplit = .ok groups ∧
      Rebatches minDeltaBytes minFileCounts estimationFunction
        (if enableInputSplit then annotatedDeltas.flatMap splitSingle else annotatedDeltas)
        groups ∧
      ∀ delta ∈ annotatedDeltas, SplitsInto delta delta.splitSingle := by
  have initial : RebatchInvariant minDeltaBytes minFileCounts estimationFunction
      (⟨[], none, 0, 0⟩ : RebatchState Bytes) [] :=
    ⟨rfl, IsOpenGrouping.nil, by simp, rfl, rfl⟩
  rcases exists_rebatch (if enableInputSplit then annotatedDeltas.flatMap splitSingle
    else annotatedDeltas) initial with ⟨final, isFinal, invariant⟩
  have isRebatched : rebatch annotatedDeltas minDeltaBytes minFileCounts estimationFunction
      enableInputSplit = .ok (final.groups ++ final.newDa.toList) := by
    unfold rebatch
    simp only [isFinal, bind, Except.bind]
    cases final.newDa <;> simp [pure, Except.pure]
  refine ⟨_, isRebatched, ⟨?_, ?_⟩, fun delta _ => splitsInto_splitSingle delta⟩
  · have keepsEntries := invariant.keepsEntries
    cases isNew : final.newDa <;> simpa [isNew, current] using keepsEntries
  · have greedy := invariant.isOpen.greedy
    cases isNew : final.newDa with
    | none => simpa [isNew, current] using greedy
    | some newDa =>
        have isNonempty := invariant.nonempty newDa isNew
        simpa [isNew, current, isNonempty] using greedy

end Rebatching

end DeltaAnnotated

end Deltacat.Compute.Compactor
